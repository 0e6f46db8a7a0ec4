import DBusLog.Lib.RefMemory
import DBusLog.Client.Attribution
import DBusLog.Client.Containers
import Mathlib.Data.List.Perm.Basic

/-!
# The references to the categories

Categories are reference-counted objects (`dbuslog_category.c`). The hash table and the public array
of a client have a reference each, handlers of its signals may take more of them, and the array is
made again, with new references, before the old one is given up. Here every access of the client to
a category is an access to a memory that notices an object that is gone.

In every run nothing is ever misused, a category of the client has its two references and those of
the application, and one that has left the client lives on exactly as long as the application keeps
it.
-/

namespace DBusLog

/-- The reference counts of the category objects, and the references of the application. -/
structure CategoryRefs where
  objects : RefMemory Unit
  kept : List Nat
  deriving DecidableEq

namespace CategoryRefs

/-- The pointers in a hash table. -/
abbrev pointers (table : KeyedTable (Prod.fst : UInt32 × Nat → UInt32)) : List Nat :=
  table.values.map Prod.snd

/-- What `g_hash_table_replace` takes out for a new value under the id. -/
def replaced (table : KeyedTable (Prod.fst : UInt32 × Nat → UInt32)) (id : UInt32) : List Nat :=
  ((table.lookup id).map Prod.snd).toList

/-- `dbus_log_client_emit` with a category, between a ref and an unref. Handlers look at the
category, and may keep it. -/
def emit (r : CategoryRefs) (keep : Nat → Bool) (p : Nat) : CategoryRefs :=
  let objects := (r.objects.ref p).use p
  if keep p then ⟨(objects.ref p).unref p, p :: r.kept⟩ else ⟨objects.unref p, r.kept⟩

/-- `dbus_log_client_category_remove`. The old array has the category until the end. -/
def categoryRemove (r : CategoryRefs) (keep : Nat → Bool) (c : DBusLogClient) (id : UInt32) :
    CategoryRefs :=
  match c.category id, c.categoryIndex (c.category id) with
  | some p, some index =>
    -- the name is printed
    let objects := (r.objects.use p).refAll
      (c.categories.take index ++ c.categories.drop (index + 1))
    let r := { r with objects := objects.unref p }.emit keep p
    { r with objects := r.objects.unrefAll c.categories }
  | _, _ => r

/-- `dbus_log_client_category_added` -/
def categoryAdded (r : CategoryRefs) (keep : Nat → Bool) (c : DBusLogClient) (name : String)
    (id : UInt32) : CategoryRefs :=
  let p := c.memory.length
  let r := { r with objects := r.objects.alloc () }
  let c := { c with memory := c.memory ++ [DBusLogCategory.new name id] }
  let r := r.categoryRemove keep c id
  let c := (c.categoryRemove id).2
  let objects := (r.objects.use p).unrefAll (replaced c.table id)
  let values := pointers (c.table.insert (id, p))
  -- the new array, and the comparisons of the sort
  let objects := (objects.refAll values).useAll values
  let r := { r with objects := objects }.emit keep p
  { r with objects := r.objects.unrefAll c.categories }

/-- `dbus_log_client_category_flags_changed` -/
def categoryFlagsChanged (r : CategoryRefs) (keep : Nat → Bool) (c : DBusLogClient)
    (id : UInt32) : CategoryRefs :=
  match c.category id, c.categoryIndex (c.category id) with
  | some p, some _ => { r with objects := r.objects.use p }.emit keep p
  | _, _ => r

/-- A signal of the server reaches the handlers of the proxy. -/
def handle (r : CategoryRefs) (keep : Nat → Bool) (c : DBusLogClient) : BusSignal → CategoryRefs
  | .categoryAdded name id _ => r.categoryAdded keep c name id
  | .categoryRemoved id => r.categoryRemove keep c id
  | .categoryFlagsChanged id _ => r.categoryFlagsChanged keep c id
  | _ => r

/-- The loop of `dbus_log_client_decode_categories` -/
def decodeCategories (entries : List ClientConnection.SnapshotEntry) :
    RefMemory Unit × KeyedTable (Prod.fst : UInt32 × Nat → UInt32) →
    RefMemory Unit × KeyedTable (Prod.fst : UInt32 × Nat → UInt32) := fun start =>
  entries.foldl (fun (objects, table) entry =>
    let p := objects.heap.length
    (((objects.alloc ()).use p).unrefAll (replaced table entry.2.1),
      table.insert (entry.2.1, p))) start

/-- `dbus_log_client_init_free` without an error, with the table of the init context -/
def initFree (r : CategoryRefs) (c : ClientConnection) (attempt : Nat)
    (table : KeyedTable (Prod.fst : UInt32 × Nat → UInt32)) : CategoryRefs :=
  if c.init = some attempt then
    let values := pointers table
    let objects := r.objects.unrefAll c.categories
    let objects := (objects.refAll values).useAll values
    { r with objects := objects.unrefAll (pointers c.table) }
  else { r with objects := r.objects.unrefAll (pointers table) }

/-- `dbus_log_client_init_get_all_finished` and `dbus_log_client_init_get_all2_finished` -/
def getAllFinished (r : CategoryRefs) (c : ClientConnection) (attempt : Nat)
    (entries : List ClientConnection.SnapshotEntry) : CategoryRefs :=
  let (objects, table) := decodeCategories entries (r.objects, .empty)
  initFree { r with objects := objects } c attempt table

/-- `dbus_log_client_disconnect` -/
def disconnect (r : CategoryRefs) (c : ClientConnection) : CategoryRefs :=
  { r with objects := (r.objects.unrefAll (pointers c.table)).unrefAll c.categories }

/-- The accesses of an event. -/
def touch (r : CategoryRefs) (keep : Nat → Bool) (c : ClientConnection) :
    ClientEvent → CategoryRefs
  | .nameVanished => r.disconnect c
  | .gotAll attempt (some (_, entries)) => r.getAllFinished c attempt entries
  | .gotAll2 attempt (some (_, entries, _)) => r.getAllFinished c attempt entries
  | .signal signal => if c.handling then r.handle keep c.toDBusLogClient signal else r
  | _ => r

end CategoryRefs

/-- A client and its categories as objects. -/
structure ClientCategories where
  connection : ClientConnection
  refs : CategoryRefs
  finalized : Bool
  deriving DecidableEq

/-- What happens to a client and its categories. Handlers keep the categories they like. -/
inductive CategoryEvent
  | event (order : HashOrder) (keep : Nat → Bool) (e : ClientEvent)
  | message (keep : Nat → Bool) (msg : DBusLogMessage)
  | ref (p : Nat)
  | unref (p : Nat)
  | finalize

namespace ClientCategories

/-- `dbus_log_client_new` -/
def new (autostartFlag : Bool) : ClientCategories where
  connection := .new autostartFlag
  refs := ⟨RefMemory.empty, []⟩
  finalized := false

/-- A step; `none` when it is not enabled. The application takes references to what it sees in the
array or has already. -/
def step (m : ClientCategories) : CategoryEvent → Option ClientCategories
  | .event order keep e =>
    if m.finalized then none
    else
      (m.connection.stepIn order e).map fun c =>
        { m with connection := c, refs := m.refs.touch keep m.connection e }
  | .message keep msg =>
    if m.finalized = false ∧ m.connection.receiver.isSome then
      match (m.connection.receiverMessage msg).1 with
      | some p => some { m with refs := m.refs.emit keep p }
      | none => some m
    else none
  | .ref p =>
    if p ∈ m.connection.categories ++ m.refs.kept then
      some { m with refs := ⟨m.refs.objects.ref p, p :: m.refs.kept⟩ }
    else none
  | .unref p =>
    if p ∈ m.refs.kept then
      some { m with refs := ⟨m.refs.objects.unref p, m.refs.kept.erase p⟩ }
    else none
  | .finalize =>
    if m.finalized then none
    else some {
      connection := m.connection.disconnect false
      refs := m.refs.disconnect m.connection
      finalized := true }

end ClientCategories

namespace CategoryRefs

open DBusLogClient (category_eq_some_iff categoryIndex_at sortedIn sortedIn_perm)

variable {r : CategoryRefs} {keep : Nat → Bool} {c : DBusLogClient} {id : UInt32} {p : Nat}
  {held : List Nat} {table : KeyedTable (Prod.fst : UInt32 × Nat → UInt32)}

/-! ## The primitives -/

/-- Handlers get a category that is alive, and are the only ones to have more references then. -/
theorem emit_owned (keep : Nat → Bool) (h : r.objects.Owned (held ++ r.kept))
    (hp : p ∈ held ++ r.kept) :
    (r.emit keep p).objects.Owned (held ++ (r.emit keep p).kept) := by
  have href := h.ref hp
  unfold emit
  dsimp only
  rw [href.use List.mem_cons_self]
  split
  · exact ((href.ref List.mem_cons_self).unref).perm List.perm_middle.symm
  · exact href.unref

@[simp] theorem length_emit : (r.emit keep p).objects.heap.length = r.objects.heap.length := by
  unfold emit
  split
  · simp
  · simp

/-- A pointer takes the place of the one that the table has under the id. -/
theorem replace_owned {objects : RefMemory Unit} (id : UInt32)
    (h : objects.Owned (p :: (pointers table ++ held))) :
    (objects.unrefAll (replaced table id)).Owned (pointers (table.insert (id, p)) ++ held) := by
  have hinsert : pointers (table.insert (id, p)) = p :: pointers (table.erase id) := rfl
  rw [hinsert]
  unfold replaced
  cases hlookup : table.lookup id with
  | none =>
    have hsame : pointers (table.erase id) = pointers table :=
      congrArg (List.map Prod.snd) (KeyedTable.values_erase_of_lookup hlookup)
    rw [hsame]
    exact h
  | some e =>
    have htable : (pointers table).Perm (e.2 :: pointers (table.erase id)) :=
      (KeyedTable.perm_cons_erase hlookup).map Prod.snd
    apply RefMemory.Owned.unrefAll
    refine h.perm ((List.Perm.cons p (htable.append_right held)).trans ?_)
    exact List.Perm.swap _ _ _

/-! ## Signals -/

/-- The place of the category in the array, and the rest of that. -/
theorem categories_perm {index : Nat} (h : c.categoryIndex (some p) = some index) :
    c.categories.Perm (p :: (c.categories.take index ++ c.categories.drop (index + 1))) := by
  obtain ⟨hlt, hp⟩ := List.getElem?_eq_some_iff.mp (categoryIndex_at h)
  rw [← List.eraseIdx_eq_take_drop_succ, ← hp]
  exact (List.getElem_cons_eraseIdx_perm hlt).symm

theorem categoryRemove_owned (keep : Nat → Bool) (id : UInt32)
    (h : r.objects.Owned (held ++ pointers c.table ++ c.categories ++ r.kept)) :
    (r.categoryRemove keep c id).objects.Owned (held ++ pointers (c.categoryRemove id).2.table ++
      (c.categoryRemove id).2.categories ++ (r.categoryRemove keep c id).kept) := by
  unfold categoryRemove DBusLogClient.categoryRemove
  cases hp : c.category id with
  | none => exact h
  | some p =>
    cases hindex : c.categoryIndex (some p) with
    | none => exact h
    | some index =>
      have htable : (pointers c.table).Perm (p :: pointers (c.table.erase id)) :=
        (KeyedTable.perm_cons_erase (category_eq_some_iff.mp hp).2).map Prod.snd
      have harray := categories_perm hindex
      dsimp only
      generalize hrest : c.categories.take index ++ c.categories.drop (index + 1) = rest at harray
      have hmem : ∀ q ∈ p :: rest, q ∈ held ++ pointers c.table ++ c.categories ++ r.kept := by
        intro q hq
        exact List.mem_append_left _ (List.mem_append_right _ (harray.mem_iff.mpr hq))
      rw [h.use (hmem p List.mem_cons_self)]
      -- the new array
      have hnew := h.refAll fun q hq => hmem q (List.mem_cons_of_mem p hq)
      -- the table
      have hfreed : ((r.objects.refAll rest).unref p).Owned
          (held ++ pointers (c.table.erase id) ++ rest ++ c.categories ++ r.kept) := by
        refine (hnew.perm (List.perm_iff_count.mpr fun q => ?_)).unref
        have hcount := htable.count_eq q
        simp only [List.count_append, List.count_cons] at hcount ⊢
        omega
      have hemitted := emit_owned (r := { r with objects := (r.objects.refAll rest).unref p })
        keep hfreed
        (List.mem_append_left _ (List.mem_append_right _ (harray.mem_iff.mpr List.mem_cons_self)))
      -- the old array
      show (RefMemory.unrefAll _ _).Owned
        (held ++ pointers (c.table.erase id) ++ rest ++ (CategoryRefs.emit _ keep p).kept)
      apply RefMemory.Owned.unrefAll
      refine hemitted.perm (List.perm_iff_count.mpr fun q => ?_)
      simp only [List.count_append]
      omega

@[simp] theorem length_categoryRemove :
    (r.categoryRemove keep c id).objects.heap.length = r.objects.heap.length := by
  unfold categoryRemove
  split
  · simp
  · rfl

theorem length_categoryAdded (name : String) :
    (r.categoryAdded keep c name id).objects.heap.length = r.objects.heap.length + 1 := by
  simp [categoryAdded]

/-- The new array has the values of the table, in whatever order. -/
theorem categoryAdded_owned (h : r.objects.Owned (pointers c.table ++ c.categories ++ r.kept))
    (hlength : r.objects.heap.length = c.memory.length) (order : HashOrder) (name : String)
    (flags : UInt32) :
    (r.categoryAdded keep c name id).objects.Owned
      (pointers (c.categoryAddedIn order name id flags).table ++
        (c.categoryAddedIn order name id flags).categories ++
        (r.categoryAdded keep c name id).kept) := by
  have halloc := h.alloc ()
  rw [hlength] at halloc
  unfold categoryAdded DBusLogClient.categoryAddedIn
  dsimp only
  generalize hnew : ({ c with memory := c.memory ++ [DBusLogCategory.new name id] } :
    DBusLogClient) = d
  -- the new category is in hand when another one makes room
  have hinhand : (r.objects.alloc ()).Owned
      ([c.memory.length] ++ pointers d.table ++ d.categories ++ r.kept) := by
    rw [← hnew]
    exact halloc
  have hremoved := categoryRemove_owned (r := { r with objects := r.objects.alloc () }) keep id
    hinhand
  generalize ({ r with objects := r.objects.alloc () } : CategoryRefs).categoryRemove keep d id =
    r₁ at hremoved ⊢
  generalize (d.categoryRemove id).2 = d₁ at hremoved ⊢
  have htaken : r₁.objects.Owned
      (c.memory.length :: (pointers d₁.table ++ (d₁.categories ++ r₁.kept))) := by
    simpa only [List.append_assoc, List.cons_append, List.nil_append] using hremoved
  have hinserted := replace_owned id htaken
  have hsorted : (sortedIn order (d₁.memory.modify c.memory.length fun cat =>
      { cat with flags := flags.toUInt64 }) (d₁.table.insert (id, c.memory.length))).Perm
      (pointers (d₁.table.insert (id, c.memory.length))) := sortedIn_perm _ _ _
  have hmem : c.memory.length ∈ pointers (d₁.table.insert (id, c.memory.length)) :=
    List.mem_cons_self
  rw [hremoved.use (by simp)]
  generalize d₁.table.insert (id, c.memory.length) = table at hinserted hsorted hmem ⊢
  generalize r₁.objects.unrefAll (replaced d₁.table id) = objects at hinserted ⊢
  -- the references of the new array
  have harray := hinserted.refAll fun q hq => List.mem_append_left _ hq
  rw [harray.useAll fun q hq => List.mem_append_left _ hq]
  have hheld : (objects.refAll (pointers table)).Owned
      (pointers table ++ pointers table ++ d₁.categories ++ r₁.kept) := by
    simpa only [List.append_assoc] using harray
  have hmem' : c.memory.length ∈ pointers table ++ pointers table ++ d₁.categories ++ r₁.kept := by
    rw [List.append_assoc, List.append_assoc]
    exact List.mem_append_left _ hmem
  have hemitted := emit_owned (r := { r₁ with objects := objects.refAll (pointers table) }) keep
    hheld hmem'
  show (RefMemory.unrefAll _ _).Owned
    (pointers table ++ sortedIn order _ table ++ (CategoryRefs.emit _ keep _).kept)
  apply RefMemory.Owned.unrefAll
  refine hemitted.perm (List.perm_iff_count.mpr fun q => ?_)
  have hcount := hsorted.count_eq q
  simp only [List.count_append] at hcount ⊢
  omega

theorem categoryFlagsChanged_owned
    (h : r.objects.Owned (pointers c.table ++ c.categories ++ r.kept)) (flags : UInt32) :
    (r.categoryFlagsChanged keep c id).objects.Owned
      (pointers (c.categoryFlagsChanged id flags).table ++
        (c.categoryFlagsChanged id flags).categories ++
        (r.categoryFlagsChanged keep c id).kept) := by
  unfold categoryFlagsChanged DBusLogClient.categoryFlagsChanged
  cases hp : c.category id with
  | none => exact h
  | some p =>
    cases hindex : c.categoryIndex (some p) with
    | none => exact h
    | some index =>
      have hmem : p ∈ pointers c.table ++ c.categories ++ r.kept := by
        refine List.mem_append_left _ (List.mem_append_right _ ?_)
        exact (categories_perm hindex).mem_iff.mpr List.mem_cons_self
      dsimp only
      rw [h.use hmem]
      exact emit_owned keep h hmem

/-! ## Snapshots -/

/-- The table of an init context has a reference to each category that it still has. -/
theorem decodeCategories_owned {objects : RefMemory Unit}
    (entries : List ClientConnection.SnapshotEntry) (memory : List DBusLogCategory)
    (h : objects.Owned (pointers table ++ held))
    (hlength : objects.heap.length = memory.length) :
    (decodeCategories entries (objects, table)).2 =
        (DBusLogClient.decodeCategories entries (memory, table)).2 ∧
      (decodeCategories entries (objects, table)).1.Owned
        (pointers (DBusLogClient.decodeCategories entries (memory, table)).2 ++ held) ∧
      (decodeCategories entries (objects, table)).1.heap.length =
        (DBusLogClient.decodeCategories entries (memory, table)).1.length := by
  induction entries generalizing objects memory table with
  | nil => exact ⟨rfl, h, hlength⟩
  | cons entry entries ih =>
    have halloc := h.alloc ()
    have hentry := replace_owned entry.2.1 halloc
    rw [← halloc.use List.mem_cons_self] at hentry
    have hmore := ih (memory ++ [{ DBusLogCategory.new entry.1 entry.2.1 with
      flags := entry.2.2.1.toUInt64
      level := entry.2.2.2.toUInt32 }]) hentry (by simp [hlength])
    rw [hlength] at hmore
    unfold decodeCategories DBusLogClient.decodeCategories at hmore ⊢
    rw [List.foldl_cons, List.foldl_cons]
    dsimp only
    rw [hlength]
    exact hmore

/-- The table of the snapshot takes the place of both containers, or it is given up. -/
theorem getAllFinished_owned {c c₀ c' : ClientConnection} {order : HashOrder} {attempt : Nat}
    {entries : List ClientConnection.SnapshotEntry}
    (h : r.objects.Owned (pointers c.table ++ c.categories ++ r.kept))
    (hlength : r.objects.heap.length = c.memory.length)
    (hd : ClientConnection.Decoded c entries c₀)
    (htable : table = (DBusLogClient.decodeCategories entries (c.memory, .empty)).2)
    (hc' : c' = ClientConnection.arrayRemade order attempt c
      (c₀.initFree attempt (some table))) :
    (r.getAllFinished c attempt entries).objects.Owned (pointers c'.table ++ c'.categories ++
        (r.getAllFinished c attempt entries).kept) ∧
      (r.getAllFinished c attempt entries).objects.heap.length = c'.memory.length := by
  have hempty : r.objects.Owned
      (pointers .empty ++ (pointers c.table ++ c.categories ++ r.kept)) := h
  obtain ⟨hsame, howned, hmore⟩ := decodeCategories_owned entries c.memory hempty hlength
  rw [← htable] at hsame howned
  rw [← hd.memory] at hmore
  rw [hc']
  unfold getAllFinished initFree ClientConnection.arrayRemade
  dsimp only
  rw [hsame]
  obtain ⟨hcurrent, hmemory, htaken, _⟩ | ⟨hstale, hclient⟩ :=
    ClientConnection.initFree_containers c₀ attempt table
  · rw [if_pos (hd.init.symm.trans hcurrent), if_pos (hd.init.symm.trans hcurrent)]
    generalize (c₀.initFree attempt (some table)) = d at hmemory htaken ⊢
    generalize (decodeCategories entries (r.objects, .empty)).1 = objects at howned hmore ⊢
    -- the old array goes
    have hold : (objects.unrefAll c.categories).Owned
        (pointers table ++ (pointers c.table ++ r.kept)) := by
      refine (howned.perm (List.perm_iff_count.mpr fun q => ?_)).unrefAll
      simp only [List.count_append]
      omega
    have hnew := hold.refAll fun q hq => List.mem_append_left _ hq
    dsimp only
    rw [hnew.useAll fun q hq => List.mem_append_left _ hq]
    have hsorted : (sortedIn order d.memory d.table).Perm (pointers table) := by
      rw [← htaken]
      exact sortedIn_perm order d.memory d.table
    constructor
    · show (RefMemory.unrefAll _ _).Owned
        (pointers d.table ++ sortedIn order d.memory d.table ++ r.kept)
      rw [htaken]
      apply RefMemory.Owned.unrefAll
      refine hnew.perm (List.perm_iff_count.mpr fun q => ?_)
      have hcount := hsorted.count_eq q
      rw [htaken] at hcount
      simp only [List.count_append] at hcount ⊢
      omega
    · show (RefMemory.unrefAll _ _).heap.length = d.memory.length
      rw [hmemory, ← hmore]
      simp
  · rw [if_neg fun hcurrent => hstale (hd.init.trans hcurrent),
      if_neg fun hcurrent => hstale (hd.init.trans hcurrent), hclient, hd.table, hd.categories]
    exact ⟨howned.unrefAll, (RefMemory.length_unrefAll _).trans hmore⟩

theorem disconnect_containers (c : ClientConnection) (emitSignals : Bool) :
    (c.disconnect emitSignals).table = .empty ∧ (c.disconnect emitSignals).categories = [] ∧
      (c.disconnect emitSignals).memory = c.memory := by
  have hmemory := congrArg DBusLogClient.memory (c.stop_undisturbed emitSignals).client
  rw [← hmemory]
  unfold ClientConnection.disconnect
  generalize c.stop emitSignals = d
  dsimp only
  by_cases hproxy : d.proxy.isSome = true
  · rw [if_pos hproxy]
    split
    · cases emitSignals <;> exact ⟨rfl, rfl, rfl⟩
    · exact ⟨rfl, rfl, rfl⟩
  · rw [if_neg hproxy]
    split
    · cases emitSignals <;> exact ⟨rfl, rfl, rfl⟩
    · exact ⟨rfl, rfl, rfl⟩

/-- Both containers give up what they have. -/
theorem disconnect_owned {c : ClientConnection}
    (h : r.objects.Owned (pointers c.table ++ c.categories ++ r.kept)) :
    (r.disconnect c).objects.Owned r.kept := by
  unfold disconnect
  apply RefMemory.Owned.unrefAll
  apply RefMemory.Owned.unrefAll
  rw [← List.append_assoc]
  exact h

/-! ## Every event -/

theorem categoryRemove_memory_eq (c : DBusLogClient) (id : UInt32) :
    (c.categoryRemove id).2.memory = c.memory := by
  unfold DBusLogClient.categoryRemove
  split
  · rfl
  · rfl

theorem categoryFlagsChanged_memory (c : DBusLogClient) (id flags : UInt32) :
    (c.categoryFlagsChanged id flags).memory.length = c.memory.length := by
  unfold DBusLogClient.categoryFlagsChanged
  split
  · exact List.length_modify _ _ _
  · rfl

theorem length_categoryFlagsChanged :
    (r.categoryFlagsChanged keep c id).objects.heap.length = r.objects.heap.length := by
  unfold categoryFlagsChanged
  split
  · simp
  · rfl

theorem handle_owned (h : r.objects.Owned (pointers c.table ++ c.categories ++ r.kept))
    (hlength : r.objects.heap.length = c.memory.length) (keep : Nat → Bool)
    {c₀ c' : ClientConnection} {order : HashOrder} {signal : BusSignal}
    (hc : c₀.toDBusLogClient = c) (hs : c₀.stepIn order (.signal signal) = some c') :
    (r.touch keep c₀ (.signal signal)).objects.Owned (pointers c'.table ++ c'.categories ++
        (r.touch keep c₀ (.signal signal)).kept) ∧
      (r.touch keep c₀ (.signal signal)).objects.heap.length = c'.memory.length := by
  subst hc
  unfold touch
  dsimp only
  cases signal with
  | categoryAdded name id flags =>
    cases hs
    split
    · constructor
      · exact categoryAdded_owned h hlength order name flags
      · obtain ⟨_, _, hmemory⟩ := c₀.toDBusLogClient.categoryAdded_eq name id flags
        have hadded : (c₀.toDBusLogClient.categoryAddedIn order name id flags).memory =
            (c₀.toDBusLogClient.categoryAdded name id flags).memory := rfl
        show (r.categoryAdded keep c₀.toDBusLogClient name id).objects.heap.length =
          (c₀.toDBusLogClient.categoryAddedIn order name id flags).memory.length
        rw [hadded, hmemory, length_categoryAdded, hlength]
        simp
    · exact ⟨h, hlength⟩
  | categoryRemoved id =>
    cases hs
    unfold DBusLogClient.handle handle
    split
    · have hnone : r.objects.Owned
          ([] ++ pointers c₀.table ++ c₀.categories ++ r.kept) := h
      refine ⟨categoryRemove_owned keep id hnone, ?_⟩
      rw [length_categoryRemove, hlength]
      exact congrArg List.length (categoryRemove_memory_eq c₀.toDBusLogClient id).symm
    · exact ⟨h, hlength⟩
  | categoryFlagsChanged id flags =>
    cases hs
    unfold DBusLogClient.handle handle
    split
    · refine ⟨categoryFlagsChanged_owned h flags, ?_⟩
      rw [length_categoryFlagsChanged, hlength]
      exact (categoryFlagsChanged_memory c₀.toDBusLogClient id flags).symm
    · exact ⟨h, hlength⟩
  | _ =>
    cases hs
    unfold DBusLogClient.handle handle
    split
    · exact ⟨h, hlength⟩
    · exact ⟨h, hlength⟩

/-- An event changes the references as it changes the containers. -/
theorem touch_owned {c c' : ClientConnection} {order : HashOrder} {e : ClientEvent}
    (h : r.objects.Owned (pointers c.table ++ c.categories ++ r.kept))
    (hlength : r.objects.heap.length = c.memory.length) (keep : Nat → Bool)
    (hs : c.stepIn order e = some c') :
    (r.touch keep c e).objects.Owned (pointers c'.table ++ c'.categories ++
        (r.touch keep c e).kept) ∧
      (r.touch keep c e).objects.heap.length = c'.memory.length := by
  have hsame : c'.toDBusLogClient = c.toDBusLogClient →
      r.objects.Owned (pointers c'.table ++ c'.categories ++ r.kept) ∧
        r.objects.heap.length = c'.memory.length := by
    intro he
    rw [he]
    exact ⟨h, hlength⟩
  cases e with
  | signal signal => exact handle_owned h hlength keep rfl hs
  | nameAppeared =>
    cases hs
    exact hsame (ClientConnection.initCancel_client c c.init)
  | nameVanished =>
    cases hs
    have hclient : ({ c.initCancel c.init with init := none } : ClientConnection).toDBusLogClient =
      c.toDBusLogClient := ClientConnection.initCancel_client c c.init
    obtain ⟨htable, hcategories, hmemory⟩ :=
      disconnect_containers { c.initCancel c.init with init := none } true
    show (r.disconnect c).objects.Owned _ ∧ (r.disconnect c).objects.heap.length = _
    unfold ClientConnection.nameVanished
    rw [htable, hcategories, hmemory, hclient]
    refine ⟨disconnect_owned h, ?_⟩
    unfold disconnect
    simpa using hlength
  | proxyCreated attempt ok =>
    obtain ⟨_, hs⟩ := Option.ite_none_right_eq_some.mp hs
    cases hs
    exact hsame (ClientConnection.initProxyCreated_client c attempt ok)
  | gotInterfaceVersion attempt version =>
    obtain ⟨_, hs⟩ := Option.ite_none_right_eq_some.mp hs
    cases hs
    exact hsame (ClientConnection.initGetInterfaceVersionFinished_client c attempt version)
  | gotAll attempt result =>
    cases result with
    | none =>
      obtain ⟨_, hs⟩ := Option.ite_none_right_eq_some.mp hs
      cases hs
      exact hsame (ClientConnection.initFree_none_client c attempt)
    | some result =>
      obtain ⟨level, entries⟩ := result
      obtain ⟨after, hs, hc'⟩ := Option.map_eq_some_iff.mp hs
      obtain ⟨_, hs⟩ := Option.ite_none_right_eq_some.mp hs
      cases hs
      have hd : ClientConnection.Decoded c entries { c with
          memory := (DBusLogClient.decodeCategories entries (c.memory, .empty)).1
          defaultLevel := level.toUInt32 } := ⟨rfl, rfl, rfl, rfl, rfl⟩
      exact getAllFinished_owned h hlength hd rfl hc'.symm
  | gotAll2 attempt result =>
    cases result with
    | none =>
      obtain ⟨_, hs⟩ := Option.ite_none_right_eq_some.mp hs
      cases hs
      exact hsame (ClientConnection.initFree_none_client c attempt)
    | some result =>
      obtain ⟨level, entries, backlog⟩ := result
      obtain ⟨after, hs, hc'⟩ := Option.map_eq_some_iff.mp hs
      obtain ⟨_, hs⟩ := Option.ite_none_right_eq_some.mp hs
      cases hs
      have hd : ClientConnection.Decoded c entries { c with
          memory := (DBusLogClient.decodeCategories entries (c.memory, .empty)).1
          defaultLevel := level.toUInt32
          backlog := backlog } := ⟨rfl, rfl, rfl, rfl, rfl⟩
      exact getAllFinished_owned h hlength hd rfl hc'.symm
  | start =>
    cases hs
    exact hsame (ClientConnection.start_undisturbed c .application).client
  | cancel call =>
    obtain ⟨_, hs⟩ := Option.ite_none_right_eq_some.mp hs
    cases hs
    exact hsame rfl
  | logOpened call result =>
    obtain ⟨_, hs⟩ := Option.ite_none_right_eq_some.mp hs
    cases hs
    exact hsame (ClientConnection.startFinished_undisturbed c call result).client
  | receiverClosed =>
    obtain ⟨_, hs⟩ := Option.ite_none_right_eq_some.mp hs
    cases hs
    exact hsame (ClientConnection.stop_undisturbed c true).client

end CategoryRefs

namespace ClientCategories

open CategoryRefs (pointers touch_owned emit_owned length_emit disconnect_containers
  disconnect_owned)
open DBusLogClient (Agreeing)

variable {m m' : ClientCategories}

/-! ## Every step -/

/-- Two references of a client to each of its categories, and those of the application. -/
structure CategoryInv (m : ClientCategories) : Prop where
  agreeing : Agreeing m.connection.toDBusLogClient
  owned : m.refs.objects.Owned
    (pointers m.connection.table ++ m.connection.categories ++ m.refs.kept)
  length : m.refs.objects.heap.length = m.connection.memory.length
  finalized : m.finalized = true → m.connection.categories = []

theorem new_categoryInv (autostartFlag : Bool) : CategoryInv (new autostartFlag) where
  agreeing := ClientConnection.new_agreeing autostartFlag
  owned := RefMemory.owned_empty
  length := rfl
  finalized h := by cases h

/-- Step lemma. -/
theorem CategoryInv.step (h : CategoryInv m) {e : CategoryEvent} (hs : m.step e = some m') :
    CategoryInv m' := by
  cases e with
  | event order keep e =>
    obtain ⟨hgoing, hs⟩ := Option.ite_none_left_eq_some.mp hs
    obtain ⟨c', hc, rfl⟩ := Option.map_eq_some_iff.mp hs
    obtain ⟨howned, hlength⟩ := touch_owned h.owned h.length keep hc
    exact ⟨(ClientConnection.stepIn_agrees h.agreeing hc).1, howned, hlength,
      fun hfinal => absurd hfinal hgoing⟩
  | message keep msg =>
    obtain ⟨_, hs⟩ := Option.ite_none_right_eq_some.mp hs
    cases hp : (m.connection.receiverMessage msg).1 with
    | none =>
      rw [hp] at hs
      cases hs
      exact h
    | some p =>
      rw [hp] at hs
      cases hs
      -- the category is in the table
      have hlookup := (DBusLogClient.category_eq_some_iff.mp hp).2
      have hmem : p ∈ pointers m.connection.table :=
        List.mem_map.mpr ⟨_, KeyedTable.mem_of_lookup hlookup, rfl⟩
      refine ⟨h.agreeing, emit_owned keep h.owned ?_, ?_, h.finalized⟩
      · exact List.mem_append_left _ (List.mem_append_left _ hmem)
      · exact length_emit.trans h.length
  | ref p =>
    obtain ⟨hp, he⟩ := Option.ite_none_right_eq_some.mp hs
    cases he
    have hmem : p ∈ pointers m.connection.table ++ m.connection.categories ++ m.refs.kept := by
      rw [List.append_assoc]
      exact List.mem_append_right _ hp
    refine ⟨h.agreeing, (h.owned.ref hmem).perm List.perm_middle.symm, ?_, h.finalized⟩
    exact RefMemory.length_ref.trans h.length
  | unref p =>
    obtain ⟨hp, he⟩ := Option.ite_none_right_eq_some.mp hs
    cases he
    refine ⟨h.agreeing, ?_, RefMemory.length_unref.trans h.length, h.finalized⟩
    refine (h.owned.perm ?_).unref
    exact ((List.perm_cons_erase hp).append_left _).trans List.perm_middle
  | finalize =>
    obtain ⟨_, he⟩ := Option.ite_none_left_eq_some.mp hs
    cases he
    obtain ⟨htable, hcategories, hmemory⟩ := disconnect_containers m.connection false
    refine ⟨(ClientConnection.disconnect_agrees m.connection false).1, ?_, ?_,
      fun _ => hcategories⟩
    · dsimp only
      rw [htable, hcategories]
      exact disconnect_owned h.owned
    · dsimp only
      rw [hmemory, ← h.length]
      simp [CategoryRefs.disconnect]

/-- Run lemma. -/
theorem CategoryInv.run {autostartFlag : Bool} {events : List CategoryEvent}
    (hrun : Runs.run ClientCategories.step (new autostartFlag) events = some m) : CategoryInv m :=
  Runs.invariant_of_forall (C := fun _ => True) (fun _ _ _ h _ hs => h.step hs)
    (fun _ _ => trivial) hrun (new_categoryInv autostartFlag)

/-- Both containers have a category once, or neither has it. -/
theorem CategoryInv.count (h : CategoryInv m) (p : Nat) :
    (pointers m.connection.table ++ m.connection.categories ++ m.refs.kept).count p =
      (if p ∈ m.connection.categories then 2 else 0) + m.refs.kept.count p := by
  have hshown : p ∈ pointers m.connection.table ↔ p ∈ m.connection.categories := by
    rw [h.agreeing.shown]
    exact List.mem_map
  rw [List.count_append, List.count_append, h.agreeing.owned.pointers_nodup.count,
    h.agreeing.distinct.count]
  by_cases hp : p ∈ m.connection.categories
  · rw [if_pos (hshown.mpr hp), if_pos hp, if_pos hp]
  · rw [if_neg fun hmem => hp (hshown.mp hmem), if_neg hp, if_neg hp]

/-- The categories of a client are safe. In every run, whatever the server sends and whatever the
handlers keep, the client never touches a category that has been freed. A category is alive exactly
as long as it is in the public array or the application has a reference; the client itself has two
references to each category of the array, and none to any other one, so once the client has been
finalized, only what the application keeps is left. -/
theorem categoriesSafe (autostartFlag : Bool) (events : List CategoryEvent) (m : ClientCategories)
    (hrun : Runs.run step (new autostartFlag) events = some m) :
    m.refs.objects.faulted = false ∧
    (∀ p, m.refs.objects.alive p = true ↔ p ∈ m.connection.categories ∨ p ∈ m.refs.kept) ∧
    (∀ p cell, m.refs.objects.heap[p]? = some cell → cell.refCount =
      (if p ∈ m.connection.categories then 2 else 0) + m.refs.kept.count p) ∧
    (m.finalized = true → ∀ p, m.refs.objects.alive p = true ↔ p ∈ m.refs.kept) := by
  have h := CategoryInv.run hrun
  have halive : ∀ p, m.refs.objects.alive p = true ↔
      p ∈ m.connection.categories ∨ p ∈ m.refs.kept := by
    intro p
    rw [h.owned.alive_iff, List.mem_append, List.mem_append]
    have hshown : p ∈ pointers m.connection.table ↔ p ∈ m.connection.categories := by
      rw [h.agreeing.shown]
      exact List.mem_map
    rw [hshown, or_self]
  refine ⟨h.owned.clean, halive, fun p cell hcell => ?_, fun hfinal p => ?_⟩
  · rw [h.owned.counted.count p cell hcell, h.count p]
  · rw [halive, h.finalized hfinal]
    simp

/-- A snapshot that repeats an id; a new category takes the id of another one, which a handler
keeps; a category without an id is replaced; and the client is finalized. -/
def keptCategory : List CategoryEvent :=
  let none := fun _ => false
  [.event .asStored none .nameAppeared, .event .asStored none (.proxyCreated 0 true),
    .event .asStored none (.gotInterfaceVersion 0 (some 2)),
    .event .asStored none (.gotAll2 0 (some (6, [("net", 1, 0, 0), ("usb", 2, 0, 0),
      ("app", 1, 0, 0), ("any", 0, 0, 0)], 100))),
    .event .asStored (· = 2) (.signal (.categoryAdded "new" 1 0)),
    .event .asStored none (.signal (.categoryAdded "all" 0 0)), .ref 1, .finalize, .unref 1]

theorem categoriesSafe_keptCategory : ∃ m, Runs.run step (new false) keptCategory = some m ∧
    m.refs.objects.faulted = false ∧ m.refs.objects.alive 2 = true ∧
    m.refs.objects.alive 1 = false := by
  obtain ⟨m, hm, he⟩ := Option.map_eq_some_iff.mp (by decide +kernel :
    (Runs.run step (new false) keptCategory).map (fun m => (m.refs.kept, m.finalized)) =
      some ([2], true))
  obtain ⟨hkept, hfinal⟩ := Prod.mk.inj he
  obtain ⟨hclean, _, _, hleft⟩ := categoriesSafe false keptCategory m hm
  refine ⟨m, hm, hclean, (hleft hfinal 2).mpr (by simp [hkept]), ?_⟩
  refine Bool.eq_false_of_not_eq_true fun halive => ?_
  have hmem := (hleft hfinal 1).mp halive
  simp [hkept] at hmem

end ClientCategories

end DBusLog

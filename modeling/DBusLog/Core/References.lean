import DBusLog.Lib.RefArrays
import DBusLog.Core.System

/-!
# The category objects of a core

The core keeps its categories as reference-counted objects (`dbuslog_category.c`) in a hash table,
hands them out in arrays that its idle pool owns, and emits a signal when a category is added,
removed or changed. Handlers may call any function of the core, so its functions are nested: a frame
stands for one whose handlers are running, with the references that it has meanwhile.

All of this is safe but for one thing. `dbus_log_core_new_category` takes its caller's reference
when the handlers for CATEGORY_ADDED have returned, and so relies on them to leave the category
alive.
-/

namespace DBusLog

/-- A function of a core whose handlers are running. -/
inductive CategoryFrame
  /-- `dbus_log_core_new_category` -/
  | added (p : Nat)
  /-- `dbus_log_core_remove_category` -/
  | removed (p : Nat)
  /-- `dbus_log_core_remove_all_categories`, with its array and the elements after this one -/
  | removedAll (array p : Nat) (rest : List Nat)
  /-- `dbus_log_core_set_category_enabled` or `dbus_log_core_set_category_level` -/
  | changed (p : Nat)
  deriving DecidableEq

namespace CategoryFrame

/-- The references to categories that it has. -/
def held : CategoryFrame → List Nat
  | .added p => [p]
  | .removed p => [p, p]
  | .removedAll _ p _ => [p]
  | .changed p => [p]

/-- The references to arrays that it has. -/
def heldArrays : CategoryFrame → List Nat
  | .removedAll array _ _ => [array]
  | _ => []

end CategoryFrame

/-- What `dbus_log_core_new_category` makes. -/
def DBusLogCategory.create (name : String) (cid : UInt32) (level : Level) (flags : UInt64) :
    DBusLogCategory :=
  let cat := DBusLogCategory.new name cid
  let cat := if level ≥ Level.undefined ∧ level < Level.count then { cat with level := level }
    else cat
  let cat := { cat with flags := flags &&& CategoryFlag.mask }
  if flags &&& CategoryFlag.enabled ≠ 0 then
    { cat with flags := cat.flags ||| CategoryFlag.enabledByDefault }
  else cat

/-- The category objects of a core, the arrays of them, and who has references to them. -/
structure CoreCategories extends RefArrays DBusLogCategory where
  categories : KeyedTable (Prod.fst : String × Nat → String)
  lastCid : UInt32
  /-- The arrays in the idle pool. -/
  pool : List Nat
  /-- The references that the callers have. -/
  kept : List Nat
  keptArrays : List Nat
  /-- The functions whose handlers are running, the innermost one first. -/
  frames : List CategoryFrame
  signals : List CoreSignal
  /-- Somebody is connected to the signal for a removed category. -/
  removedHandlers : Bool
  disposed : Bool
  deriving DecidableEq

/-- What callers, handlers and the main loop do. -/
inductive CategoryCall
  | newCategory (name : String) (level : Level) (flags : UInt64)
  | removeCategory (name : String)
  | removeAllCategories
  | setCategoryEnabled (name : String) (enable : Bool)
  | setCategoryLevel (name : String) (level : Level)
  /-- `matching` is what the pattern means. -/
  | findCategories (matching : String → Bool)
  /-- A message, when somebody is listening. -/
  | log (cname : String)
  | handlersReturn
  | drainPool
  | ref (p : Nat)
  | unref (p : Nat)
  | refArray (a : Nat)
  | unrefArray (a : Nat)
  | dispose

namespace CoreCategories

/-- `dbus_log_core_new` -/
def new (removedHandlers : Bool) : CoreCategories where
  toRefArrays := .empty
  categories := .empty
  lastCid := 0
  pool := []
  kept := []
  keptArrays := []
  frames := []
  signals := []
  removedHandlers := removedHandlers
  disposed := false

/-- The pointers in the hash table. -/
def pointers (c : CoreCategories) : List Nat := c.categories.values.map Prod.snd

/-- `dbus_log_core_emit_signal` up to the handlers -/
def emit (c : CoreCategories) (frame : CategoryFrame) (p : Nat)
    (signal : DBusLogCategory → CoreSignal) : CoreCategories :=
  { c with
    objects := (c.objects.ref p).use p
    frames := frame :: c.frames
    signals := c.signals ++ ((c.objects.read p).map signal).toList }

/-- `dbus_log_core_new_category` -/
def newCategory (c : CoreCategories) (name : String) (level : Level) (flags : UInt64) :
    CoreCategories :=
  match c.categories.lookup name with
  | some (_, p) => { c with objects := c.objects.ref p, kept := p :: c.kept }
  | none =>
    -- 0 is not an id
    let cid := if c.lastCid + 1 = 0 then c.lastCid + 1 + 1 else c.lastCid + 1
    let p := c.objects.heap.length
    { c with
      lastCid := cid
      objects := c.objects.alloc (.create name cid level flags)
      categories := c.categories.insert (name, p) }.emit (.added p) p .categoryAdded

/-- `dbus_log_core_remove_category` -/
def removeCategory (c : CoreCategories) (name : String) : CoreCategories :=
  match c.categories.lookup name with
  | some (_, p) =>
    { c with
      objects := (c.objects.ref p).unref p
      categories := c.categories.erase name }.emit (.removed p) p .categoryRemoved
  | none => c

/-- The values of the table with a matching name, by name. -/
def matched (c : CoreCategories) (matching : String → Bool) : List Nat :=
  ((c.categories.values.filter fun e => matching e.1).insertionSort
    fun e e' => e.1 ≤ e'.1).map Prod.snd

/-- `dbus_log_core_find_categories` and `dbus_log_core_get_categories` -/
def findCategories (c : CoreCategories) (matching : String → Bool) : CoreCategories :=
  -- the names are looked at
  let m := { c.toRefArrays with objects := c.objects.useAll c.pointers }
  { c with
    toRefArrays := m.newArray (c.matched matching)
    pool := c.arrays.heap.length :: c.pool }

/-- `g_hash_table_remove_all` -/
def clear (c : CoreCategories) : CoreCategories :=
  { c with objects := c.objects.unrefAll c.pointers, categories := .empty }

/-- The loop of `dbus_log_core_remove_all_categories` goes on. -/
def removeNext (c : CoreCategories) (array : Nat) (cats : List Nat) : CoreCategories :=
  let c := { c with arrays := c.arrays.use array }
  match cats with
  | [] => { c with toRefArrays := c.toRefArrays.unrefArray array }
  | p :: rest => c.emit (.removedAll array p rest) p .categoryRemoved

/-- `dbus_log_core_remove_all_categories` -/
def removeAllCategories (c : CoreCategories) : CoreCategories :=
  if c.categories.values.length > 0 then
    if c.removedHandlers then
      let array := c.arrays.heap.length
      let cats := c.matched fun _ => true
      let c := c.findCategories fun _ => true
      let c := { c with toRefArrays := c.toRefArrays.refArray array }
      c.clear.removeNext array cats
    else c.clear
  else c

/-- `dbus_log_core_set_category_enabled` -/
def setCategoryEnabled (c : CoreCategories) (name : String) (enable : Bool) : CoreCategories :=
  match c.categories.lookup name with
  | some (_, p) =>
    match c.objects.read p with
    | some cat =>
      if cat.enabled ∧ ¬enable then
        { c with objects := c.objects.write p fun cat =>
          { cat with flags := cat.flags &&& ~~~CategoryFlag.enabled } }.emit (.changed p) p
            (.categoryFlags · CategoryFlag.enabled)
      else if ¬cat.enabled ∧ enable then
        { c with objects := c.objects.write p fun cat =>
          { cat with flags := cat.flags ||| CategoryFlag.enabled } }.emit (.changed p) p
            (.categoryFlags · CategoryFlag.enabled)
      else { c with objects := c.objects.use p }
    | none => c
  | none => c

/-- `dbus_log_core_set_category_level` -/
def setCategoryLevel (c : CoreCategories) (name : String) (level : Level) : CoreCategories :=
  if level ≥ Level.undefined ∧ level < Level.count then
    match c.categories.lookup name with
    | some (_, p) =>
      match c.objects.read p with
      | some cat =>
        if cat.level ≠ level then
          { c with objects := c.objects.write p fun cat => { cat with level := level } }.emit
            (.changed p) p .categoryLevel
        else { c with objects := c.objects.use p }
      | none => c
    | none => c
  else c

/-- `dbus_log_core_should_log` and `dbus_log_core_send`, as far as they look at a category -/
def log (c : CoreCategories) (cname : String) : CoreCategories :=
  match c.categories.lookup cname with
  | some (_, p) => { c with objects := c.objects.use p }
  | none => c

/-- The handlers have returned, and the function goes on. -/
def goOn (c : CoreCategories) : CategoryFrame → CoreCategories
  -- the reference is for the caller
  | .added p => { c with objects := (c.objects.unref p).ref p, kept := p :: c.kept }
  | .removed p => { c with objects := (c.objects.unref p).unref p }
  | .removedAll array p rest => { c with objects := c.objects.unref p }.removeNext array rest
  | .changed p => { c with objects := c.objects.unref p }

/-- `gutil_idle_pool_drain` -/
def drainPool (c : CoreCategories) : CoreCategories :=
  { c with toRefArrays := c.toRefArrays.unrefArrays c.pool, pool := [] }

/-- `dbus_log_core_dispose` and `dbus_log_core_finalize` -/
def dispose (c : CoreCategories) : CoreCategories :=
  { c.clear.drainPool with disposed := true }

/-- The references to categories that somebody has, except for those of the arrays. -/
def owners (c : CoreCategories) : List Nat :=
  c.pointers ++ c.frames.flatMap CategoryFrame.held ++ c.kept

/-- All references to categories. -/
def holders (c : CoreCategories) : List Nat := RefArrays.elements c.arrays.heap ++ c.owners

/-- All references to arrays. -/
def arrayOwners (c : CoreCategories) : List Nat :=
  c.pool ++ c.frames.flatMap CategoryFrame.heldArrays ++ c.keptArrays

/-- A call on a core that is there. -/
def whenThere (c c' : CoreCategories) : Option CoreCategories :=
  if c.disposed then none else some c'

/-- A step; `none` when it is not enabled. Callers take references to what they can see, and have a
reference to the core as long as a function of it is running. -/
def step (c : CoreCategories) : CategoryCall → Option CoreCategories
  | .newCategory name level flags => c.whenThere (c.newCategory name level flags)
  | .removeCategory name => c.whenThere (c.removeCategory name)
  | .removeAllCategories => c.whenThere c.removeAllCategories
  | .setCategoryEnabled name enable => c.whenThere (c.setCategoryEnabled name enable)
  | .setCategoryLevel name level => c.whenThere (c.setCategoryLevel name level)
  | .findCategories matching => c.whenThere (c.findCategories matching)
  | .log cname => c.whenThere (c.log cname)
  | .handlersReturn =>
    match c.frames with
    | [] => none
    | frame :: frames => some ({ c with frames := frames }.goOn frame)
  | .drainPool => c.whenThere c.drainPool
  | .ref p =>
    if p ∈ c.holders then some { c with objects := c.objects.ref p, kept := p :: c.kept } else none
  | .unref p =>
    if p ∈ c.kept then some { c with objects := c.objects.unref p, kept := c.kept.erase p }
    else none
  | .refArray a =>
    if a ∈ c.arrayOwners then
      some { c with toRefArrays := c.toRefArrays.refArray a, keptArrays := a :: c.keptArrays }
    else none
  | .unrefArray a =>
    if a ∈ c.keptArrays then
      some { c with toRefArrays := c.toRefArrays.unrefArray a, keptArrays := c.keptArrays.erase a }
    else none
  | .dispose => if c.frames = [] ∧ c.disposed = false then some c.dispose else none

/-! ## The frames -/

/-- What the loops of `dbus_log_core_remove_all_categories` have still to report is in their
arrays. -/
def Looping (c : CoreCategories) : Prop :=
  ∀ array p rest, .removedAll array p rest ∈ c.frames →
    ∃ items, c.arrays.read array = some items ∧ ∀ q ∈ rest, q ∈ items

/-- Whoever has a reference is known. -/
structure Accounted (c : CoreCategories) : Prop where
  owned : c.toRefArrays.Owned c.owners c.arrayOwners
  looping : Looping c

/-- A core that has been disposed of has no references. -/
structure ObjectInv (c : CoreCategories) : Prop extends Accounted c where
  disposed : c.disposed = true → c.categories.values = [] ∧ c.frames = [] ∧ c.pool = []

/-- The handlers for CATEGORY_ADDED have left the category alive when they return. -/
def Retained (c : CoreCategories) : CategoryCall → Prop
  | .handlersReturn =>
    match c.frames with
    | .added p :: frames => p ∈ { c with frames := frames }.holders
    | _ => True
  | _ => True

instance (c : CoreCategories) (call : CategoryCall) : Decidable (Retained c call) := by
  unfold Retained
  split
  · split <;> infer_instance
  · infer_instance

section Steps

variable {c c' c'' : CoreCategories} {frame : CategoryFrame} {signal : DBusLogCategory → CoreSignal}
  {p array : Nat} {cats : List Nat} {name : String}

theorem Looping.of (h : Looping c)
    (hread : ∀ a items, c.arrays.read a = some items → c'.arrays.read a = some items)
    (hframes : ∀ frame ∈ c'.frames, frame ∈ c.frames ∨ frame.heldArrays = []) : Looping c' := by
  intro array p rest hmem
  obtain hold | hnone := hframes _ hmem
  · obtain ⟨items, hitems, hrest⟩ := h array p rest hold
    exact ⟨items, hread array items hitems, hrest⟩
  · cases hnone

theorem Looping.same (h : Looping c) (harrays : c'.arrays = c.arrays)
    (hframes : ∀ frame ∈ c'.frames, frame ∈ c.frames ∨ frame.heldArrays = []) : Looping c' :=
  h.of (fun a items hitems => by rw [harrays]; exact hitems) hframes

/-- Handlers get a category that is alive, and the frame has a reference to it. -/
theorem emit_owned (more : List Nat) (hheld : frame.held = p :: more)
    (h : c.toRefArrays.Owned (more ++ c.owners) (frame.heldArrays ++ c.arrayOwners))
    (hp : p ∈ RefArrays.elements c.arrays.heap ++ (more ++ c.owners)) :
    (c.emit frame p signal).toRefArrays.Owned (c.emit frame p signal).owners
      (c.emit frame p signal).arrayOwners := by
  have href := h.ref hp
  have huse : (c.objects.ref p).use p = c.objects.ref p := by
    apply href.objects.use
    simp
  unfold emit
  dsimp only
  rw [huse]
  refine href.perm (List.perm_iff_count.mpr fun q => ?_) (List.perm_iff_count.mpr fun q => ?_)
  · show _ = (c.pointers ++ (frame :: c.frames).flatMap CategoryFrame.held ++ c.kept).count q
    simp only [owners, List.flatMap_cons, List.count_append, List.count_cons, hheld]
    omega
  · show _ = (c.pool ++ (frame :: c.frames).flatMap CategoryFrame.heldArrays ++
      c.keptArrays).count q
    simp only [arrayOwners, List.flatMap_cons, List.count_append]
    omega

theorem emit_frames (hnone : frame.heldArrays = []) (hlooping : Looping c) :
    Looping (c.emit frame p signal) :=
  hlooping.same rfl fun frame' hframe' => by
    obtain rfl | hold := List.mem_cons.mp hframe'
    · exact .inr hnone
    · exact .inl hold

/-- The loop reports the next category, or gives up its array. -/
theorem removeNext_owned (h : c.toRefArrays.Owned c.owners (array :: c.arrayOwners))
    {items : List Nat} (hread : c.arrays.read array = some items) (hcats : ∀ q ∈ cats, q ∈ items) :
    (c.removeNext array cats).toRefArrays.Owned (c.removeNext array cats).owners
      (c.removeNext array cats).arrayOwners := by
  have huse : c.arrays.use array = c.arrays := h.arrays.use List.mem_cons_self
  unfold removeNext
  dsimp only
  rw [huse]
  cases cats with
  | nil => exact h.unrefArray
  | cons q rest =>
    refine emit_owned [] rfl h ?_
    exact List.mem_append_left _ (h.mem_elements List.mem_cons_self hread
      (hcats q List.mem_cons_self))

theorem removeNext_looping (h : Looping c) {items : List Nat}
    (hread : c.arrays.read array = some items) (hcats : ∀ q ∈ cats, q ∈ items) :
    Looping (c.removeNext array cats) := by
  unfold removeNext
  cases cats with
  | nil =>
    refine h.of (fun a items hitems => ?_) fun frame hframe => .inl hframe
    show ((c.arrays.use array).unref array).read a = some items
    rw [RefMemory.read_unref, RefMemory.read_use]
    exact hitems
  | cons q rest =>
    intro array' p' rest' hmem
    obtain he | hold := List.mem_cons.mp hmem
    · cases he
      exact ⟨items, hread, fun q' hq' => hcats q' (List.mem_cons_of_mem q hq')⟩
    · exact h array' p' rest' hold

/-! ## The functions -/

theorem mem_pointers {e : String × Nat} (h : c.categories.lookup name = some e) :
    e.2 ∈ c.pointers :=
  List.mem_map.mpr ⟨e, KeyedTable.mem_of_lookup h, rfl⟩

theorem Accounted.mem_holders {e : String × Nat} (h : c.categories.lookup name = some e) :
    e.2 ∈ c.holders :=
  List.mem_append_right _ (List.mem_append_left _ (List.mem_append_left _ (mem_pointers h)))

/-- A caller takes a reference to what somebody has. -/
theorem Accounted.take (h : Accounted c) (hp : p ∈ c.holders) :
    Accounted { c with objects := c.objects.ref p, kept := p :: c.kept } where
  owned := (h.owned.ref hp).perm List.perm_middle.symm (.refl _)
  looping := h.looping.same rfl fun _ => .inl

/-- A caller gives up a reference. -/
theorem Accounted.release (h : Accounted c) (hp : p ∈ c.kept) :
    Accounted { c with objects := c.objects.unref p, kept := c.kept.erase p } where
  owned := by
    refine (h.owned.perm ?_ (.refl _)).unref
    exact ((List.perm_cons_erase hp).append_left _).trans List.perm_middle
  looping := h.looping.same rfl fun _ => .inl

theorem Accounted.newCategory (h : Accounted c) (name : String) (level : Level) (flags : UInt64) :
    Accounted (c.newCategory name level flags) := by
  unfold CoreCategories.newCategory
  cases hlookup : c.categories.lookup name with
  | some e => exact h.take (Accounted.mem_holders hlookup)
  | none =>
    have hsame : (c.categories.erase name).values = c.categories.values :=
      KeyedTable.values_erase_of_lookup hlookup
    refine ⟨emit_owned [] rfl ?_ ?_, emit_frames rfl (h.looping.same rfl fun _ => .inl)⟩
    · -- the table has the new category
      refine (h.owned.alloc _).perm ?_ (.refl _)
      show List.Perm _ ((c.categories.insert (name, c.objects.heap.length)).values.map Prod.snd ++
        c.frames.flatMap CategoryFrame.held ++ c.kept)
      simp [KeyedTable.insert, hsame, owners, pointers]
    · refine List.mem_append_right _ (List.mem_append_right _ ?_)
      exact List.mem_append_left _ (List.mem_append_left _ List.mem_cons_self)

theorem Accounted.removeCategory (h : Accounted c) (name : String) :
    Accounted (c.removeCategory name) := by
  unfold CoreCategories.removeCategory
  cases hlookup : c.categories.lookup name with
  | none => exact h
  | some e =>
    have hpointers : c.pointers.Perm (e.2 :: (c.categories.erase name).values.map Prod.snd) :=
      (KeyedTable.perm_cons_erase hlookup).map Prod.snd
    have href := h.owned.ref (Accounted.mem_holders hlookup)
    have hunref : RefArrays.Owned { c.toRefArrays with
        objects := (c.objects.ref e.2).unref e.2 }
        (e.2 :: ((c.categories.erase name).values.map Prod.snd ++
          c.frames.flatMap CategoryFrame.held ++ c.kept)) c.arrayOwners := by
      refine (href.perm (List.perm_iff_count.mpr fun q => ?_) (.refl _)).unref
      have hcount := hpointers.count_eq q
      simp only [owners, List.count_append, List.count_cons] at hcount ⊢
      omega
    refine ⟨emit_owned [e.2] rfl hunref ?_, emit_frames rfl (h.looping.same rfl fun _ => .inl)⟩
    exact List.mem_append_right _ (List.mem_append_left _ List.mem_cons_self)

theorem clear_owned {arrayOwners : List Nat} (h : c.toRefArrays.Owned c.owners arrayOwners) :
    c.clear.toRefArrays.Owned c.clear.owners arrayOwners := by
  apply RefArrays.Owned.unrefAll
  show c.toRefArrays.Owned (c.pointers ++ ([] ++ c.frames.flatMap CategoryFrame.held ++ c.kept)) _
  rw [List.nil_append, ← List.append_assoc]
  exact h

theorem Accounted.clear (h : Accounted c) : Accounted c.clear :=
  ⟨clear_owned h.owned, h.looping.same rfl fun _ => .inl⟩

theorem mem_matched {matching : String → Bool} (hp : p ∈ c.matched matching) : p ∈ c.pointers := by
  obtain ⟨e, he, rfl⟩ := List.mem_map.mp hp
  have hmem := (List.mem_insertionSort _).mp he
  exact List.mem_map.mpr ⟨e, (List.mem_filter.mp hmem).1, rfl⟩

theorem Accounted.findCategories (h : Accounted c) (matching : String → Bool) :
    Accounted (c.findCategories matching) := by
  have hmem : ∀ q ∈ c.pointers, q ∈ c.holders := fun q hq =>
    List.mem_append_right _ (List.mem_append_left _ (List.mem_append_left _ hq))
  unfold CoreCategories.findCategories
  rw [h.owned.objects.useAll hmem]
  refine ⟨h.owned.newArray fun q hq => hmem q (mem_matched hq), ?_⟩
  exact h.looping.of (fun a items hitems => RefHeap.read_alloc_of_some hitems _) fun _ => .inl

theorem Accounted.removeAllCategories (h : Accounted c) : Accounted c.removeAllCategories := by
  unfold CoreCategories.removeAllCategories
  split
  · split
    · have hfound := h.findCategories fun _ => true
      have hread : (c.findCategories fun _ => true).arrays.read c.arrays.heap.length =
          some (c.matched fun _ => true) := RefMemory.read_alloc_self _
      have hmem : c.arrays.heap.length ∈ (c.findCategories fun _ => true).arrayOwners :=
        List.mem_append_left _ (List.mem_append_left _ List.mem_cons_self)
      generalize c.findCategories (fun _ => true) = found at hfound hread hmem
      -- the reference to the array that the loop has
      have hcleared := clear_owned (c := { found with
        toRefArrays := found.toRefArrays.refArray c.arrays.heap.length })
        (hfound.owned.refArray hmem)
      have hlooping : Looping { found with
          toRefArrays := found.toRefArrays.refArray c.arrays.heap.length } :=
        hfound.looping.of (fun a items hitems => (RefMemory.read_ref a).trans hitems) fun _ => .inl
      have hread' : (found.arrays.ref c.arrays.heap.length).read c.arrays.heap.length =
          some (c.matched fun _ => true) := (RefMemory.read_ref _).trans hread
      exact ⟨removeNext_owned hcleared hread' fun _ => id,
        removeNext_looping (hlooping.same rfl fun _ => .inl) hread' fun _ => id⟩
    · exact h.clear
  · exact h

theorem Accounted.write (h : Accounted c) {e : String × Nat}
    (hlookup : c.categories.lookup name = some e) (f : DBusLogCategory → DBusLogCategory) :
    Accounted ({ c with objects := c.objects.write e.2 f }.emit (.changed e.2) e.2 signal) := by
  have hmem := Accounted.mem_holders hlookup
  have hwritten := h.owned.write hmem f
  have hlooping : Looping { c with objects := c.objects.write e.2 f } :=
    h.looping.same rfl fun _ => .inl
  exact ⟨emit_owned [] rfl hwritten hmem, emit_frames rfl hlooping⟩

/-- Whoever has a reference may look at a category. -/
theorem Accounted.use (h : Accounted c) (hp : p ∈ c.holders) :
    Accounted { c with objects := c.objects.use p } := by
  rw [h.owned.objects.use hp]
  exact h

theorem Accounted.setCategoryEnabled (h : Accounted c) (name : String) (enable : Bool) :
    Accounted (c.setCategoryEnabled name enable) := by
  unfold CoreCategories.setCategoryEnabled
  cases hlookup : c.categories.lookup name with
  | none => exact h
  | some e =>
    dsimp only
    split
    · split
      · exact h.write hlookup _
      · split
        · exact h.write hlookup _
        · exact h.use (Accounted.mem_holders hlookup)
    · exact h

theorem Accounted.setCategoryLevel (h : Accounted c) (name : String) (level : Level) :
    Accounted (c.setCategoryLevel name level) := by
  unfold CoreCategories.setCategoryLevel
  split
  · cases hlookup : c.categories.lookup name with
    | none => exact h
    | some e =>
      dsimp only
      split
      · split
        · exact h.write hlookup _
        · exact h.use (Accounted.mem_holders hlookup)
      · exact h
  · exact h

theorem Accounted.log (h : Accounted c) (cname : String) : Accounted (c.log cname) := by
  unfold CoreCategories.log
  cases hlookup : c.categories.lookup cname with
  | none => exact h
  | some e => exact h.use (Accounted.mem_holders hlookup)

theorem Accounted.drainPool (h : Accounted c) : Accounted c.drainPool := by
  refine ⟨RefArrays.Owned.unrefArrays ?_, ?_⟩
  · show c.toRefArrays.Owned c.owners (c.pool ++
      ([] ++ c.frames.flatMap CategoryFrame.heldArrays ++ c.keptArrays))
    rw [List.nil_append, ← List.append_assoc]
    exact h.owned
  · refine h.looping.of (fun a items hitems => ?_) fun _ => .inl
    exact (RefArrays.read_unrefArrays c.pool a).trans hitems

/-- The handlers return, and the references of the frame are those of the function again. -/
theorem Accounted.goOn {frames : List CategoryFrame} (h : Accounted c)
    (hframes : c.frames = frame :: frames) (hretained : Retained c .handlersReturn) :
    Accounted ({ c with frames := frames }.goOn frame) := by
  unfold Retained at hretained
  rw [hframes] at hretained
  have howned : c.toRefArrays.Owned (frame.held ++ { c with frames := frames }.owners)
      (frame.heldArrays ++ { c with frames := frames }.arrayOwners) := by
    refine h.owned.perm (List.perm_iff_count.mpr fun q => ?_) (List.perm_iff_count.mpr fun q => ?_)
    · simp only [owners, pointers, hframes, List.flatMap_cons, List.count_append]
      omega
    · simp only [arrayOwners, hframes, List.flatMap_cons, List.count_append]
      omega
  have hlooping : ∀ array p rest, .removedAll array p rest ∈ frame :: frames →
      ∃ items, c.arrays.read array = some items ∧ ∀ q ∈ rest, q ∈ items := by
    rw [← hframes]
    exact h.looping
  have hrest : Looping { c with frames := frames } := fun array p rest hmem =>
    hlooping array p rest (List.mem_cons_of_mem frame hmem)
  unfold CoreCategories.goOn
  cases frame with
  | added p =>
    -- somebody else has the category when the caller's reference is taken
    have hunref : Accounted { c with objects := c.objects.unref p, frames := frames } :=
      ⟨howned.unref, hrest.same rfl fun _ => .inl⟩
    exact hunref.take hretained
  | removed p => exact ⟨howned.unref.unref, hrest.same rfl fun _ => .inl⟩
  | removedAll array p rest =>
    obtain ⟨items, hread, hitems⟩ := hlooping array p rest List.mem_cons_self
    have hunref : Looping { c with objects := c.objects.unref p, frames := frames } :=
      hrest.same rfl fun _ => .inl
    exact ⟨removeNext_owned howned.unref hread hitems, removeNext_looping hunref hread hitems⟩
  | changed p => exact ⟨howned.unref, hrest.same rfl fun _ => .inl⟩

/-! ## Every step -/

theorem new_objectInv (removedHandlers : Bool) : ObjectInv (new removedHandlers) where
  owned := RefArrays.owned_empty
  looping _ _ _ hmem := by cases hmem
  disposed h := by cases h

theorem whenThere_iff : c.whenThere c' = some c'' ↔ c.disposed = false ∧ c' = c'' := by
  unfold whenThere
  cases c.disposed <;> simp

theorem handlersReturn_iff : c.step .handlersReturn = some c' ↔
    ∃ frame frames, c.frames = frame :: frames ∧ { c with frames := frames }.goOn frame = c' := by
  unfold step
  cases c.frames with
  | nil => simp
  | cons frame frames => simp

/-- Step lemma for the references. -/
theorem Accounted.step (h : Accounted c) {call : CategoryCall} (hretained : Retained c call)
    (hs : c.step call = some c') : Accounted c' := by
  cases call with
  | newCategory name level flags =>
    obtain ⟨_, rfl⟩ := whenThere_iff.mp hs
    exact h.newCategory name level flags
  | removeCategory name =>
    obtain ⟨_, rfl⟩ := whenThere_iff.mp hs
    exact h.removeCategory name
  | removeAllCategories =>
    obtain ⟨_, rfl⟩ := whenThere_iff.mp hs
    exact h.removeAllCategories
  | setCategoryEnabled name enable =>
    obtain ⟨_, rfl⟩ := whenThere_iff.mp hs
    exact h.setCategoryEnabled name enable
  | setCategoryLevel name level =>
    obtain ⟨_, rfl⟩ := whenThere_iff.mp hs
    exact h.setCategoryLevel name level
  | findCategories matching =>
    obtain ⟨_, rfl⟩ := whenThere_iff.mp hs
    exact h.findCategories matching
  | log cname =>
    obtain ⟨_, rfl⟩ := whenThere_iff.mp hs
    exact h.log cname
  | handlersReturn =>
    obtain ⟨frame, frames, hframes, rfl⟩ := handlersReturn_iff.mp hs
    exact h.goOn hframes hretained
  | drainPool =>
    obtain ⟨_, rfl⟩ := whenThere_iff.mp hs
    exact h.drainPool
  | ref p =>
    obtain ⟨hp, he⟩ := Option.ite_none_right_eq_some.mp hs
    cases he
    exact h.take hp
  | unref p =>
    obtain ⟨hp, he⟩ := Option.ite_none_right_eq_some.mp hs
    cases he
    exact h.release hp
  | refArray a =>
    obtain ⟨ha, he⟩ := Option.ite_none_right_eq_some.mp hs
    cases he
    refine ⟨(h.owned.refArray ha).perm (.refl _) List.perm_middle.symm, ?_⟩
    exact h.looping.of (fun b items hitems => (RefMemory.read_ref b).trans hitems) fun _ => .inl
  | unrefArray a =>
    obtain ⟨ha, he⟩ := Option.ite_none_right_eq_some.mp hs
    cases he
    refine ⟨(h.owned.perm (.refl _) ?_).unrefArray, ?_⟩
    · exact ((List.perm_cons_erase ha).append_left _).trans List.perm_middle
    · exact h.looping.of (fun b items hitems => (RefArrays.read_unrefArray b).trans hitems)
        fun _ => .inl
  | dispose =>
    obtain ⟨_, he⟩ := Option.ite_none_right_eq_some.mp hs
    cases he
    exact ⟨h.clear.drainPool.owned, h.clear.drainPool.looping.same rfl fun _ => .inl⟩

/-! ## Misuse is never forgotten -/

/-- A function leaves the core and what is in its arrays there, and a memory that has been misused
stays so. -/
structure Follows (c c' : CoreCategories) : Prop where
  disposed : c'.disposed = c.disposed
  faulted : c.faulted = true → c'.faulted = true
  read : ∀ a items, c.arrays.read a = some items → c'.arrays.read a = some items
  length : c.objects.heap.length ≤ c'.objects.heap.length

theorem Follows.refl (c : CoreCategories) : Follows c c := ⟨rfl, id, fun _ _ => id, Nat.le_refl _⟩

theorem Follows.trans (h : Follows c c') (h' : Follows c' c'') : Follows c c'' where
  disposed := h'.disposed.trans h.disposed
  faulted hfault := h'.faulted (h.faulted hfault)
  read a items hread := h'.read a items (h.read a items hread)
  length := h.length.trans h'.length

/-- Only the objects have been touched. -/
theorem Follows.of_objects (hdisposed : c'.disposed = c.disposed) (harrays : c'.arrays = c.arrays)
    (hobjects : c.objects.faulted = true → c'.objects.faulted = true)
    (hlength : c.objects.heap.length ≤ c'.objects.heap.length) : Follows c c' where
  disposed := hdisposed
  faulted h := RefArrays.faulted_of h hobjects fun h => by rw [harrays]; exact h
  read a items hread := by rw [harrays]; exact hread
  length := hlength

theorem emit_follows : Follows c (c.emit frame p signal) :=
  .of_objects rfl rfl (fun h => RefMemory.faulted_use (RefMemory.faulted_ref h))
    RefMemory.length_ref.ge

theorem newCategory_follows (name : String) (level : Level) (flags : UInt64) :
    Follows c (c.newCategory name level flags) := by
  unfold newCategory
  split
  · exact .of_objects rfl rfl RefMemory.faulted_ref RefMemory.length_ref.ge
  · refine .trans ?_ emit_follows
    exact .of_objects rfl rfl id (RefMemory.length_alloc _ ▸ Nat.le_succ _)

theorem removeCategory_follows (name : String) : Follows c (c.removeCategory name) := by
  unfold removeCategory
  split
  · refine .trans ?_ emit_follows
    exact .of_objects rfl rfl (fun h => RefMemory.faulted_unref (RefMemory.faulted_ref h))
      (RefMemory.length_unref.trans RefMemory.length_ref).ge
  · exact .refl c

theorem clear_follows : Follows c c.clear :=
  .of_objects rfl rfl (fun h => RefMemory.faulted_unrefAll h _) (RefMemory.length_unrefAll _).ge

theorem findCategories_follows (matching : String → Bool) :
    Follows c (c.findCategories matching) where
  disposed := rfl
  faulted h := by
    have hlooked : RefArrays.faulted { c.toRefArrays with
        objects := c.objects.useAll c.pointers } = true :=
      RefArrays.faulted_of h (fun h => RefMemory.faulted_useAll h _) id
    exact RefArrays.faulted_newArray hlooked _
  read a items hread := RefHeap.read_alloc_of_some hread _
  length := ((RefMemory.length_refAll _).trans (RefMemory.length_useAll _)).ge

theorem useArray_follows (array : Nat) : Follows c { c with arrays := c.arrays.use array } :=
  ⟨rfl, fun h => RefArrays.faulted_of h id RefMemory.faulted_use, fun _ _ => id, Nat.le_refl _⟩

theorem removeNext_follows (array : Nat) (cats : List Nat) :
    Follows c (c.removeNext array cats) := by
  have huse := useArray_follows (c := c) array
  cases cats with
  | nil =>
    exact huse.trans ⟨rfl, RefArrays.faulted_unrefArray,
      fun a items hread => (RefArrays.read_unrefArray a).trans hread,
      RefArrays.length_objects_unrefArray.ge⟩
  | cons q rest => exact huse.trans emit_follows

theorem removeAllCategories_follows : Follows c c.removeAllCategories := by
  unfold removeAllCategories
  split
  · split
    · refine (findCategories_follows fun _ => true).trans ?_
      refine .trans (.trans ?_ clear_follows) (removeNext_follows _ _)
      exact ⟨rfl, RefArrays.faulted_refArray,
        fun a items hread => (RefMemory.read_ref a).trans hread, Nat.le_refl _⟩
    · exact clear_follows
  · exact .refl c

theorem write_follows (f : DBusLogCategory → DBusLogCategory) :
    Follows c ({ c with objects := c.objects.write p f }.emit frame p signal) := by
  refine .trans ?_ emit_follows
  exact .of_objects rfl rfl (fun h => RefMemory.faulted_write h f) (RefMemory.length_write f).ge

theorem use_follows : Follows c { c with objects := c.objects.use p } :=
  .of_objects rfl rfl RefMemory.faulted_use (Nat.le_refl _)

theorem setCategoryEnabled_follows (name : String) (enable : Bool) :
    Follows c (c.setCategoryEnabled name enable) := by
  unfold setCategoryEnabled
  split
  · split
    · split
      · exact write_follows _
      · split
        · exact write_follows _
        · exact use_follows
    · exact .refl c
  · exact .refl c

theorem setCategoryLevel_follows (name : String) (level : Level) :
    Follows c (c.setCategoryLevel name level) := by
  unfold setCategoryLevel
  split
  · split
    · split
      · split
        · exact write_follows _
        · exact use_follows
      · exact .refl c
    · exact .refl c
  · exact .refl c

theorem log_follows (cname : String) : Follows c (c.log cname) := by
  unfold log
  split
  · exact use_follows
  · exact .refl c

theorem drainPool_follows : Follows c c.drainPool :=
  ⟨rfl, fun h => RefArrays.faulted_unrefArrays h _,
    fun a _ hread => (RefArrays.read_unrefArrays _ a).trans hread,
    (RefArrays.length_objects_unrefArrays _).ge⟩

theorem goOn_follows (frame : CategoryFrame) : Follows c (c.goOn frame) := by
  cases frame with
  | added p =>
    exact .of_objects rfl rfl (fun h => RefMemory.faulted_ref (RefMemory.faulted_unref h))
      (RefMemory.length_ref.trans RefMemory.length_unref).ge
  | removed p =>
    exact .of_objects rfl rfl (fun h => RefMemory.faulted_unref (RefMemory.faulted_unref h))
      (RefMemory.length_unref.trans RefMemory.length_unref).ge
  | removedAll array p rest =>
    refine .trans ?_ (removeNext_follows _ _)
    exact .of_objects rfl rfl RefMemory.faulted_unref RefMemory.length_unref.ge
  | changed p => exact .of_objects rfl rfl RefMemory.faulted_unref RefMemory.length_unref.ge

/-- Every call but the last one. -/
theorem step_follows {call : CategoryCall} (hs : c.step call = some c')
    (hcall : call ≠ .dispose) : Follows c c' := by
  cases call with
  | newCategory name level flags =>
    obtain ⟨_, rfl⟩ := whenThere_iff.mp hs
    exact newCategory_follows name level flags
  | removeCategory name =>
    obtain ⟨_, rfl⟩ := whenThere_iff.mp hs
    exact removeCategory_follows name
  | removeAllCategories =>
    obtain ⟨_, rfl⟩ := whenThere_iff.mp hs
    exact removeAllCategories_follows
  | setCategoryEnabled name enable =>
    obtain ⟨_, rfl⟩ := whenThere_iff.mp hs
    exact setCategoryEnabled_follows name enable
  | setCategoryLevel name level =>
    obtain ⟨_, rfl⟩ := whenThere_iff.mp hs
    exact setCategoryLevel_follows name level
  | findCategories matching =>
    obtain ⟨_, rfl⟩ := whenThere_iff.mp hs
    exact findCategories_follows matching
  | log cname =>
    obtain ⟨_, rfl⟩ := whenThere_iff.mp hs
    exact log_follows cname
  | handlersReturn =>
    obtain ⟨frame, frames, hframes, rfl⟩ := handlersReturn_iff.mp hs
    refine .trans ?_ (goOn_follows frame)
    exact .of_objects rfl rfl id (Nat.le_refl _)
  | drainPool =>
    obtain ⟨_, rfl⟩ := whenThere_iff.mp hs
    exact drainPool_follows
  | ref p =>
    obtain ⟨_, he⟩ := Option.ite_none_right_eq_some.mp hs
    cases he
    exact .of_objects rfl rfl RefMemory.faulted_ref RefMemory.length_ref.ge
  | unref p =>
    obtain ⟨_, he⟩ := Option.ite_none_right_eq_some.mp hs
    cases he
    exact .of_objects rfl rfl RefMemory.faulted_unref RefMemory.length_unref.ge
  | refArray a =>
    obtain ⟨_, he⟩ := Option.ite_none_right_eq_some.mp hs
    cases he
    exact ⟨rfl, RefArrays.faulted_refArray,
      fun b items hread => (RefMemory.read_ref b).trans hread, Nat.le_refl _⟩
  | unrefArray a =>
    obtain ⟨_, he⟩ := Option.ite_none_right_eq_some.mp hs
    cases he
    exact ⟨rfl, RefArrays.faulted_unrefArray,
      fun b items hread => (RefArrays.read_unrefArray b).trans hread,
      RefArrays.length_objects_unrefArray.ge⟩
  | dispose => exact absurd rfl hcall

theorem step_faulted {call : CategoryCall} (h : c.faulted = true) (hs : c.step call = some c') :
    c'.faulted = true := by
  by_cases hcall : call = .dispose
  · subst hcall
    obtain ⟨_, he⟩ := Option.ite_none_right_eq_some.mp hs
    cases he
    exact drainPool_follows.faulted (clear_follows.faulted h)
  · exact (step_follows hs hcall).faulted h

/-- What has been made stays counted. -/
theorem step_length {call : CategoryCall} (hs : c.step call = some c') :
    c.objects.heap.length ≤ c'.objects.heap.length := by
  by_cases hcall : call = .dispose
  · subst hcall
    obtain ⟨_, he⟩ := Option.ite_none_right_eq_some.mp hs
    cases he
    exact clear_follows.length.trans drainPool_follows.length
  · exact (step_follows hs hcall).length

/-! ## Runs -/

/-- Step lemma. -/
theorem ObjectInv.step (h : ObjectInv c) {call : CategoryCall} (hretained : Retained c call)
    (hs : c.step call = some c') : ObjectInv c' := by
  refine ⟨h.toAccounted.step hretained hs, fun hgone => ?_⟩
  by_cases hcall : call = .dispose
  · subst hcall
    obtain ⟨⟨hframes, _⟩, he⟩ := Option.ite_none_right_eq_some.mp hs
    cases he
    exact ⟨rfl, hframes, rfl⟩
  · rw [(step_follows hs hcall).disposed] at hgone
    have hempty := h.disposed hgone
    -- callers may still give up their references
    cases call with
    | handlersReturn =>
      obtain ⟨frame, frames, hframes, rfl⟩ := handlersReturn_iff.mp hs
      cases hframes.symm.trans hempty.2.1
    | ref p =>
      obtain ⟨_, he⟩ := Option.ite_none_right_eq_some.mp hs
      cases he
      exact hempty
    | unref p =>
      obtain ⟨_, he⟩ := Option.ite_none_right_eq_some.mp hs
      cases he
      exact hempty
    | refArray a =>
      obtain ⟨_, he⟩ := Option.ite_none_right_eq_some.mp hs
      cases he
      exact hempty
    | unrefArray a =>
      obtain ⟨_, he⟩ := Option.ite_none_right_eq_some.mp hs
      cases he
      exact hempty
    | dispose => exact absurd rfl hcall
    | _ => cases hgone.symm.trans (whenThere_iff.mp hs).1

/-- A reference is taken to a category that is gone. -/
theorem Accounted.faults (h : Accounted c) {call : CategoryCall} (hlost : ¬Retained c call)
    (hs : c.step call = some c') : c'.faulted = true := by
  cases call with
  | handlersReturn =>
    obtain ⟨frame, frames, hframes, rfl⟩ := handlersReturn_iff.mp hs
    unfold Retained at hlost
    rw [hframes] at hlost
    cases frame with
    | added p =>
      have howned : c.toRefArrays.Owned (p :: { c with frames := frames }.owners)
          c.arrayOwners := by
        refine h.owned.perm (List.perm_iff_count.mpr fun q => ?_) (.refl _)
        simp only [owners, pointers, hframes, List.flatMap_cons, List.count_append,
          CategoryFrame.held, List.count_cons, List.count_nil]
        omega
      have hdead : (c.objects.unref p).alive p = false := by
        refine Bool.eq_false_of_not_eq_true fun halive => hlost ?_
        exact howned.unref.objects.alive_iff.mp halive
      show (((c.objects.unref p).ref p).faulted || c.arrays.faulted) = true
      rw [RefMemory.faulted_ref_of_dead hdead]
      rfl
    | _ => exact absurd trivial hlost
  | _ => exact absurd trivial hlost

end Steps

/-- The category objects of a core are safe under handlers that call the core. In every run, nested
in any way, nothing is misused if and only if each time the handlers for CATEGORY_ADDED return,
somebody else has a reference to the category: the table, an array, another function that is still
running, or a caller. As long as this is so, the references that these have are the reference
counts, and a category is alive exactly as long as there is one; what is left after the end of the
core is what its callers have kept. -/
theorem reentrancySafe (removedHandlers : Bool) (calls : List CategoryCall) (c : CoreCategories)
    (hrun : Runs.run step (new removedHandlers) calls = some c) :
    (c.faulted = false ↔ Runs.Meets step Retained (new removedHandlers) calls) ∧
    (c.faulted = false →
      (∀ p cell, c.objects.heap[p]? = some cell → cell.refCount = c.holders.count p) ∧
      (∀ p, c.objects.alive p = true ↔ p ∈ c.holders) ∧
      (c.disposed = true → c.keptArrays = [] → ∀ p, c.objects.alive p = true ↔ p ∈ c.kept)) := by
  have hiff : Runs.Meets step Retained (new removedHandlers) calls ↔ ¬c.faulted = true :=
    Runs.meets_iff_not (P := ObjectInv) (F := fun c => c.faulted = true)
      (fun _ _ _ h hretained hs => h.step hretained hs)
      (fun _ _ _ h hlost hs => h.toAccounted.faults hlost hs)
      (fun _ _ _ h hs => step_faulted h hs)
      (fun _ h => Bool.eq_false_iff.mp h.owned.clean) hrun (new_objectInv removedHandlers)
  refine ⟨(Bool.eq_false_iff.trans hiff.symm), fun hclean => ?_⟩
  have h : ObjectInv c := Runs.invariant_of_meets (P := ObjectInv)
    (fun _ _ _ h hretained hs => h.step hretained hs)
    (hiff.mpr (Bool.eq_false_iff.mp hclean)) hrun (new_objectInv removedHandlers)
  refine ⟨h.owned.objects.counted.count, fun p => h.owned.objects.alive_iff, ?_⟩
  intro hgone harrays p
  obtain ⟨htable, hframes, hpool⟩ := h.disposed hgone
  have hnone : c.arrayOwners = [] := by simp [arrayOwners, hframes, hpool, harrays]
  have hempty := RefArrays.elements_eq_nil (hnone ▸ h.owned.arrays)
  have howners : c.owners = c.kept := by simp [owners, pointers, htable, hframes]
  rw [h.owned.objects.alive_iff, hempty, howners]
  rfl

/-- A handler for a removed category adds it again while others are still to be reported; the caller
keeps one of the categories beyond the end of the core. -/
def removedAndAdded : List CategoryCall :=
  [.newCategory "net" 0 1, .handlersReturn, .newCategory "usb" 0 0, .handlersReturn, .unref 0,
    .removeAllCategories, .newCategory "net" 6 0, .setCategoryLevel "net" 3, .drainPool,
    .handlersReturn, .handlersReturn, .unref 2, .handlersReturn, .log "net", .handlersReturn,
    .dispose]

/-- A handler for a new category removes it. -/
def removedAtOnce : List CategoryCall :=
  [.newCategory "net" 0 1, .removeCategory "net", .handlersReturn, .handlersReturn]

theorem reentrancySafe_removedAndAdded :
    (∃ c, Runs.run step (new true) removedAndAdded = some c ∧ c.faulted = false ∧
      c.objects.alive 1 = true ∧ c.objects.alive 0 = false ∧ c.objects.alive 2 = false) ∧
    ∃ c, Runs.run step (new true) removedAtOnce = some c ∧ c.faulted = true := by
  constructor
  · obtain ⟨c, hc, he⟩ := Option.map_eq_some_iff.mp (by decide +kernel :
      (Runs.run step (new true) removedAndAdded).map (fun c =>
        (c.kept, c.keptArrays, c.disposed)) = some ([1], [], true))
    obtain ⟨hkept, hrest⟩ := Prod.mk.inj he
    obtain ⟨harrays, hgone⟩ := Prod.mk.inj hrest
    obtain ⟨hsafe, hlives⟩ := reentrancySafe true removedAndAdded c hc
    have hclean := hsafe.mpr (by decide +kernel)
    have hleft := (hlives hclean).2.2 hgone harrays
    refine ⟨c, hc, hclean, (hleft 1).mpr (by simp [hkept]), ?_, ?_⟩
    · exact Bool.eq_false_iff.mpr fun halive => absurd ((hleft 0).mp halive) (by simp [hkept])
    · exact Bool.eq_false_iff.mpr fun halive => absurd ((hleft 2).mp halive) (by simp [hkept])
  · obtain ⟨c, hc, _⟩ := Option.map_eq_some_iff.mp (by decide +kernel :
      (Runs.run step (new true) removedAtOnce).map (·.disposed) = some false)
    refine ⟨c, hc, Bool.eq_true_of_not_eq_false fun hclean => ?_⟩
    exact absurd ((reentrancySafe true removedAtOnce c hc).1.mp hclean) (by decide +kernel)

end CoreCategories

end DBusLog

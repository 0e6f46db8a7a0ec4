import DBusLog.Client.Attempts
import DBusLog.Client.Replica
import Mathlib.Data.List.Sort
import Mathlib.Data.String.Basic

/-!
# The containers of a client agree

The public array of a client is made again from its hash table by a new category and by a snapshot.
A hash table is gone through in no particular order, which shows when two categories have one name;
`stepIn` is a step of the client for one such order. Whatever the orders and whatever the server
sends, the array shows the table after every event.
-/

namespace DBusLog

/-- An order in which the values of a hash table are found. -/
structure HashOrder where
  order : List Nat → List Nat
  perm : ∀ values, (order values).Perm values

/-- The order of the model, in which the latest value comes first. -/
def HashOrder.asStored : HashOrder := ⟨id, fun _ => .refl _⟩

/-- Handlers get the position of the category in the array. -/
def ClientSignal.At (categories : List Nat) : ClientSignal → Prop
  | .categoryRemoved category index | .categoryFlags category index =>
    categories[index]? = some category
  | .categoryAdded _ _ | .connectedChanged | .backlogChanged => True

namespace DBusLogClient

/-- `dbus_log_category_values`, sorted, for an order of the hash table -/
def sortedIn (order : HashOrder) (memory : List DBusLogCategory)
    (table : KeyedTable (Prod.fst : UInt32 × Nat → UInt32)) : List Nat :=
  (order.order (table.values.map Prod.snd)).insertionSort fun p q =>
    nameAt memory p ≤ nameAt memory q

/-- `dbus_log_client_category_added`, for an order of the hash table -/
def categoryAddedIn (order : HashOrder) (c : DBusLogClient) (name : String) (id flags : UInt32) :
    DBusLogClient :=
  let p := c.memory.length
  let c := { c with memory := c.memory ++ [DBusLogCategory.new name id] }
  let c := (c.categoryRemove id).2
  let c := { c with
    memory := c.memory.modify p fun cat => { cat with flags := flags.toUInt64 }
    table := c.table.insert (id, p) }
  let old := c.categories
  let c := { c with categories := sortedIn order c.memory c.table }
  let (index, overread) := findAdded c.categories old 0
  { c with overread := c.overread || overread }.emit (.categoryAdded p index)

theorem categoryAddedIn_asStored (c : DBusLogClient) (name : String) (id flags : UInt32) :
    c.categoryAddedIn .asStored name id flags = c.categoryAdded name id flags := rfl

/-- The array is made again from the table. -/
def resorted (order : HashOrder) (c : DBusLogClient) : DBusLogClient :=
  { c with categories := sortedIn order c.memory c.table }

/-- The containers agree, and the public array is sorted by name. -/
structure Agreeing (c : DBusLogClient) : Prop extends Sound c where
  sorted : c.categories.Pairwise fun p q => nameAt c.memory p ≤ nameAt c.memory q

/-- Between `c` and `c'`, handlers have got positions in the array of `c`. -/
def Positions (c c' : DBusLogClient) : Prop :=
  ∃ more, c'.emitted = c.emitted ++ more ∧ ∀ signal ∈ more, signal.At c.categories

section Containers

variable {c c' : DBusLogClient} {order : HashOrder} {id flags : UInt32} {name : String}

theorem Positions.of_eq (h : c'.emitted = c.emitted) : Positions c c' :=
  ⟨[], h.trans (List.append_nil _).symm, fun _ hsignal => nomatch hsignal⟩

theorem Positions.of_emit {signal : ClientSignal} (h : c'.emitted = c.emitted ++ [signal])
    (hat : signal.At c.categories) : Positions c c' := by
  refine ⟨[signal], h, fun other hother => ?_⟩
  rw [List.mem_singleton.mp hother]
  exact hat

/-- Another signal, which carries no position of the array from before. -/
theorem Positions.emit (h : Positions c c') {signal : ClientSignal}
    {c'' : DBusLogClient} (he : c''.emitted = c'.emitted ++ [signal])
    (hat : ∀ categories, signal.At categories) : Positions c c'' := by
  obtain ⟨more, hmore, hpositions⟩ := h
  refine ⟨more ++ [signal], ?_, fun other hother => ?_⟩
  · rw [he, hmore, List.append_assoc]
  · obtain hold | hnew := List.mem_append.mp hother
    · exact hpositions other hold
    · rw [List.mem_singleton.mp hnew]
      exact hat _

theorem sortedIn_perm (order : HashOrder) (memory : List DBusLogCategory)
    (table : KeyedTable (Prod.fst : UInt32 × Nat → UInt32)) :
    (sortedIn order memory table).Perm (table.values.map Prod.snd) :=
  (List.perm_insertionSort _ _).trans (order.perm _)

/-- An array that has been made again shows the table, whatever the order. -/
theorem Agreeing.of_sortedIn (howned : Owned c.memory c.table)
    (h : c.categories = sortedIn order c.memory c.table) : Agreeing c := by
  have hperm := sortedIn_perm order c.memory c.table
  refine ⟨⟨howned, fun p => ?_, ?_⟩, ?_⟩
  · rw [h, hperm.mem_iff, List.mem_map]
  · rw [h, hperm.nodup_iff]
    exact howned.pointers_nodup
  · rw [h]
    have htotal : Std.Total fun p q => nameAt c.memory p ≤ nameAt c.memory q :=
      ⟨fun p q => le_total _ _⟩
    have htrans : IsTrans Nat fun p q => nameAt c.memory p ≤ nameAt c.memory q :=
      ⟨fun p q r => le_trans⟩
    exact List.pairwise_insertionSort _ _

/-! ## Signals -/

/-- The place of a category in the array. -/
theorem categoryIndex_at {p index : Nat} (h : c.categoryIndex (some p) = some index) :
    c.categories[index]? = some p := by
  obtain ⟨hlt, hat, _⟩ := List.idxOf?_eq_some_iff.mp h
  rw [List.getElem?_eq_getElem hlt, hat]

/-- A removal takes the category out of both containers, and reports the place it had. -/
theorem Agreeing.categoryRemove (h : Agreeing c) (id : UInt32) :
    Agreeing (c.categoryRemove id).2 ∧ Positions c (c.categoryRemove id).2 := by
  have hsound := h.toSound.categoryRemove id
  unfold DBusLogClient.categoryRemove at hsound ⊢
  cases hp : c.category id with
  | none =>
    rw [hp] at hsound
    exact ⟨⟨hsound, h.sorted⟩, .of_eq rfl⟩
  | some p =>
    obtain ⟨index, hindex, herase⟩ := h.categoryIndex_isSome hp
    rw [hp, hindex] at hsound
    rw [hindex]
    refine ⟨⟨hsound, ?_⟩, .of_emit rfl (categoryIndex_at hindex)⟩
    change (c.categories.take index ++ c.categories.drop (index + 1)).Pairwise _
    rw [herase]
    exact h.sorted.sublist List.erase_sublist

/-- New flags are not a new name. -/
theorem nameAt_reflag (memory : List DBusLogCategory) (p : Nat) (flags : UInt64) (q : Nat) :
    nameAt (memory.modify p fun cat => { cat with flags := flags }) q = nameAt memory q := by
  unfold nameAt
  rw [List.getElem?_modify]
  cases memory[q]? with
  | none => rfl
  | some cat =>
    by_cases hp : p = q
    · simp [hp]
    · simp [hp]

/-- A new category, under any id: the array is made again. -/
theorem Agreeing.categoryAddedIn (h : Agreeing c) (order : HashOrder) (name : String)
    (id flags : UInt32) : Agreeing (c.categoryAddedIn order name id flags) ∧
      Positions c (c.categoryAddedIn order name id flags) := by
  obtain ⟨hremoved, hpositions⟩ := h.categoryRemove id
  obtain ⟨hmemory, _⟩ := categoryRemove_frame h.toSound id
  have howned := hremoved.owned
  rw [hmemory] at howned
  obtain ⟨howned, _⟩ := howned.push { DBusLogCategory.new name id with flags := flags.toUInt64 }
  unfold DBusLogClient.categoryAddedIn
  dsimp only
  rw [categoryRemove_memory (c.memory ++ [DBusLogCategory.new name id])]
  dsimp only
  rw [modify_last]
  exact ⟨.of_sortedIn howned rfl, hpositions.emit rfl fun _ => trivial⟩

/-- New flags for a category, which keeps its name and its place. -/
theorem Agreeing.categoryFlagsChanged (h : Agreeing c) (id flags : UInt32) :
    Agreeing (c.categoryFlagsChanged id flags) ∧ Positions c (c.categoryFlagsChanged id flags) := by
  unfold DBusLogClient.categoryFlagsChanged
  cases hp : c.category id with
  | none => exact ⟨h, .of_eq rfl⟩
  | some p =>
    obtain ⟨index, hindex, _⟩ := h.categoryIndex_isSome hp
    rw [hindex]
    refine ⟨⟨⟨h.owned.reflag p flags.toUInt64, h.shown, h.distinct⟩, ?_⟩,
      .of_emit rfl (categoryIndex_at hindex)⟩
    refine h.sorted.imp fun {q r} hle => ?_
    change nameAt (c.memory.modify p _) q ≤ nameAt (c.memory.modify p _) r
    rw [nameAt_reflag, nameAt_reflag]
    exact hle

/-! ## Snapshots -/

/-- Memory grows at its end. -/
theorem nameAt_append {memory : List DBusLogCategory} {p : Nat} (h : p < memory.length)
    (more : List DBusLogCategory) : nameAt (memory ++ more) p = nameAt memory p := by
  unfold nameAt
  rw [List.getElem?_append_left h]

/-- Objects that no table has are of no consequence. -/
theorem Agreeing.grow (h : Agreeing c) (more : List DBusLogCategory) :
    Agreeing { c with memory := c.memory ++ more } := by
  have hname : ∀ p ∈ c.categories, nameAt (c.memory ++ more) p = nameAt c.memory p := by
    intro p hp
    obtain ⟨e, he, rfl⟩ := (h.shown p).mp hp
    exact nameAt_append (h.owned.lt he) more
  refine ⟨⟨fun e he => ?_, h.shown, h.distinct⟩, h.sorted.imp_of_mem fun {p q} hp hq hle => ?_⟩
  · rw [List.getElem?_append_left (h.owned.lt he)]
    exact h.owned e he
  · change nameAt (c.memory ++ more) p ≤ nameAt (c.memory ++ more) q
    rw [hname p hp, hname q hq]
    exact hle

theorem decodeCategories_memory (entries : List (String × UInt32 × UInt32 × Int32))
    (memory : List DBusLogCategory) (table : KeyedTable (Prod.fst : UInt32 × Nat → UInt32)) :
    ∃ more, (decodeCategories entries (memory, table)).1 = memory ++ more := by
  induction entries generalizing memory table with
  | nil => exact ⟨[], (List.append_nil memory).symm⟩
  | cons entry entries ih =>
    obtain ⟨more, hmore⟩ := ih (memory ++ [{ DBusLogCategory.new entry.1 entry.2.1 with
      flags := entry.2.2.1.toUInt64
      level := entry.2.2.2.toUInt32 }]) (table.insert (entry.2.1, memory.length))
    exact ⟨_ :: more, hmore.trans (List.append_assoc _ _ _)⟩

theorem becomeConnected_containers (c : DBusLogClient) :
    c.becomeConnected.memory = c.memory ∧ c.becomeConnected.table = c.table ∧
      c.becomeConnected.categories = c.categories ∧
      (c.becomeConnected.emitted = c.emitted ∨
        c.becomeConnected.emitted = c.emitted ++ [.connectedChanged]) := by
  unfold becomeConnected
  dsimp only
  split
  · exact ⟨rfl, rfl, rfl, .inr rfl⟩
  · exact ⟨rfl, rfl, rfl, .inl rfl⟩

end Containers

end DBusLogClient

namespace ClientConnection

open DBusLogClient

/-- After the end of an attempt the array has been made again, unless the attempt was out of date. -/
def arrayRemade (order : HashOrder) (attempt : Nat) (c c' : ClientConnection) : ClientConnection :=
  if c.init = some attempt then { c' with toDBusLogClient := c'.toDBusLogClient.resorted order }
  else c'

/-- A step, for an order of the hash table. -/
def stepIn (order : HashOrder) (c : ClientConnection) (event : ClientEvent) :
    Option ClientConnection :=
  match event with
  | .signal (.categoryAdded name id flags) =>
    some (if c.handling then
      { c with toDBusLogClient := c.toDBusLogClient.categoryAddedIn order name id flags } else c)
  | .gotAll attempt (some _) | .gotAll2 attempt (some _) =>
    (c.step event).map (arrayRemade order attempt c)
  | _ => c.step event

section Runs

variable {c c' : ClientConnection} {order : HashOrder}

/-- The end of an attempt with the table of its snapshot. -/
theorem initFree_containers (c : ClientConnection) (attempt : Nat)
    (table : KeyedTable (Prod.fst : UInt32 × Nat → UInt32)) :
    (c.init = some attempt ∧ (c.initFree attempt (some table)).memory = c.memory ∧
        (c.initFree attempt (some table)).table = table ∧
        (c.initFree attempt (some table)).categories = sortedValues c.memory table ∧
        Positions c.toDBusLogClient (c.initFree attempt (some table)).toDBusLogClient) ∨
      (c.init ≠ some attempt ∧
        (c.initFree attempt (some table)).toDBusLogClient = c.toDBusLogClient) := by
  unfold initFree
  by_cases hcurrent : c.init = some attempt
  · rw [if_pos hcurrent]
    obtain ⟨hclient, _⟩ := clientConnected_spec { c with
      init := none
      categories := sortedValues c.memory table
      table := table } attempt
    obtain ⟨hmemory, htable, hcategories, hemitted⟩ :=
      becomeConnected_containers { c.toDBusLogClient with
        categories := sortedValues c.memory table
        table := table }
    dsimp only [setStage]
    refine .inl ⟨hcurrent, ?_, ?_, ?_, ?_⟩
    · rw [hclient]
      exact hmemory
    · rw [hclient]
      exact htable
    · rw [hclient]
      exact hcategories
    · rw [hclient]
      obtain hsame | hchanged := hemitted
      · exact .of_eq hsame
      · exact .of_emit hchanged trivial
  · rw [if_neg hcurrent]
    exact .inr ⟨hcurrent, rfl⟩

/-- A snapshot has been decoded, and nothing else has happened to the containers. -/
structure Decoded (c : ClientConnection) (entries : List SnapshotEntry) (c₀ : ClientConnection) :
    Prop where
  memory : c₀.memory = (decodeCategories entries (c.memory, .empty)).1
  table : c₀.table = c.table
  categories : c₀.categories = c.categories
  emitted : c₀.emitted = c.emitted
  init : c₀.init = c.init

/-- A snapshot takes the place of both containers, or it is out of date. -/
theorem Decoded.agrees {c₀ : ClientConnection} {entries : List SnapshotEntry}
    (hd : Decoded c entries c₀) (h : Agreeing c.toDBusLogClient) (order : HashOrder)
    (attempt : Nat) {table : KeyedTable (Prod.fst : UInt32 × Nat → UInt32)}
    (htable : table = (decodeCategories entries (c.memory, .empty)).2)
    (hc' : c' = arrayRemade order attempt c (c₀.initFree attempt (some table))) :
    Agreeing c'.toDBusLogClient ∧ Positions c.toDBusLogClient c'.toDBusLogClient := by
  rw [hc']
  unfold arrayRemade
  obtain ⟨hcurrent, hmemory, htaken, _, more, hmore, hpositions⟩ | ⟨hstale, hsame⟩ :=
    initFree_containers c₀ attempt table
  · -- the attempt is the current one, and its table is taken over
    rw [if_pos (hd.init.symm.trans hcurrent)]
    have howned : Owned (c₀.initFree attempt (some table)).memory
        (c₀.initFree attempt (some table)).table := by
      rw [hmemory, htaken, hd.memory, htable]
      exact (decodeCategories_owned (owned_empty c.memory) entries).1
    refine ⟨.of_sortedIn howned rfl, more, ?_, ?_⟩
    · exact hmore.trans (congrArg (· ++ more) hd.emitted)
    · rw [← hd.categories]
      exact hpositions
  · -- an older attempt leaves only objects in memory
    rw [if_neg fun hcurrent => hstale (hd.init.trans hcurrent), hsame]
    obtain ⟨more, hmore⟩ := decodeCategories_memory entries c.memory .empty
    have hgrown := h.grow more
    rw [← hmore, ← hd.memory] at hgrown
    refine ⟨⟨⟨?_, ?_, ?_⟩, ?_⟩, .of_eq hd.emitted⟩
    · rw [hd.table]
      exact hgrown.owned
    · rw [hd.table, hd.categories]
      exact hgrown.shown
    · rw [hd.categories]
      exact hgrown.distinct
    · rw [hd.categories]
      exact hgrown.sorted

/-- The name of the server has vanished: both containers are empty. -/
theorem disconnect_agrees (c : ClientConnection) (emitSignals : Bool) :
    Agreeing (c.disconnect emitSignals).toDBusLogClient ∧
      Positions c.toDBusLogClient (c.disconnect emitSignals).toDBusLogClient := by
  have hempty : ∀ d : DBusLogClient, d.table = .empty → d.categories = [] → Agreeing d := by
    intro d htable hcategories
    refine ⟨⟨?_, fun p => ?_, ?_⟩, ?_⟩
    · rw [htable]
      exact owned_empty d.memory
    · rw [htable, hcategories]
      exact ⟨fun hp => (nomatch hp), fun ⟨_, he, _⟩ => (nomatch he)⟩
    · rw [hcategories]
      exact List.nodup_nil
    · rw [hcategories]
      exact List.Pairwise.nil
  have hstop := congrArg emitted (stop_undisturbed c emitSignals).client
  unfold disconnect
  dsimp only
  split
  · split
    · split
      · exact ⟨hempty _ rfl rfl, .of_emit (congrArg (· ++ _) hstop) trivial⟩
      · exact ⟨hempty _ rfl rfl, .of_eq hstop⟩
    · exact ⟨hempty _ rfl rfl, .of_eq hstop⟩
  · split
    · split
      · exact ⟨hempty _ rfl rfl, .of_emit (congrArg (· ++ _) hstop) trivial⟩
      · exact ⟨hempty _ rfl rfl, .of_eq hstop⟩
    · exact ⟨hempty _ rfl rfl, .of_eq hstop⟩

/-! ## What leaves the containers alone -/

theorem initCancel_client (c : ClientConnection) (attempt? : Option Nat) :
    (c.initCancel attempt?).toDBusLogClient = c.toDBusLogClient := by
  cases attempt? with
  | none => rfl
  | some attempt => rfl

/-- An attempt that fails. -/
theorem initFree_none_client (c : ClientConnection) (attempt : Nat) :
    (c.initFree attempt none).toDBusLogClient = c.toDBusLogClient := by
  unfold initFree
  split
  · rfl
  · rfl

theorem initProxyCreated_client (c : ClientConnection) (attempt : Nat) (ok : Bool) :
    (c.initProxyCreated attempt ok).toDBusLogClient = c.toDBusLogClient := by
  unfold initProxyCreated
  split
  · rfl
  · exact initFree_none_client c attempt

theorem initGetInterfaceVersionFinished_client (c : ClientConnection) (attempt : Nat)
    (version : Option Int32) :
    (c.initGetInterfaceVersionFinished attempt version).toDBusLogClient = c.toDBusLogClient := by
  cases version with
  | none => exact initFree_none_client c attempt
  | some version =>
    unfold initGetInterfaceVersionFinished
    dsimp only
    split
    · rfl
    · rfl

/-! ## Steps and runs -/

/-- A signal, whatever its arguments. -/
theorem signalIn_agrees {signal : BusSignal} (h : Agreeing c.toDBusLogClient)
    (hs : c.stepIn order (.signal signal) = some c') :
    Agreeing c'.toDBusLogClient ∧ Positions c.toDBusLogClient c'.toDBusLogClient := by
  cases signal with
  | categoryAdded name id flags =>
    cases hs
    split
    · exact h.categoryAddedIn order name id flags
    · exact ⟨h, .of_eq rfl⟩
  | categoryRemoved id =>
    cases hs
    unfold DBusLogClient.handle
    dsimp only
    split
    · exact h.categoryRemove id
    · exact ⟨h, .of_eq rfl⟩
  | categoryFlagsChanged id flags =>
    cases hs
    unfold DBusLogClient.handle
    dsimp only
    split
    · exact h.categoryFlagsChanged id flags
    · exact ⟨h, .of_eq rfl⟩
  | _ =>
    cases hs
    unfold DBusLogClient.handle
    dsimp only
    split
    · exact ⟨⟨⟨h.owned, h.shown, h.distinct⟩, h.sorted⟩, .of_eq rfl⟩
    · exact ⟨h, .of_eq rfl⟩

/-- Every event keeps the containers in agreement, and every handler gets the position that its
category had before the event. -/
theorem stepIn_agrees {event : ClientEvent} (h : Agreeing c.toDBusLogClient)
    (hs : c.stepIn order event = some c') :
    Agreeing c'.toDBusLogClient ∧ Positions c.toDBusLogClient c'.toDBusLogClient := by
  have hsame : c'.toDBusLogClient = c.toDBusLogClient →
      Agreeing c'.toDBusLogClient ∧ Positions c.toDBusLogClient c'.toDBusLogClient := by
    intro he
    rw [he]
    exact ⟨h, .of_eq rfl⟩
  cases event with
  | signal signal => exact signalIn_agrees h hs
  | nameAppeared =>
    cases hs
    exact hsame (initCancel_client c c.init)
  | nameVanished =>
    cases hs
    obtain ⟨hagrees, hpositions⟩ := disconnect_agrees { c.initCancel c.init with init := none } true
    rw [show ({ c.initCancel c.init with init := none } : ClientConnection).toDBusLogClient = _
      from initCancel_client c c.init] at hpositions
    exact ⟨hagrees, hpositions⟩
  | proxyCreated attempt ok =>
    obtain ⟨_, hs⟩ := Option.ite_none_right_eq_some.mp hs
    cases hs
    exact hsame (initProxyCreated_client c attempt ok)
  | gotInterfaceVersion attempt version =>
    obtain ⟨_, hs⟩ := Option.ite_none_right_eq_some.mp hs
    cases hs
    exact hsame (initGetInterfaceVersionFinished_client c attempt version)
  | gotAll attempt result =>
    cases result with
    | none =>
      obtain ⟨_, hs⟩ := Option.ite_none_right_eq_some.mp hs
      cases hs
      exact hsame (initFree_none_client c attempt)
    | some result =>
      obtain ⟨level, entries⟩ := result
      obtain ⟨after, hs, hc'⟩ := Option.map_eq_some_iff.mp hs
      obtain ⟨_, hs⟩ := Option.ite_none_right_eq_some.mp hs
      cases hs
      have hd : Decoded c entries { c with
          memory := (decodeCategories entries (c.memory, .empty)).1
          defaultLevel := level.toUInt32 } := ⟨rfl, rfl, rfl, rfl, rfl⟩
      exact hd.agrees h order attempt rfl hc'.symm
  | gotAll2 attempt result =>
    cases result with
    | none =>
      obtain ⟨_, hs⟩ := Option.ite_none_right_eq_some.mp hs
      cases hs
      exact hsame (initFree_none_client c attempt)
    | some result =>
      obtain ⟨level, entries, backlog⟩ := result
      obtain ⟨after, hs, hc'⟩ := Option.map_eq_some_iff.mp hs
      obtain ⟨_, hs⟩ := Option.ite_none_right_eq_some.mp hs
      cases hs
      have hd : Decoded c entries { c with
          memory := (decodeCategories entries (c.memory, .empty)).1
          defaultLevel := level.toUInt32
          backlog := backlog } := ⟨rfl, rfl, rfl, rfl, rfl⟩
      exact hd.agrees h order attempt rfl hc'.symm
  | start =>
    cases hs
    exact hsame (start_undisturbed c .application).client
  | cancel call =>
    obtain ⟨_, hs⟩ := Option.ite_none_right_eq_some.mp hs
    cases hs
    exact hsame rfl
  | logOpened call result =>
    obtain ⟨_, hs⟩ := Option.ite_none_right_eq_some.mp hs
    cases hs
    exact hsame (startFinished_undisturbed c call result).client
  | receiverClosed =>
    obtain ⟨_, hs⟩ := Option.ite_none_right_eq_some.mp hs
    cases hs
    exact hsame (stop_undisturbed c true).client

theorem new_agreeing (autostartFlag : Bool) : Agreeing (new autostartFlag).toDBusLogClient :=
  ⟨⟨owned_empty [], fun _ => ⟨fun hp => (nomatch hp), fun ⟨_, he, _⟩ => (nomatch he)⟩,
    List.nodup_nil⟩, List.Pairwise.nil⟩

/-- Sorting again in the order of the model makes no difference. -/
theorem arrayRemade_asStored {c₀ : ClientConnection} (hinit : c₀.init = c.init) (attempt : Nat)
    (table : KeyedTable (Prod.fst : UInt32 × Nat → UInt32)) :
    arrayRemade .asStored attempt c (c₀.initFree attempt (some table)) =
      c₀.initFree attempt (some table) := by
  unfold arrayRemade
  obtain ⟨hcurrent, hmemory, htable, hcategories, _⟩ | ⟨hstale, _⟩ :=
    initFree_containers c₀ attempt table
  · have hsorted : sortedIn .asStored (c₀.initFree attempt (some table)).memory
        (c₀.initFree attempt (some table)).table =
          (c₀.initFree attempt (some table)).categories := by
      rw [hcategories, hmemory, htable]
      rfl
    rw [if_pos (hinit.symm.trans hcurrent)]
    unfold resorted
    rw [hsorted]
  · rw [if_neg fun hcurrent => hstale (hinit.trans hcurrent)]

/-- A step that is enabled under a condition, and whose result `f` leaves alone. -/
theorem map_guarded {α : Type*} {f : α → α} {x : α} (h : f x = x) (p : Prop) [Decidable p] :
    (if p then some x else none).map f = if p then some x else none := by
  split
  · exact congrArg some h
  · rfl

/-- The model is the client for the order in which it finds the values itself. -/
theorem stepIn_asStored (c : ClientConnection) (event : ClientEvent) :
    c.stepIn .asStored event = c.step event := by
  cases event with
  | signal signal =>
    cases signal with
    | categoryAdded name id flags =>
      change some _ = some _
      unfold DBusLogClient.handle
      split
      · rfl
      · rfl
    | _ => rfl
  | gotAll attempt result =>
    cases result with
    | none => rfl
    | some result =>
      obtain ⟨level, entries⟩ := result
      let c₀ : ClientConnection := { c with
        memory := (decodeCategories entries (c.memory, .empty)).1
        defaultLevel := level.toUInt32 }
      have hinit : c₀.init = c.init := rfl
      have hremade : arrayRemade .asStored attempt c
          (c.initGetAllFinished attempt (some (level, entries))) =
            c.initGetAllFinished attempt (some (level, entries)) :=
        arrayRemade_asStored hinit attempt (decodeCategories entries (c.memory, .empty)).2
      exact map_guarded hremade _
  | gotAll2 attempt result =>
    cases result with
    | none => rfl
    | some result =>
      obtain ⟨level, entries, backlog⟩ := result
      let c₀ : ClientConnection := { c with
        memory := (decodeCategories entries (c.memory, .empty)).1
        defaultLevel := level.toUInt32
        backlog := backlog }
      have hinit : c₀.init = c.init := rfl
      have hremade : arrayRemade .asStored attempt c
          (c.initGetAll2Finished attempt (some (level, entries, backlog))) =
            c.initGetAll2Finished attempt (some (level, entries, backlog)) :=
        arrayRemade_asStored hinit attempt (decodeCategories entries (c.memory, .empty)).2
      exact map_guarded hremade _
  | _ => rfl

/-- After every event of every run the containers agree; and whatever comes next, the handlers for
a removed category and for new flags get the position in the array as it has been before. -/
theorem containersAgree {autostartFlag : Bool} {events : List (HashOrder × ClientEvent)}
    (hrun : Runs.run (fun c (event : HashOrder × ClientEvent) => c.stepIn event.1 event.2)
      (new autostartFlag) events = some c) :
    Agreeing c.toDBusLogClient ∧
      ∀ order event c', c.stepIn order event = some c' →
        Positions c.toDBusLogClient c'.toDBusLogClient := by
  have hagrees : Agreeing c.toDBusLogClient :=
    Runs.invariant_of_forall (C := fun _ => True)
      (fun _ _ _ h _ hs => (stepIn_agrees h hs).1) (fun _ _ => trivial) hrun
      (new_agreeing autostartFlag)
  exact ⟨hagrees, fun _ _ _ hs => (stepIn_agrees hagrees hs).2⟩

/-- A snapshot that repeats a name and an id and has the id 0, and signals that repeat names. -/
def repeatingEvents : List (HashOrder × ClientEvent) :=
  [(.asStored, .nameAppeared), (.asStored, .proxyCreated 0 true),
    (.asStored, .gotInterfaceVersion 0 (some 2)),
    (⟨List.reverse, List.reverse_perm⟩,
      .gotAll2 0 (some (6, [("net", 1, 0, 0), ("app", 0, 0, 0), ("app", 2, 1, 0),
        ("usb", 1, 0, 0)], 100))),
    (⟨List.reverse, List.reverse_perm⟩, .signal (.categoryAdded "app" 3 1)),
    (.asStored, .signal (.categoryAdded "app" 0 1)), (.asStored, .signal (.categoryRemoved 0)),
    (.asStored, .signal (.categoryAdded "net" 3 1)),
    (.asStored, .signal (.categoryFlagsChanged 2 0))]

theorem containersAgree_repeating :
    ∃ c, Runs.run (fun c (event : HashOrder × ClientEvent) => c.stepIn event.1 event.2)
        (new false) repeatingEvents = some c ∧ Agreeing c.toDBusLogClient :=
  ⟨_, (Option.some_get (by decide +kernel)).symm,
    (containersAgree (Option.some_get (by decide +kernel)).symm).1⟩

end Runs

end ClientConnection

end DBusLog

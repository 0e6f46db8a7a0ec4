import DBusLog.Client.Model
import DBusLog.Server.Journal

/-!
# The client as a replica

The containers of a client agree with each other after every signal and every snapshot. By ids, a
snapshot puts its entries into an empty table, and each signal changes the table as it says.
-/

namespace DBusLog

open ChangeLog

namespace DBusLogClient

/-- What a table and the objects behind its pointers say about the ids. -/
def view (memory : List DBusLogCategory) (table : KeyedTable (Prod.fst : UInt32 × Nat → UInt32))
    (id : UInt32) : Option (String × UInt64) :=
  (table.lookup id).bind fun e => (memory[e.2]?).map fun cat => (cat.name, cat.flags)

/-- Every pointer of the table leads to an object that has its id. -/
def Owned (memory : List DBusLogCategory)
    (table : KeyedTable (Prod.fst : UInt32 × Nat → UInt32)) : Prop :=
  ∀ e ∈ table.values, ∃ cat, memory[e.2]? = some cat ∧ cat.id = e.1

/-- The containers of a client agree: the public array has the pointers of the table, each once. -/
structure Sound (c : DBusLogClient) : Prop where
  owned : Owned c.memory c.table
  shown : ∀ p, p ∈ c.categories ↔ ∃ e ∈ c.table.values, e.2 = p
  distinct : c.categories.Nodup

/-- A client that hears the signals of its proxy. -/
structure Listening (c : DBusLogClient) : Prop extends Sound c where
  handling : c.handling = true

section Containers

variable {memory : List DBusLogCategory} {table : KeyedTable (Prod.fst : UInt32 × Nat → UInt32)}
  {c : DBusLogClient} {id : UInt32} {p : Nat}

theorem owned_empty (memory : List DBusLogCategory) : Owned memory .empty := fun _ he => (nomatch he)

theorem Owned.lt (h : Owned memory table) {e : UInt32 × Nat} (he : e ∈ table.values) :
    e.2 < memory.length := by
  obtain ⟨cat, hcat, _⟩ := h e he
  exact (List.getElem?_eq_some_iff.mp hcat).1

/-- Two ids do not share an object. -/
theorem Owned.pointer_inj (h : Owned memory table) {e e' : UInt32 × Nat} (he : e ∈ table.values)
    (he' : e' ∈ table.values) (hp : e.2 = e'.2) : e = e' := by
  obtain ⟨cat, hcat, hid⟩ := h e he
  obtain ⟨cat', hcat', hid'⟩ := h e' he'
  rw [hp, hcat'] at hcat
  have hsame : cat' = cat := Option.some.inj hcat
  refine Prod.ext ?_ hp
  rw [← hid, ← hid', hsame]

theorem Owned.pointers_nodup (h : Owned memory table) : (table.values.map Prod.snd).Nodup := by
  have hvalues : table.values.Nodup := List.Nodup.of_map _ table.nodup
  exact hvalues.map_on fun e he e' he' hp => h.pointer_inj he he' hp

/-- A new object under its id. -/
theorem Owned.push (h : Owned memory table) (cat : DBusLogCategory) :
    Owned (memory ++ [cat]) (table.insert (cat.id, memory.length)) ∧
      view (memory ++ [cat]) (table.insert (cat.id, memory.length)) =
        Function.update (view memory table) cat.id (some (cat.name, cat.flags)) := by
  constructor
  · intro e he
    obtain rfl | ⟨hold, _⟩ := (KeyedTable.mem_insert_iff _).mp he
    · exact ⟨cat, List.getElem?_concat_length, rfl⟩
    · rw [List.getElem?_append_left (h.lt hold)]
      exact h e hold
  · funext id
    by_cases hid : id = cat.id
    · subst hid
      have hlookup : (table.insert (cat.id, memory.length)).lookup cat.id =
          some (cat.id, memory.length) := KeyedTable.lookup_insert table (cat.id, memory.length)
      rw [Function.update_self]
      unfold view
      rw [hlookup, Option.bind_some, List.getElem?_concat_length]
      rfl
    · rw [Function.update_of_ne hid]
      unfold view
      rw [KeyedTable.lookup_insert_ne table hid]
      cases hlookup : table.lookup id with
      | none => rfl
      | some e =>
        rw [Option.bind_some, Option.bind_some,
          List.getElem?_append_left (h.lt (KeyedTable.mem_of_lookup hlookup))]

/-- Changing the flags of an object does not change whose it is. -/
theorem Owned.reflag (h : Owned memory table) (p : Nat) (flags : UInt64) :
    Owned (memory.modify p fun cat => { cat with flags := flags }) table := by
  intro e he
  obtain ⟨cat, hcat, hid⟩ := h e he
  rw [List.getElem?_modify, hcat]
  by_cases hp : p = e.2
  · exact ⟨{ cat with flags := flags }, by simp [hp], hid⟩
  · exact ⟨cat, by simp [hp], hid⟩

/-- The sorted array of a table shows the table. -/
theorem Owned.sorted (h : Owned c.memory c.table)
    (hcategories : c.categories = sortedValues c.memory c.table) : Sound c := by
  refine ⟨h, fun p => ?_, ?_⟩
  · rw [hcategories]
    unfold sortedValues
    rw [List.mem_insertionSort, List.mem_map]
  · rw [hcategories]
    unfold sortedValues
    rw [(List.perm_insertionSort _ _).nodup_iff]
    exact h.pointers_nodup

theorem category_eq_some_iff :
    c.category id = some p ↔ id ≠ 0 ∧ c.table.lookup id = some (id, p) := by
  unfold category
  by_cases hid : id ≠ 0
  · rw [if_pos hid, Option.map_eq_some_iff]
    constructor
    · rintro ⟨⟨id', p'⟩, hlookup, rfl⟩
      have hkey : id' = id := KeyedTable.key_of_lookup hlookup
      rw [← hkey] at hlookup ⊢
      exact ⟨hkey ▸ hid, hlookup⟩
    · rintro ⟨_, hlookup⟩
      exact ⟨(id, p), hlookup, rfl⟩
  · rw [if_neg hid]
    exact iff_of_false (fun h => by cases h) fun h => hid h.1

/-- The index of a category is found in the public array. -/
theorem Sound.categoryIndex_isSome (h : Sound c) (hp : c.category id = some p) :
    ∃ index, c.categoryIndex (some p) = some index ∧
      c.categories.take index ++ c.categories.drop (index + 1) = c.categories.erase p := by
  have hlookup := (category_eq_some_iff.mp hp).2
  have hmem : p ∈ c.categories := (h.shown p).mpr ⟨_, KeyedTable.mem_of_lookup hlookup, rfl⟩
  obtain ⟨index, hindex⟩ := Option.isSome_iff_exists.mp (List.isSome_idxOf?.mpr hmem)
  have herase := List.erase_eq_eraseIdx (l := c.categories) p
  rw [hindex] at herase
  exact ⟨index, hindex, (List.eraseIdx_eq_take_drop_succ _ _).symm.trans herase.symm⟩

/-- Either the id is not known, or its category leaves both containers. -/
theorem Sound.categoryRemove_eq (h : Sound c) (id : UInt32) :
    (c.category id = none ∧ c.categoryRemove id = (false, c)) ∨
      ∃ p index, c.category id = some p ∧ c.categoryRemove id = (true, { c with
        categories := c.categories.erase p
        table := c.table.erase id }.emit (.categoryRemoved p index)) := by
  unfold categoryRemove
  cases hp : c.category id with
  | none => exact .inl ⟨rfl, rfl⟩
  | some p =>
    obtain ⟨index, hindex, herase⟩ := h.categoryIndex_isSome hp
    rw [hindex]
    refine .inr ⟨p, index, rfl, ?_⟩
    rw [← herase]

theorem Sound.categoryRemove (h : Sound c) (id : UInt32) : Sound (c.categoryRemove id).2 := by
  obtain ⟨_, he⟩ | ⟨p, index, hp, he⟩ := h.categoryRemove_eq id
  · rw [he]
    exact h
  · have hlookup := KeyedTable.mem_of_lookup (category_eq_some_iff.mp hp).2
    rw [he]
    refine ⟨fun e hmem => h.owned e ((KeyedTable.mem_erase_iff _).mp hmem).1, fun q => ?_,
      List.Nodup.erase p h.distinct⟩
    change q ∈ c.categories.erase p ↔ ∃ e ∈ (c.table.erase id).values, e.2 = q
    rw [h.distinct.mem_erase_iff, h.shown]
    constructor
    · rintro ⟨hne, e, hmem, rfl⟩
      refine ⟨e, (KeyedTable.mem_erase_iff _).mpr ⟨hmem, fun hid => hne ?_⟩, rfl⟩
      have hsame : e = (id, p) := KeyedTable.eq_of_key_eq hmem hlookup hid
      rw [hsame]
    · rintro ⟨e, hmem, rfl⟩
      obtain ⟨hmem, hid⟩ := (KeyedTable.mem_erase_iff _).mp hmem
      refine ⟨fun hp => hid ?_, e, hmem, rfl⟩
      exact congrArg Prod.fst (h.owned.pointer_inj hmem hlookup hp)

theorem categoryRemove_frame (h : Sound c) (id : UInt32) :
    (c.categoryRemove id).2.memory = c.memory ∧
      (c.categoryRemove id).2.handling = c.handling := by
  obtain ⟨_, he⟩ | ⟨p, index, _, he⟩ := h.categoryRemove_eq id
  · rw [he]
    exact ⟨rfl, rfl⟩
  · rw [he]
    exact ⟨rfl, rfl⟩

/-- Nothing is left under the id, unless that is 0. -/
theorem categoryRemove_entryAt (h : Sound c) (hid : id ≠ 0) :
    (c.categoryRemove id).2.entryAt = Function.update c.entryAt id none := by
  have hlookup : ∀ other, (c.categoryRemove id).2.table.lookup other =
      if other = id then none else c.table.lookup other := by
    intro other
    obtain ⟨hnone, he⟩ | ⟨p, index, hp, he⟩ := h.categoryRemove_eq id
    · rw [he]
      by_cases hother : other = id
      · rw [if_pos hother, hother]
        unfold category at hnone
        rw [if_pos hid] at hnone
        exact Option.map_eq_none_iff.mp hnone
      · rw [if_neg hother]
    · rw [he]
      change (c.table.erase id).lookup other = _
      by_cases hother : other = id
      · rw [if_pos hother, hother, KeyedTable.lookup_erase]
      · rw [if_neg hother, KeyedTable.lookup_erase_ne _ hother]
  funext other
  unfold entryAt
  rw [hlookup, (categoryRemove_frame h id).1]
  by_cases hother : other = id
  · rw [if_pos hother, hother, Function.update_self]
    rfl
  · rw [if_neg hother, Function.update_of_ne hother]

end Containers

/-! ## Signals -/

section Signals

variable {c : DBusLogClient} {id : UInt32}

/-- Where the objects are does not matter for a removal. -/
theorem categoryRemove_memory (memory : List DBusLogCategory) :
    categoryRemove { c with memory := memory } id =
      ((c.categoryRemove id).1, { (c.categoryRemove id).2 with memory := memory }) := by
  unfold categoryRemove
  rw [show category { c with memory := memory } id = c.category id from rfl]
  cases c.category id with
  | none => rfl
  | some p =>
    rw [show categoryIndex { c with memory := memory } (some p) = c.categoryIndex (some p) from rfl]
    cases c.categoryIndex (some p) with
    | none => rfl
    | some index => rfl

theorem modify_last {α : Type*} (xs : List α) (x : α) (f : α → α) :
    (xs ++ [x]).modify xs.length f = xs ++ [f x] := by
  induction xs with
  | nil => rfl
  | cons y xs ih =>
    have he := congrArg (y :: ·) ih
    exact he

/-- A new category: the old one under the id goes, the new object comes into the table, and the
array is made again. -/
theorem categoryAdded_eq (c : DBusLogClient) (name : String) (id flags : UInt32) :
    ∃ emitted overread,
      let cat := { DBusLogCategory.new name id with flags := flags.toUInt64 }
      let table := (c.categoryRemove id).2.table.insert (cat.id, c.memory.length)
      c.categoryAdded name id flags = { (c.categoryRemove id).2 with
        memory := c.memory ++ [cat]
        table := table
        categories := sortedValues (c.memory ++ [cat]) table
        emitted := emitted
        overread := overread } := by
  unfold categoryAdded
  dsimp only
  rw [categoryRemove_memory (c.memory ++ [DBusLogCategory.new name id])]
  dsimp only
  rw [modify_last]
  exact ⟨_, _, rfl⟩

theorem Listening.categoryAdded (h : Listening c) (name : String) (hid : id ≠ 0) (flags : UInt32) :
    Listening (c.categoryAdded name id flags) ∧
      (c.categoryAdded name id flags).entryAt =
        Function.update c.entryAt id (some (name, flags.toUInt64)) := by
  have hremoved := h.toSound.categoryRemove id
  obtain ⟨hmemory, hhandling⟩ := categoryRemove_frame h.toSound id
  obtain ⟨emitted, overread, he⟩ := categoryAdded_eq c name id flags
  have howned := hremoved.owned
  rw [hmemory] at howned
  obtain ⟨howned, hview⟩ :=
    howned.push { DBusLogCategory.new name id with flags := flags.toUInt64 }
  rw [he]
  refine ⟨⟨Owned.sorted howned rfl, hhandling.trans h.handling⟩, ?_⟩
  have hgone := categoryRemove_entryAt h.toSound hid
  change view (c.categoryRemove id).2.memory _ = _ at hgone
  rw [hmemory] at hgone
  change view _ _ = _
  rw [hview, hgone]
  exact Function.update_idem _ _ _

theorem Listening.categoryRemoved (h : Listening c) (hid : id ≠ 0) :
    Listening (c.categoryRemoved id) ∧
      (c.categoryRemoved id).entryAt = Function.update c.entryAt id none :=
  ⟨⟨h.toSound.categoryRemove id, (categoryRemove_frame h.toSound id).2.trans h.handling⟩,
    categoryRemove_entryAt h.toSound hid⟩

/-- Flags change in the object of the id, which no other id shares. -/
theorem Listening.categoryFlagsChanged (h : Listening c) (hid : id ≠ 0) (flags : UInt32) :
    Listening (c.categoryFlagsChanged id flags) ∧
      (c.categoryFlagsChanged id flags).entryAt =
        Function.update c.entryAt id ((c.entryAt id).map fun e => (e.1, flags.toUInt64)) := by
  unfold DBusLogClient.categoryFlagsChanged
  cases hp : c.category id with
  | none =>
    refine ⟨h, ?_⟩
    have hlookup : c.table.lookup id = none := by
      unfold category at hp
      rw [if_pos hid] at hp
      exact Option.map_eq_none_iff.mp hp
    have hnone : c.entryAt id = none := by
      unfold entryAt
      rw [hlookup]
      rfl
    have hsame := Function.update_eq_self id c.entryAt
    rw [hnone] at hsame ⊢
    exact hsame.symm
  | some p =>
    obtain ⟨index, hindex, _⟩ := h.toSound.categoryIndex_isSome hp
    obtain ⟨_, hlookup⟩ := category_eq_some_iff.mp hp
    have hmem := KeyedTable.mem_of_lookup hlookup
    rw [hindex]
    refine ⟨⟨⟨h.owned.reflag p flags.toUInt64, h.shown, h.distinct⟩, h.handling⟩, ?_⟩
    · funext other
      by_cases hother : other = id
      · subst hother
        rw [Function.update_self]
        unfold entryAt
        change (c.table.lookup other).bind _ = ((c.table.lookup other).bind _).map _
        rw [hlookup, Option.bind_some, Option.bind_some]
        change ((c.memory.modify p _)[p]?).map _ = _
        rw [List.getElem?_modify_eq]
        cases c.memory[p]? with
        | none => rfl
        | some cat => rfl
      · rw [Function.update_of_ne hother]
        unfold entryAt
        change (c.table.lookup other).bind _ = _
        cases hentry : c.table.lookup other with
        | none => rfl
        | some e =>
          -- no two entries share an object
          have hne : p ≠ e.2 := by
            intro hp
            have hsame := h.owned.pointer_inj hmem (KeyedTable.mem_of_lookup hentry) hp
            exact hother ((KeyedTable.key_of_lookup hentry).symm.trans (congrArg Prod.fst hsame.symm))
          rw [Option.bind_some, Option.bind_some]
          change ((c.memory.modify p _)[e.2]?).map _ = _
          rw [List.getElem?_modify_ne _ _ hne]

/-- A signal of the proxy has the effect of its changes. -/
theorem Listening.handle (h : Listening c) (signal : BusSignal) (hsignal : signal.Proper) :
    Listening (c.handle signal) ∧ (c.handle signal).entryAt = replay c.entryAt signal.changes := by
  unfold DBusLogClient.handle
  rw [if_pos h.handling]
  cases signal with
  | categoryAdded name id flags => exact h.categoryAdded name hsignal flags
  | categoryRemoved id => exact h.categoryRemoved hsignal
  | categoryFlagsChanged id flags => exact h.categoryFlagsChanged hsignal flags
  | defaultLevelChanged level => exact ⟨h, rfl⟩
  | categoryLevelChanged id level => exact ⟨h, rfl⟩
  | backlogChanged backlog => exact ⟨h, rfl⟩

/-- All signals together have the effect of all their changes. -/
theorem Listening.handleAll (h : Listening c) {signals : List BusSignal}
    (hsignals : ∀ signal ∈ signals, signal.Proper) :
    Listening (signals.foldl DBusLogClient.handle c) ∧
      (signals.foldl DBusLogClient.handle c).entryAt =
        replay c.entryAt (signals.flatMap BusSignal.changes) :=
  ChangeLog.handled (fun _ signal h hsignal => h.handle signal hsignal) hsignals h

/-- Before the snapshot has come, signals do nothing. -/
theorem handleAll_deaf (h : c.handling = false) (signals : List BusSignal) :
    signals.foldl DBusLogClient.handle c = c := by
  induction signals with
  | nil => rfl
  | cons signal signals ih =>
    have he : c.handle signal = c := if_neg (by rw [h]; exact Bool.false_ne_true)
    rw [List.foldl_cons, he]
    exact ih

end Signals

/-! ## The snapshot -/

section Snapshot

variable {memory : List DBusLogCategory} {table : KeyedTable (Prod.fst : UInt32 × Nat → UInt32)}
  {c : DBusLogClient}

/-- What an entry of a snapshot says about the table by ids. -/
def entryChange (entry : String × UInt32 × UInt32 × Int32) : Change UInt32 (String × UInt64) :=
  .put entry.2.1 (entry.1, entry.2.2.1.toUInt64)

theorem decodeCategories_owned (h : Owned memory table)
    (entries : List (String × UInt32 × UInt32 × Int32)) :
    Owned (decodeCategories entries (memory, table)).1
        (decodeCategories entries (memory, table)).2 ∧
      view (decodeCategories entries (memory, table)).1
          (decodeCategories entries (memory, table)).2 =
        replay (view memory table) (entries.map entryChange) := by
  induction entries generalizing memory table with
  | nil => exact ⟨h, rfl⟩
  | cons entry entries ih =>
    obtain ⟨name, id, flags, level⟩ := entry
    obtain ⟨howned, hview⟩ := h.push { DBusLogCategory.new name id with
      flags := flags.toUInt64
      level := level.toUInt32 }
    obtain ⟨hrest, hrest'⟩ := ih howned
    refine ⟨hrest, ?_⟩
    rw [List.map_cons, replay_cons]
    exact hrest'.trans (congrArg (replay · _) hview)

theorem initFree_listening (h : Owned c.memory table) :
    Listening (c.initFree table) ∧ (c.initFree table).entryAt = view c.memory table := by
  unfold initFree becomeConnected
  dsimp only
  split
  · exact ⟨⟨Owned.sorted h rfl, rfl⟩, rfl⟩
  · exact ⟨⟨Owned.sorted h rfl, rfl⟩, rfl⟩

/-- The reply of `GetAll` or of `GetAll2` takes the place of all that was known. -/
theorem getAllFinished_listening (c : DBusLogClient) (version level backlog : Int32)
    (entries : List (String × UInt32 × UInt32 × Int32)) {values : List ReplyValue}
    (hvalues : values = [.int32 version, .int32 level, .categories entries] ∨
      values = [.int32 version, .int32 level, .categories entries, .int32 backlog]) :
    Listening (c.getAllFinished (.methodReturn values)) ∧
      (c.getAllFinished (.methodReturn values)).entryAt =
        replay (fun _ => none) (entries.map entryChange) := by
  obtain ⟨howned, hview⟩ := decodeCategories_owned (owned_empty c.memory) entries
  obtain rfl | rfl := hvalues
  · obtain ⟨hlistening, he⟩ := initFree_listening (c := { c with
      memory := (decodeCategories entries (c.memory, .empty)).1
      defaultLevel := level.toUInt32 }) howned
    exact ⟨hlistening, he.trans hview⟩
  · obtain ⟨hlistening, he⟩ := initFree_listening (c := { c with
      memory := (decodeCategories entries (c.memory, .empty)).1
      defaultLevel := level.toUInt32
      backlog := backlog }) howned
    exact ⟨hlistening, he.trans hview⟩

end Snapshot

end DBusLogClient

end DBusLog

import DBusLog.Client.Replica

/-!
# What the categories of a client are like

`Holds P` says that every pointer in the table of a client leads to an object with the property `P`,
which may depend on the id. Objects come from the signals and the snapshots that the client gets,
they stay where they are, and only their flags change. So the table has a property that is not about
flags whenever all that the client has been told has it.
-/

namespace DBusLog

/-- The object that a client makes for an entry of a snapshot. -/
def entryObject (entry : String × UInt32 × UInt32 × Int32) : DBusLogCategory :=
  { DBusLogCategory.new entry.1 entry.2.1 with
    flags := entry.2.2.1.toUInt64
    level := entry.2.2.2.toUInt32 }

/-- The category of which a signal tells, if it is a new one, has the property. -/
def BusSignal.Adds (P : UInt32 → DBusLogCategory → Prop) : BusSignal → Prop
  | .categoryAdded name id flags =>
    P id { DBusLogCategory.new name id with flags := flags.toUInt64 }
  | .categoryRemoved _ | .categoryFlagsChanged _ _ | .categoryLevelChanged _ _
  | .defaultLevelChanged _ | .backlogChanged _ => True

/-- The categories in a reply have the property. -/
def Reply.Lists (P : UInt32 → DBusLogCategory → Prop) : Reply → Prop
  | .methodReturn values => ∀ entries, .categories entries ∈ values →
    ∀ entry ∈ entries, P entry.2.1 (entryObject entry)
  | .error _ _ => True

namespace DBusLogClient

/-- Every pointer of the table leads to an object with the property. -/
def Holds (P : UInt32 → DBusLogCategory → Prop) (c : DBusLogClient) : Prop :=
  ∀ e ∈ c.table.values, ∃ cat, c.memory[e.2]? = some cat ∧ P e.1 cat

/-- The property is about names and levels. -/
def IgnoresFlags (P : UInt32 → DBusLogCategory → Prop) : Prop :=
  ∀ id cat flags, P id cat → P id { cat with flags := flags }

/-- Objects stay, but for their flags, and what is new in the table has the property. -/
structure Evolves (P : UInt32 → DBusLogCategory → Prop) (memory : List DBusLogCategory)
    (table : KeyedTable (Prod.fst : UInt32 × Nat → UInt32)) (memory' : List DBusLogCategory)
    (table' : KeyedTable (Prod.fst : UInt32 × Nat → UInt32)) : Prop where
  objects : ∀ (p : Nat) cat, memory[p]? = some cat →
    ∃ flags, memory'[p]? = some { cat with flags := flags }
  entries : ∀ e ∈ table'.values, e ∈ table.values ∨ ∃ cat, memory'[e.2]? = some cat ∧ P e.1 cat

section Evolves

variable {P : UInt32 → DBusLogCategory → Prop} {memory memory' memory'' : List DBusLogCategory}
  {table table' table'' : KeyedTable (Prod.fst : UInt32 × Nat → UInt32)} {c c' : DBusLogClient}
  {id flags : UInt32} {name : String}

theorem Evolves.refl (P : UInt32 → DBusLogCategory → Prop) (memory : List DBusLogCategory)
    (table : KeyedTable (Prod.fst : UInt32 × Nat → UInt32)) :
    Evolves P memory table memory table := ⟨fun _ cat hcat => ⟨cat.flags, hcat⟩, fun _ he => .inl he⟩

theorem Evolves.trans (hP : IgnoresFlags P) (h : Evolves P memory table memory' table')
    (h' : Evolves P memory' table' memory'' table'') :
    Evolves P memory table memory'' table'' := by
  refine ⟨fun p cat hcat => ?_, fun e he => ?_⟩
  · obtain ⟨flags, hcat'⟩ := h.objects p cat hcat
    obtain ⟨flags', hcat''⟩ := h'.objects p _ hcat'
    exact ⟨flags', hcat''⟩
  · obtain hold | hnew := h'.entries e he
    · obtain hold | ⟨cat, hcat, hadded⟩ := h.entries e hold
      · exact .inl hold
      · obtain ⟨flags, hcat'⟩ := h'.objects e.2 cat hcat
        exact .inr ⟨_, hcat', hP _ _ flags hadded⟩
    · exact .inr hnew

/-- The table has lost entries, at most. -/
theorem Evolves.of_subset (h : table'.values ⊆ table.values) :
    Evolves P memory table memory table' :=
  ⟨fun _ cat hcat => ⟨cat.flags, hcat⟩, fun _ he => .inl (h he)⟩

/-- A new object under its id. -/
theorem Evolves.push {cat : DBusLogCategory} (hcat : P cat.id cat) :
    Evolves P memory table (memory ++ [cat]) (table.insert (cat.id, memory.length)) := by
  refine ⟨fun p other hother => ?_, fun e he => ?_⟩
  · obtain ⟨hlt, _⟩ := List.getElem?_eq_some_iff.mp hother
    exact ⟨other.flags, (List.getElem?_append_left hlt).trans hother⟩
  · obtain rfl | ⟨hold, _⟩ := (KeyedTable.mem_insert_iff _).mp he
    · exact .inr ⟨cat, List.getElem?_concat_length, hcat⟩
    · exact .inl hold

theorem Holds.evolves (hP : IgnoresFlags P) (h : Holds P c)
    (he : Evolves P c.memory c.table c'.memory c'.table) : Holds P c' := by
  intro e hmem
  obtain hold | hnew := he.entries e hmem
  · obtain ⟨cat, hcat, hheld⟩ := h e hold
    obtain ⟨flags, hcat'⟩ := he.objects e.2 cat hcat
    exact ⟨_, hcat', hP _ _ flags hheld⟩
  · exact hnew

/-- The category that the client has under an id has the property. -/
theorem Holds.category (h : Holds P c) {p : Nat} (hp : c.category id = some p) :
    ∃ cat, c.memory[p]? = some cat ∧ P id cat := by
  obtain ⟨_, hlookup⟩ := category_eq_some_iff.mp hp
  exact h (id, p) (KeyedTable.mem_of_lookup hlookup)

/-! ## Signals -/

theorem categoryRemove_evolves (P : UInt32 → DBusLogCategory → Prop) (c : DBusLogClient)
    (id : UInt32) : (c.categoryRemove id).2.memory = c.memory ∧
      Evolves P c.memory c.table c.memory (c.categoryRemove id).2.table := by
  unfold categoryRemove
  split
  · exact ⟨rfl, .of_subset fun e he => ((KeyedTable.mem_erase_iff _).mp he).1⟩
  · exact ⟨rfl, Evolves.refl P _ _⟩

theorem categoryAdded_evolves (hP : IgnoresFlags P) (c : DBusLogClient)
    (hadds : P id { DBusLogCategory.new name id with flags := flags.toUInt64 }) :
    Evolves P c.memory c.table (c.categoryAdded name id flags).memory
      (c.categoryAdded name id flags).table := by
  obtain ⟨emitted, overread, he⟩ := categoryAdded_eq c name id flags
  obtain ⟨_, hremoved⟩ := categoryRemove_evolves P c id
  rw [he]
  exact hremoved.trans hP (Evolves.push hadds)

theorem categoryFlagsChanged_evolves (P : UInt32 → DBusLogCategory → Prop) (c : DBusLogClient)
    (id flags : UInt32) : Evolves P c.memory c.table (c.categoryFlagsChanged id flags).memory
      (c.categoryFlagsChanged id flags).table := by
  unfold categoryFlagsChanged
  split
  · rename_i p index _ _
    refine ⟨fun q cat hcat => ?_, fun _ he => .inl he⟩
    change ∃ flags', (c.memory.modify p _)[q]? = _
    by_cases hp : p = q
    · rw [hp, List.getElem?_modify_eq, hcat]
      exact ⟨_, rfl⟩
    · rw [List.getElem?_modify_ne _ _ hp, hcat]
      exact ⟨cat.flags, rfl⟩
  · exact Evolves.refl P _ _

theorem handle_evolves (hP : IgnoresFlags P) (c : DBusLogClient) {signal : BusSignal}
    (hsignal : signal.Adds P) :
    Evolves P c.memory c.table (c.handle signal).memory (c.handle signal).table := by
  unfold handle
  split
  · cases signal with
    | categoryAdded name id flags => exact categoryAdded_evolves hP c hsignal
    | categoryRemoved id =>
      obtain ⟨hmemory, hremoved⟩ := categoryRemove_evolves P c id
      rw [← hmemory] at hremoved
      rw [← hmemory]
      exact hremoved
    | categoryFlagsChanged id flags => exact categoryFlagsChanged_evolves P c id flags
    | _ => exact Evolves.refl P _ _
  · exact Evolves.refl P _ _

/-! ## Snapshots -/

theorem decodeCategories_evolves (hP : IgnoresFlags P)
    {entries : List (String × UInt32 × UInt32 × Int32)}
    (hentries : ∀ entry ∈ entries, P entry.2.1 (entryObject entry)) :
    Evolves P memory table (decodeCategories entries (memory, table)).1
      (decodeCategories entries (memory, table)).2 := by
  induction entries generalizing memory table with
  | nil => exact Evolves.refl P _ _
  | cons entry entries ih =>
    have hfirst : Evolves P memory table (memory ++ [entryObject entry])
        (table.insert (entry.2.1, memory.length)) :=
      Evolves.push (hentries entry List.mem_cons_self)
    exact hfirst.trans hP (ih fun other hother => hentries other (List.mem_cons_of_mem entry hother))

/-- The table of the init context takes the place of the old one. -/
theorem initFree_tables (c : DBusLogClient)
    (table : KeyedTable (Prod.fst : UInt32 × Nat → UInt32)) :
    (c.initFree table).memory = c.memory ∧ (c.initFree table).table = table := by
  unfold initFree becomeConnected
  dsimp only
  split
  · exact ⟨rfl, rfl⟩
  · exact ⟨rfl, rfl⟩

theorem getAllFinished_evolves (hP : IgnoresFlags P) (c : DBusLogClient) {reply : Reply}
    (hreply : reply.Lists P) :
    Evolves P c.memory c.table (c.getAllFinished reply).memory (c.getAllFinished reply).table := by
  -- the objects of the snapshot go into an empty table
  have hdecoded : ∀ {entries values}, reply = .methodReturn values → .categories entries ∈ values →
      Evolves P c.memory c.table (decodeCategories entries (c.memory, .empty)).1
        (decodeCategories entries (c.memory, .empty)).2 := by
    rintro entries values rfl hmem
    have hcleared : Evolves P c.memory c.table c.memory .empty :=
      .of_subset (List.nil_subset c.table.values)
    exact hcleared.trans hP (decodeCategories_evolves hP (hreply entries hmem))
  unfold getAllFinished
  split
  · obtain ⟨hmemory, htable⟩ := initFree_tables { c with
      memory := (decodeCategories _ (c.memory, .empty)).1
      defaultLevel := _ } (decodeCategories _ (c.memory, .empty)).2
    dsimp only
    rw [hmemory, htable]
    exact hdecoded rfl (by simp)
  · obtain ⟨hmemory, htable⟩ := initFree_tables { c with
      memory := (decodeCategories _ (c.memory, .empty)).1
      defaultLevel := _
      backlog := _ } (decodeCategories _ (c.memory, .empty)).2
    dsimp only
    rw [hmemory, htable]
    exact hdecoded rfl (by simp)
  · exact Evolves.refl P _ _

end Evolves

end DBusLogClient

end DBusLog

import DBusLog.Core.Chronicle

/-!
# The levels and the backlog

`SameSettings c₀ c` says that a core shows the same levels and the same backlog as it did once. For
each operation there is a condition on what it is given and on the core before it which decides
whether that stays so.
-/

namespace DBusLog

namespace DBusLogCore

/-- The level of the category that has the id. -/
def levelAt (c : DBusLogCore) (id : UInt32) : Option Level :=
  (c.categories.values.find? fun cat => cat.id = id).map (·.level)

/-- The level of the category that has the id; no level, when there is none. -/
def levelOf (c : DBusLogCore) (id : UInt32) : Level := (c.levelAt id).getD Level.undefined

/-- How many times the backlog has changed. -/
def backlogChanges (c : DBusLogCore) : Nat := c.signals.count .backlog

/-- No valid default level, or the one that is set already. -/
def KeepsDefaultLevel (c : DBusLogCore) (level : Level) : Prop :=
  level ≥ Level.always ∧ level < Level.count → c.defaultLevel = level

instance (c : DBusLogCore) (level : Level) : Decidable (c.KeepsDefaultLevel level) :=
  inferInstanceAs (Decidable (_ → _))

/-- The category is there already, or it gets no level. -/
def AddsNoLevel (c : DBusLogCore) (name : String) (level : Level) : Prop :=
  c.categories.lookup name = none → level ≥ Level.undefined ∧ level < Level.count →
    level = Level.undefined

instance (c : DBusLogCore) (name : String) (level : Level) : Decidable (c.AddsNoLevel name level) :=
  inferInstanceAs (Decidable (_ → _ → _))

/-- The backlog that is set already. -/
def KeepsBacklog (c : DBusLogCore) (backlog : Int32) : Prop :=
  c.backlog = DBusLogSender.normalizeBacklog backlog

instance (c : DBusLogCore) (backlog : Int32) : Decidable (c.KeepsBacklog backlog) :=
  inferInstanceAs (Decidable (_ = _))

/-- What `c₀` has shown is what `c` shows. Categories that have been created meanwhile have no
level. -/
structure SameSettings (c₀ c : DBusLogCore) : Prop where
  defaultLevel : c.defaultLevel = c₀.defaultLevel
  backlog : c.backlog = c₀.backlog
  backlogChanges : c.backlogChanges = c₀.backlogChanges
  levels : ∀ cat ∈ c.categories.values, cat.level = c₀.levelOf cat.id

/-- No level and not the backlog has changed, and no category is new. -/
structure Levelled (c c' : DBusLogCore) : Prop where
  defaultLevel : c'.defaultLevel = c.defaultLevel
  backlog : c'.backlog = c.backlog
  values : ∀ cat' ∈ c'.categories.values,
    ∃ cat ∈ c.categories.values, cat.id = cat'.id ∧ cat.level = cat'.level

section Levels

variable {c c₀ c' : DBusLogCore} {name : String} {level : Level}

theorem levelAt_of_mem (h : (c.categories.values.map (·.id)).Nodup) {cat : DBusLogCategory}
    (hcat : cat ∈ c.categories.values) : c.levelAt cat.id = some cat.level := by
  unfold levelAt
  cases hfind : c.categories.values.find? fun other => other.id = cat.id with
  | none => simpa using List.find?_eq_none.mp hfind cat hcat
  | some other =>
    have hid : other.id = cat.id := by simpa using List.find?_some hfind
    rw [List.inj_on_of_nodup_map h (List.mem_of_find?_eq_some hfind) hcat hid]
    rfl

theorem levelOf_of_mem (h : (c.categories.values.map (·.id)).Nodup) {cat : DBusLogCategory}
    (hcat : cat ∈ c.categories.values) : c.levelOf cat.id = cat.level := by
  unfold levelOf
  rw [levelAt_of_mem h hcat]
  rfl

/-- An id that no category has. -/
theorem levelOf_of_fresh {id : UInt32} (h : ∀ cat ∈ c.categories.values, cat.id ≠ id) :
    c.levelOf id = Level.undefined := by
  unfold levelOf levelAt
  rw [List.find?_eq_none.mpr fun cat hcat => by simpa using h cat hcat]
  rfl

theorem SameSettings.refl (h : (c.categories.values.map (·.id)).Nodup) : SameSettings c c :=
  ⟨rfl, rfl, rfl, fun _ hcat => (levelOf_of_mem h hcat).symm⟩

theorem Emits.backlogChanges {p : CoreSignal → Prop} (h : Emits p c c')
    (hp : ∀ signal, p signal → signal ≠ .backlog) : c'.backlogChanges = c.backlogChanges := by
  obtain ⟨log, hlog, hsignals⟩ := h
  have hnone : log.count .backlog = 0 :=
    List.count_eq_zero.mpr fun hmem => hp _ (hsignals _ hmem) rfl
  unfold DBusLogCore.backlogChanges
  rw [hlog, List.count_append, hnone, Nat.add_zero]

theorem SameSettings.levelled {p : CoreSignal → Prop} (h : SameSettings c₀ c) (hl : Levelled c c')
    (he : Emits p c c') (hp : ∀ signal, p signal → signal ≠ .backlog) : SameSettings c₀ c' where
  defaultLevel := hl.defaultLevel.trans h.defaultLevel
  backlog := hl.backlog.trans h.backlog
  backlogChanges := (he.backlogChanges hp).trans h.backlogChanges
  levels cat' hcat' := by
    obtain ⟨cat, hcat, hid, hlevel⟩ := hl.values cat' hcat'
    rw [← hid, ← hlevel]
    exact h.levels cat hcat

/-! ## Categories -/

theorem Levelled.of_eq (hlevel : c'.defaultLevel = c.defaultLevel) (hbacklog : c'.backlog = c.backlog)
    (htable : c'.categories = c.categories) : Levelled c c' :=
  ⟨hlevel, hbacklog, fun cat hcat => ⟨cat, htable ▸ hcat, rfl, rfl⟩⟩

/-- New flags for a category. -/
theorem Levelled.of_update {old : DBusLogCategory} (hold : c.categories.lookup name = some old)
    (flags : UInt64) (signal : CoreSignal) :
    Levelled c ({ c with
      categories := c.categories.insert { old with flags := flags } }.emit signal) := by
  refine ⟨rfl, rfl, fun other hother => ?_⟩
  obtain rfl | ⟨hmem, _⟩ := (KeyedTable.mem_insert_iff _).mp hother
  · exact ⟨old, KeyedTable.mem_of_lookup hold, rfl, rfl⟩
  · exact ⟨other, hmem, rfl, rfl⟩

theorem SameSettings.setCategoryEnabled (h : SameSettings c₀ c) (name : String) (enable : Bool) :
    SameSettings c₀ (c.setCategoryEnabled name enable) := by
  refine h.levelled (p := fun signal => ∃ cat mask, signal = .categoryFlags cat mask) ?_
    (setCategoryEnabled_emits c name enable) (by rintro _ ⟨cat, mask, rfl⟩ heq; cases heq)
  unfold DBusLogCore.setCategoryEnabled
  cases hlookup : c.categories.lookup name with
  | none => exact .of_eq rfl rfl rfl
  | some cat =>
    dsimp only
    by_cases hoff : cat.enabled ∧ ¬enable
    · rw [if_pos hoff]
      exact .of_update hlookup _ _
    · rw [if_neg hoff]
      by_cases hon : ¬cat.enabled ∧ enable
      · rw [if_pos hon]
        exact .of_update hlookup _ _
      · rw [if_neg hon]
        exact .of_eq rfl rfl rfl

theorem SameSettings.removeCategory (h : SameSettings c₀ c) (name : String) :
    SameSettings c₀ (c.removeCategory name).2 := by
  refine h.levelled (p := fun signal => ∃ cat, signal = .categoryRemoved cat) ?_
    (removeCategory_emits c name) (by rintro _ ⟨cat, rfl⟩ heq; cases heq)
  unfold DBusLogCore.removeCategory
  cases c.categories.lookup name with
  | none => exact .of_eq rfl rfl rfl
  | some cat =>
    refine ⟨rfl, rfl, fun other hother => ?_⟩
    exact ⟨other, ((KeyedTable.mem_erase_iff _).mp hother).1, rfl, rfl⟩

theorem SameSettings.removeAllCategories (h : SameSettings c₀ c) :
    SameSettings c₀ c.removeAllCategories := by
  refine h.levelled (p := fun signal => ∃ cat, signal = .categoryRemoved cat) ?_
    (removeAllCategories_emits c) (by rintro _ ⟨cat, rfl⟩ heq; cases heq)
  unfold DBusLogCore.removeAllCategories
  rw [emitAll_eq]
  split
  · split
    · exact ⟨rfl, rfl, fun _ hmem => (nomatch hmem)⟩
    · exact ⟨rfl, rfl, fun _ hmem => (nomatch hmem)⟩
  · exact .of_eq rfl rfl rfl

/-- A level that is set for a category shows, unless the category had it. -/
theorem SameSettings.setCategoryLevel_iff (h : SameSettings c₀ c) (name : String) (level : Level) :
    SameSettings c₀ (c.setCategoryLevel name level).2 ↔ c.KeepsLevel name level := by
  constructor
  · intro h' hlevel cat hcat
    by_contra hne
    unfold setCategoryLevel at h'
    rw [if_pos hlevel, hcat] at h'
    dsimp only at h'
    rw [if_pos hne] at h'
    have hnew := h'.levels { cat with level := level } ((KeyedTable.mem_insert_iff _).mpr (.inl rfl))
    have hold := h.levels cat (KeyedTable.mem_of_lookup hcat)
    exact hne (hold.trans hnew.symm)
  · intro hkeeps
    rw [setCategoryLevel_keeps hkeeps]
    exact h

/-- What a new category is like. -/
theorem newCategory_insert (hname : c.categories.lookup name = none) (level : Level)
    (flags : UInt64) :
    (c.newCategory name level flags).2.categories =
        c.categories.insert (c.newCategory name level flags).1 ∧
      (c.newCategory name level flags).2.defaultLevel = c.defaultLevel ∧
      (c.newCategory name level flags).2.backlog = c.backlog ∧
      (c.newCategory name level flags).1.level =
        if level ≥ Level.undefined ∧ level < Level.count then level else Level.undefined := by
  unfold newCategory
  rw [hname]
  refine ⟨rfl, rfl, rfl, ?_⟩
  by_cases hlevel : level ≥ Level.undefined ∧ level < Level.count
  · simp only [if_pos hlevel]
    split
    · rfl
    · rfl
  · simp only [if_neg hlevel]
    split
    · rfl
    · rfl

/-- A category shows its level, if it has one. `hfresh`: its id has not been in use. -/
theorem SameSettings.newCategory_iff (h : SameSettings c₀ c) (name : String) (level : Level)
    (flags : UInt64) (hfresh : c.categories.lookup name = none →
      c₀.levelOf (c.newCategory name level flags).1.id = Level.undefined) :
    SameSettings c₀ (c.newCategory name level flags).2 ↔ c.AddsNoLevel name level := by
  unfold AddsNoLevel
  cases hname : c.categories.lookup name with
  | some cat =>
    -- a known category stays as it is
    unfold newCategory
    rw [hname]
    exact iff_of_true h fun hnone => (nomatch hnone)
  | none =>
    obtain ⟨htable, hdefault, hbacklog, hlevel⟩ := newCategory_insert hname level flags
    have hchanges : (c.newCategory name level flags).2.backlogChanges = c₀.backlogChanges :=
      ((newCategory_emits c name level flags).backlogChanges
        (by rintro _ ⟨cat, rfl⟩ heq; cases heq)).trans h.backlogChanges
    have hnew := hfresh hname
    constructor
    · intro h' _ hvalid
      have hshown := h'.levels (c.newCategory name level flags).1 (by
        rw [htable]
        exact (KeyedTable.mem_insert_iff _).mpr (.inl rfl))
      rw [hlevel, if_pos hvalid, hnew] at hshown
      exact hshown
    · intro hnone
      refine ⟨hdefault.trans h.defaultLevel, hbacklog.trans h.backlog, hchanges, fun cat hcat => ?_⟩
      rw [htable] at hcat
      obtain rfl | ⟨hold, _⟩ := (KeyedTable.mem_insert_iff _).mp hcat
      · rw [hlevel, hnew]
        by_cases hvalid : level ≥ Level.undefined ∧ level < Level.count
        · rw [if_pos hvalid]
          exact hnone rfl hvalid
        · rw [if_neg hvalid]
      · exact h.levels cat hold

/-! ## The default level and the backlog -/

theorem SameSettings.setDefaultLevel_iff (h : SameSettings c₀ c) (level : Level) :
    SameSettings c₀ (c.setDefaultLevel level).2 ↔ c.KeepsDefaultLevel level := by
  unfold setDefaultLevel KeepsDefaultLevel
  by_cases hvalid : level ≥ Level.always ∧ level < Level.count
  · rw [if_pos hvalid]
    by_cases hsame : c.defaultLevel = level
    · rw [if_neg (not_not.mpr hsame)]
      exact iff_of_true h fun _ => hsame
    · rw [if_pos hsame]
      refine iff_of_false (fun h' => ?_) fun hkeeps => hsame (hkeeps hvalid)
      exact hsame (h.defaultLevel.trans h'.defaultLevel.symm)
  · rw [if_neg hvalid]
    exact iff_of_true h fun habsurd => absurd habsurd hvalid

theorem SameSettings.setBacklog_iff (h : SameSettings c₀ c)
    (ringSetMaxSize : BoundedRing DBusLogMessage → Int32 → BoundedRing DBusLogMessage)
    (backlog : Int32) :
    SameSettings c₀ (c.setBacklog ringSetMaxSize backlog) ↔ c.KeepsBacklog backlog := by
  constructor
  · intro h'
    obtain ⟨_, _, _, _, hbacklog⟩ := setBacklog_tables ringSetMaxSize c backlog
    exact h.backlog.trans (h'.backlog.symm.trans hbacklog)
  · intro hkeeps
    rw [show c.setBacklog ringSetMaxSize backlog = c from if_neg (not_not.mpr hkeeps)]
    exact h

end Levels

end DBusLogCore

end DBusLog

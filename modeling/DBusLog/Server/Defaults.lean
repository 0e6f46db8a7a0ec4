import DBusLog.Core.Defaults
import DBusLog.Server.Enabling
import DBusLog.Server.Journal
import DBusLog.Server.Twin

/-!
# Where the categories of a server come from

Each category of a server has been created by an operation, and has kept its name, its id and its
flag "enabled by default" since then. When the server has been started does not matter.
-/

namespace DBusLog

/-- The operation removes the category that has the name, if there is one. -/
def CategoryOp.removes (name : String) : CategoryOp → Bool
  | .removeCategory other => other = name
  | .removeAllCategories => true
  | _ => false

namespace DBusLogServer

variable {Cred Policy β : Type}

/-- The category `cat` has been created by one of the operations, as `made`, and not been removed
since. -/
def CreatedAs (lib : Libraries Cred Policy) (klass : DBusLogServerClass β)
    (s : DBusLogServer Policy β) (ops : List CategoryOp) (cat made : DBusLogCategory)
    (flags : UInt64) : Prop :=
  ∃ before level after, ops = before ++ .addCategory cat.name level flags :: after ∧
    (s.operateAll lib klass before).core.categories.lookup cat.name = none ∧
    ((s.operateAll lib klass before).core.newCategory cat.name level flags).1 = made ∧
    (∀ op ∈ after, op.removes cat.name = false) ∧ cat.Continues made

theorem CreatedAs.continues {lib : Libraries Cred Policy} {klass : DBusLogServerClass β}
    {s : DBusLogServer Policy β} {ops : List CategoryOp} {cat old made : DBusLogCategory}
    {flags : UInt64} (h : CreatedAs lib klass s ops old made flags) (hcat : cat.Continues old) :
    CreatedAs lib klass s ops cat made flags := by
  obtain ⟨before, level, after, hops, hnone, hmade, hafter, hcontinues⟩ := h
  rw [← hcat.name] at hops hnone hmade hafter
  exact ⟨before, level, after, hops, hnone, hmade, hafter, hcat.trans hcontinues⟩

/-- The flag "enabled by default" tells whether the category has been enabled when it was created,
if its creator has not asked for that flag. -/
theorem CreatedAs.byDefault {lib : Libraries Cred Policy} {klass : DBusLogServerClass β}
    {s : DBusLogServer Policy β} {ops : List CategoryOp} {cat made : DBusLogCategory}
    {flags : UInt64} (h : CreatedAs lib klass s ops cat made flags)
    (hflags : flags &&& CategoryFlag.enabledByDefault = 0) : cat.byDefault = made.enabled := by
  obtain ⟨before, level, after, _, hnone, rfl, _, hcontinues⟩ := h
  rw [hcontinues.byDefault]
  exact DBusLogCore.newCategory_byDefault hnone level hflags

/-- The categories of a table come from those of another one. -/
def Carried (t t' : KeyedTable DBusLogCategory.name) : Prop :=
  ∀ cat ∈ t'.values, ∃ old ∈ t.values, cat.Continues old ∧ (old.Regular → cat.Regular)

section Carried

variable {t : KeyedTable DBusLogCategory.name}

theorem Carried.refl (t : KeyedTable DBusLogCategory.name) : Carried t t :=
  fun cat hmem => ⟨cat, hmem, .refl cat, id⟩

theorem Carried.of_subset {t' : KeyedTable DBusLogCategory.name}
    (h : ∀ cat ∈ t'.values, cat ∈ t.values) : Carried t t' :=
  fun cat hmem => ⟨cat, h cat hmem, .refl cat, id⟩

/-- A category gets another level. -/
theorem Carried.relevel {old : DBusLogCategory} (hold : old ∈ t.values) (level : Level) :
    Carried t (t.insert { old with level := level }) := by
  intro cat hmem
  obtain rfl | ⟨hmem, _⟩ := (KeyedTable.mem_insert_iff t).mp hmem
  · exact ⟨old, hold, ⟨rfl, rfl, rfl⟩, fun h => ⟨h.id, h.narrow⟩⟩
  · exact ⟨cat, hmem, .refl cat, id⟩

theorem setCategoryLevel_carried (c : DBusLogCore) (name : String) (level : Level) :
    Carried c.categories (c.setCategoryLevel name level).2.categories := by
  unfold DBusLogCore.setCategoryLevel
  split
  · split
    next cat hlookup =>
      dsimp only
      split
      · exact .relevel (KeyedTable.mem_of_lookup hlookup) level
      · exact .refl _
    · exact .refl _
  · exact .refl _

/-- The categories after names have been switched. -/
theorem mem_setEach_iff (klass : DBusLogServerClass β) (s : DBusLogServer Policy β)
    (names : List String) (enable : Bool) {cat : DBusLogCategory} :
    cat ∈ (s.setEach klass names enable).core.categories.values ↔
      ∃ old ∈ s.core.categories.values,
        (if old.name ∈ names then old.switched enable else old) = cat := by
  obtain ⟨_, hmarked, _⟩ := setEach_marked (s := s) klass enable (· ∈ names) fun _ _ => Iff.rfl
  constructor
  · intro hmem
    have hlookup := KeyedTable.lookup_of_mem hmem
    rw [hmarked.table, Option.map_eq_some_iff] at hlookup
    obtain ⟨old, hold, he⟩ := hlookup
    rw [← KeyedTable.key_of_lookup hold] at he
    exact ⟨old, KeyedTable.mem_of_lookup hold, he⟩
  · rintro ⟨old, hold, rfl⟩
    have hlookup := hmarked.table old.name
    rw [KeyedTable.lookup_of_mem hold] at hlookup
    exact KeyedTable.mem_of_lookup hlookup

/-- Names are switched. -/
theorem setEach_carried (klass : DBusLogServerClass β) (s : DBusLogServer Policy β)
    (names : List String) (enable : Bool) :
    Carried s.core.categories (s.setEach klass names enable).core.categories := by
  intro cat hmem
  obtain ⟨old, hold, rfl⟩ := (mem_setEach_iff klass s names enable).mp hmem
  refine ⟨old, hold, (DBusLogCategory.alike_ite _ enable old).continues, fun h => ?_⟩
  split
  · exact h.switched enable
  · exact h

end Carried

section Operations

variable (lib : Libraries Cred Policy) (klass : DBusLogServerClass β) {s : DBusLogServer Policy β}

/-- Step lemma. A category has been there before, or has just been created. -/
theorem operate_values (op : CategoryOp) {cat : DBusLogCategory}
    (hmem : cat ∈ (s.operate lib klass op).core.categories.values) :
    (op.removes cat.name = false ∧ ∃ old ∈ s.core.categories.values,
        cat.Continues old ∧ (old.Regular → cat.Regular)) ∨
      ∃ level flags, op = .addCategory cat.name level flags ∧
        s.core.categories.lookup cat.name = none ∧
        (s.core.newCategory cat.name level flags).1 = cat := by
  cases op with
  | addCategory name level flags =>
    rw [show (s.operate lib klass (.addCategory name level flags)).core =
      (s.core.newCategory name level flags).2 from coreChanged_core _ _ _] at hmem
    obtain hold | ⟨rfl, hnone, hmade⟩ := DBusLogCore.newCategory_values hmem
    · exact .inl ⟨rfl, Carried.refl _ cat hold⟩
    · exact .inr ⟨level, flags, rfl, hnone, hmade⟩
  | removeCategory name =>
    rw [show (s.operate lib klass (.removeCategory name)).core = (s.core.removeCategory name).2 from
      coreChanged_core _ _ _] at hmem
    obtain ⟨hold, hname⟩ := DBusLogCore.removeCategory_values hmem
    exact .inl ⟨decide_eq_false (Ne.symm hname), Carried.refl _ cat hold⟩
  | removeAllCategories =>
    rw [show (s.operate lib klass .removeAllCategories).core = s.core.removeAllCategories from
      coreChanged_core _ _ _, DBusLogCore.removeAllCategories_values] at hmem
    cases hmem
  | setCategoryLevel name level =>
    rw [show (s.operate lib klass (.setCategoryLevel name level)).core =
      (s.core.setCategoryLevel name level).2 from coreChanged_core _ _ _] at hmem
    exact .inl ⟨rfl, setCategoryLevel_carried s.core name level cat hmem⟩
  | callSetCategoryLevel sender name level =>
    change cat ∈ (s.callSetCategoryLevel lib klass sender name level).2.core.categories.values
      at hmem
    unfold callSetCategoryLevel at hmem
    split at hmem
    · exact .inl ⟨rfl, Carried.refl _ cat hmem⟩
    · rw [coreChanged_core] at hmem
      exact .inl ⟨rfl, setCategoryLevel_carried s.core name level cat hmem⟩
  | callSetNamesEnabled sender names enable =>
    change cat ∈ (s.callSetNamesEnabled lib klass sender names enable).2.core.categories.values
      at hmem
    unfold callSetNamesEnabled at hmem
    split at hmem
    · exact .inl ⟨rfl, Carried.refl _ cat hmem⟩
    · exact .inl ⟨rfl, setEach_carried klass s _ enable cat hmem⟩
  | callSetPatternEnabled sender pattern enable =>
    change cat ∈ (s.callSetPatternEnabled lib klass sender pattern enable).2.core.categories.values
      at hmem
    unfold callSetPatternEnabled at hmem
    split at hmem
    · exact .inl ⟨rfl, Carried.refl _ cat hmem⟩
    · exact .inl ⟨rfl, setEach_carried klass s _ enable cat hmem⟩

/-- A category that was not there at first has been created. -/
theorem operateAll_created (hempty : s.core.categories.values = []) (ops : List CategoryOp) :
    ∀ cat ∈ (s.operateAll lib klass ops).core.categories.values, cat.Regular ∧
      ∃ made flags, CreatedAs lib klass s ops cat made flags := by
  induction ops using List.reverseRecOn with
  | nil =>
    intro cat hmem
    change cat ∈ s.core.categories.values at hmem
    rw [hempty] at hmem
    cases hmem
  | append_singleton ops op ih =>
    intro cat hmem
    rw [operateAll_append] at hmem
    obtain ⟨hkept, old, hold, hcontinues, hregular⟩ | ⟨level, flags, rfl, hnone, hmade⟩ :=
      operate_values lib klass op hmem
    · -- a category that has been there keeps its origin
      obtain ⟨hregular', made, flags, hcreated⟩ := ih old hold
      obtain ⟨before, level, after, rfl, hnone, hmade, hafter, hcontinues'⟩ :=
        hcreated.continues hcontinues
      refine ⟨hregular hregular', made, flags, before, level, after ++ [op], ?_, hnone, hmade, ?_,
        hcontinues'⟩
      · rw [List.append_assoc]
        rfl
      · intro op' hop'
        obtain hop' | hop' := List.mem_append.mp hop'
        · exact hafter op' hop'
        · rw [List.mem_singleton.mp hop']
          exact hkept
    · -- a new one has this operation as its origin
      have hregular := DBusLogCore.newCategory_regular hnone level flags
      rw [hmade] at hregular
      exact ⟨hregular, cat, flags, ops, level, [], rfl, hnone, hmade,
        fun _ hop => (nomatch hop), .refl cat⟩

/-! ## The start -/

theorem setEach_core (klass : DBusLogServerClass β) (s : DBusLogServer Policy β)
    (names : List String) (enable : Bool) : (s.setEach klass names enable).core =
      names.foldl (fun c name => c.setCategoryEnabled name enable) s.core := by
  unfold setEach
  induction names generalizing s with
  | nil => rfl
  | cons name names ih =>
    rw [List.foldl_cons, List.foldl_cons, ih, coreChanged_core]

/-- The core and the policy decide what an operation does to the core. -/
theorem operate_core {t : DBusLogServer Policy β} (hcore : s.core = t.core) (hbus : s.bus = t.bus)
    (hpolicy : s.policy = t.policy) (op : CategoryOp) :
    (s.operate lib klass op).core = (t.operate lib klass op).core := by
  have haccess : ∀ sender action,
      s.accessAllowed lib sender action = t.accessAllowed lib sender action := by
    intro sender action
    unfold accessAllowed
    rw [hbus, hpolicy]
  have hchange : ∀ f : DBusLogCore → DBusLogCore,
      (s.coreChanged klass (f s.core)).core = (t.coreChanged klass (f t.core)).core := by
    intro f
    rw [coreChanged_core, coreChanged_core, hcore]
  have heach : ∀ names enable,
      (s.setEach klass names enable).core = (t.setEach klass names enable).core := by
    intro names enable
    rw [setEach_core, setEach_core, hcore]
  cases op with
  | addCategory name level flags => exact hchange fun c => (c.newCategory name level flags).2
  | removeCategory name => exact hchange fun c => (c.removeCategory name).2
  | removeAllCategories => exact hchange fun c => c.removeAllCategories
  | setCategoryLevel name level => exact hchange fun c => (c.setCategoryLevel name level).2
  | callSetCategoryLevel sender name level =>
    change (s.callSetCategoryLevel lib klass sender name level).2.core =
      (t.callSetCategoryLevel lib klass sender name level).2.core
    unfold callSetCategoryLevel
    rw [haccess]
    split
    · exact hcore
    · exact hchange fun c => (c.setCategoryLevel name level).2
  | callSetNamesEnabled sender names enable =>
    change (s.callSetNamesEnabled lib klass sender names enable).2.core =
      (t.callSetNamesEnabled lib klass sender names enable).2.core
    unfold callSetNamesEnabled
    rw [haccess]
    split
    · exact hcore
    · exact heach names enable
  | callSetPatternEnabled sender pattern enable =>
    change (s.callSetPatternEnabled lib klass sender pattern enable).2.core =
      (t.callSetPatternEnabled lib klass sender pattern enable).2.core
    unfold callSetPatternEnabled
    rw [haccess]
    split
    · exact hcore
    · rw [hcore]
      exact heach _ enable

/-- What an operation leaves alone. -/
theorem operate_kept (P : β → Prop) (op : CategoryOp) : Kept P s (s.operate lib klass op) := by
  cases op with
  | callSetCategoryLevel sender name level => exact Kept.ite (Kept.coreChanged P _)
  | callSetNamesEnabled sender names enable => exact Kept.ite (Kept.setEach names enable)
  | callSetPatternEnabled sender pattern enable => exact Kept.ite (Kept.setEach _ enable)
  | _ => exact Kept.coreChanged P _

theorem operateAll_kept (P : β → Prop) (ops : List CategoryOp) :
    Kept P s (s.operateAll lib klass ops) := by
  induction ops generalizing s with
  | nil => exact .refl P s
  | cons op ops ih => exact (operate_kept lib klass P op).trans ih

theorem operateAll_core {t : DBusLogServer Policy β} (hcore : s.core = t.core)
    (hbus : s.bus = t.bus) (hpolicy : s.policy = t.policy) (ops : List CategoryOp) :
    (s.operateAll lib klass ops).core = (t.operateAll lib klass ops).core := by
  induction ops generalizing s t with
  | nil => exact hcore
  | cons op ops ih =>
    have hs := operate_kept lib klass (s := s) (fun _ => True) op
    have ht := operate_kept lib klass (s := t) (fun _ => True) op
    refine ih (operate_core lib klass hcore hbus hpolicy op) ?_ ?_
    · rw [hs.bus, ht.bus, hbus]
    · rw [hs.policy, ht.policy, hpolicy]

/-- The categories of a server that has been started at some time. -/
theorem start_operateAll_core (setup ops : List CategoryOp) :
    (((s.operateAll lib klass setup).start klass).operateAll lib klass ops).core =
      (s.operateAll lib klass (setup ++ ops)).core := by
  rw [operateAll_append]
  refine operateAll_core lib klass (start_core klass _) ?_ ?_ ops
  · unfold start
    split
    · rfl
    · rfl
  · unfold start
    split
    · rfl
    · rfl

end Operations

end DBusLogServer

end DBusLog

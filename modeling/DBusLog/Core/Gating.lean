import DBusLog.Core.Levels
import DBusLog.Lib.Epochs

/-!
# Which log calls are accepted

The answer of a core to a log call, computed from what has been done to the core so far: the last
valid default level, and for the category, if it has been created since it was last removed, what
it has been created with and what has been set since. The core keeps just that much: `CoreOp.gates`
is what one operation does to the gate of a category, on either side.
-/

namespace DBusLog

open Epochs

/-! ## The history -/

/-- A level that can be set as the default. -/
def Level.Settable (level : Level) : Prop := level ≥ Level.always ∧ level < Level.count

instance (level : Level) : Decidable level.Settable := inferInstanceAs (Decidable (_ ∧ _))

/-- A level that a category can have. -/
def Level.Valid (level : Level) : Prop := level ≥ Level.undefined ∧ level < Level.count

instance (level : Level) : Decidable level.Valid := inferInstanceAs (Decidable (_ ∧ _))

namespace CoreOp

/-- The operation asks for a category with the name. -/
def adds (name : String) : CoreOp → Bool
  | .newCategory other _ _ => other = name
  | _ => false

/-- After the operation there is no category with the name. -/
def removes (name : String) : CoreOp → Bool
  | .removeCategory other => other = name
  | .removeAllCategories => true
  | _ => false

/-- The category with the name is enabled, or disabled. -/
def enabling? (name : String) : CoreOp → Option Bool
  | .setCategoryEnabled other enable => if other = name then some enable else none
  | _ => none

/-- The category with the name is given a valid level. -/
def level? (name : String) : CoreOp → Option Level
  | .setCategoryLevel other level => if other = name ∧ level.Valid then some level else none
  | _ => none

/-- A valid default level is set. -/
def defaultLevel? : CoreOp → Option Level
  | .setDefaultLevel level => if level.Settable then some level else none
  | _ => none

end CoreOp

/-- How a category has been created, and what has been done since. -/
structure Creation where
  name : String
  level : Level
  flags : UInt64
  since : List CoreOp

namespace Creation

/-- Whether the category is enabled by now. -/
def enabledNow (made : Creation) : Bool :=
  latest (CoreOp.enabling? made.name) (made.flags &&& CategoryFlag.enabled ≠ 0) made.since

/-- The level that the category has by now. -/
def levelNow (made : Creation) : Level :=
  latest (CoreOp.level? made.name)
    (if made.level.Valid then made.level else Level.undefined) made.since

end Creation

/-- The creation of the category that has the name by now. Further requests to create it are of no
effect, until it is removed. -/
def creationOf (name : String) (ops : List CoreOp) : Option Creation :=
  match current (CoreOp.adds name) (CoreOp.removes name) ops with
  | .newCategory _ level flags :: since => some ⟨name, level, flags, since⟩
  | _ => none

/-- The default level by now. -/
def defaultLevelNow (ops : List CoreOp) : Level := latest CoreOp.defaultLevel? Level.info ops

/-- After these operations a log call is accepted, as soon as there is a sender. -/
def Admits (ops : List CoreOp) (level : Level) (cname : Option String) : Prop :=
  match cname.bind fun name => creationOf name ops with
  | some made => made.enabledNow ∧
      level ≤ if made.levelNow > Level.undefined then made.levelNow else defaultLevelNow ops
  | none => level ≤ defaultLevelNow ops

/-! ## The gate of a category -/

/-- The level of a category, and whether it is enabled. -/
abbrev Gate := Level × Bool

/-- The gate of the category that the operation creates, if there is none with the name. -/
def CoreOp.created? (name : String) : CoreOp → Option Gate
  | .newCategory other level flags =>
    if other = name then
      some (if level.Valid then level else Level.undefined, flags &&& CategoryFlag.enabled ≠ 0)
    else none
  | _ => none

/-- What an operation does to the gate of the category with the name. -/
def CoreOp.gates (name : String) (op : CoreOp) : Option Gate → Option Gate
  | some (level, enabled) =>
    if op.removes name then none
    else some ((op.level? name).getD level, (op.enabling? name).getD enabled)
  | none => op.created? name

def Creation.gate (made : Creation) : Gate := (made.levelNow, made.enabledNow)

def DBusLogCategory.gate (cat : DBusLogCategory) : Gate := (cat.level, cat.enabled)

section History

variable {name : String} {ops : List CoreOp} {op : CoreOp}

/-- The epoch of a category begins with its creation. -/
theorem creationOf_cases (name : String) (ops : List CoreOp) :
    (current (CoreOp.adds name) (CoreOp.removes name) ops = [] ∧ creationOf name ops = none) ∨
    ∃ level flags since,
      current (CoreOp.adds name) (CoreOp.removes name) ops =
          .newCategory name level flags :: since ∧
        creationOf name ops = some ⟨name, level, flags, since⟩ := by
  unfold creationOf
  cases hopen : current (CoreOp.adds name) (CoreOp.removes name) ops with
  | nil => exact .inl ⟨rfl, rfl⟩
  | cons first since =>
    have hadds := opens_of_current hopen
    cases first with
    | newCategory other level flags =>
      obtain rfl : other = name := of_decide_eq_true hadds
      exact .inr ⟨level, flags, since, rfl, rfl⟩
    | _ => cases hadds

/-- An operation that leaves no category with the name does not create one. -/
theorem created?_of_removes (h : op.removes name = true) : op.created? name = none := by
  cases op with
  | newCategory _ _ _ => cases h
  | _ => rfl

/-- One more operation changes the gate of a category as `CoreOp.gates` says. -/
theorem creationOf_concat (name : String) (ops : List CoreOp) (op : CoreOp) :
    (creationOf name (ops ++ [op])).map Creation.gate =
      op.gates name ((creationOf name ops).map Creation.gate) := by
  cases hremoves : op.removes name with
  | true =>
    have hnone : creationOf name (ops ++ [op]) = none := by
      unfold creationOf
      rw [current_concat_closes hremoves]
    rw [hnone]
    cases hgate : (creationOf name ops).map Creation.gate with
    | none => exact (created?_of_removes hremoves).symm
    | some gate => exact (if_pos hremoves).symm
  | false =>
    have hcurrent := current_concat (CoreOp.adds name) ops hremoves
    obtain ⟨hopen, hnone⟩ | ⟨level, flags, since, hopen, hmade⟩ := creationOf_cases name ops
    · rw [if_pos hopen] at hcurrent
      rw [hnone]
      unfold creationOf
      rw [hcurrent]
      -- the operation opens the epoch, or there still is none
      cases op with
      | newCategory other level flags =>
        by_cases hname : other = name
        · subst hname
          simp [CoreOp.adds, CoreOp.gates, CoreOp.created?, Creation.gate, Creation.levelNow,
            Creation.enabledNow]
        · simp [CoreOp.adds, CoreOp.gates, CoreOp.created?, hname]
      | _ => rfl
    · rw [hopen, if_neg (List.cons_ne_nil _ _), List.cons_append] at hcurrent
      rw [hmade]
      unfold creationOf
      rw [hcurrent]
      change some (Creation.gate ⟨name, level, flags, since ++ [op]⟩) = if _ then _ else _
      rw [if_neg (by simp [hremoves])]
      unfold Creation.gate Creation.levelNow Creation.enabledNow
      rw [latest_concat, latest_concat]

theorem defaultLevelNow_concat (ops : List CoreOp) (op : CoreOp) :
    defaultLevelNow (ops ++ [op]) = op.defaultLevel?.getD (defaultLevelNow ops) :=
  latest_concat _ _ _ _

/-- An operation that is about senders, or about no category. -/
theorem gates_eq_self (hremoves : op.removes name = false) (hlevel : op.level? name = none)
    (henabling : op.enabling? name = none) (hcreated : op.created? name = none)
    (gate : Option Gate) : op.gates name gate = gate := by
  cases gate with
  | none => exact hcreated
  | some gate =>
    unfold CoreOp.gates
    rw [hremoves, hlevel, henabling]
    rfl

end History

/-! ## The table -/

/-- The gate of the category that a table has under a name. -/
def gateIn (categories : KeyedTable DBusLogCategory.name) (name : String) : Option Gate :=
  (categories.lookup name).map DBusLogCategory.gate

section Table

variable {categories : KeyedTable DBusLogCategory.name} {cat : DBusLogCategory} {name : String}

theorem gateIn_of_lookup (h : categories.lookup name = some cat) :
    gateIn categories name = some cat.gate := by
  unfold gateIn
  rw [h]
  rfl

/-- There is no gate to change under a name that the table does not have. -/
theorem unknown_gate {other : String} (h : categories.lookup other = none) (name : String)
    (f : Gate → Gate) : (if other = name then (gateIn categories name).map f
      else gateIn categories name) = gateIn categories name := by
  split
  next hname =>
    unfold gateIn
    rw [← hname, h]
    rfl
  next => rfl

theorem gateIn_insert (categories : KeyedTable DBusLogCategory.name) (cat : DBusLogCategory)
    (name : String) : gateIn (categories.insert cat) name =
      if cat.name = name then some cat.gate else gateIn categories name := by
  unfold gateIn
  split
  next hname =>
    rw [← hname, KeyedTable.lookup_insert]
    rfl
  next hname => rw [KeyedTable.lookup_insert_ne _ (Ne.symm hname)]

theorem gateIn_erase (categories : KeyedTable DBusLogCategory.name) (erased name : String) :
    gateIn (categories.erase erased) name =
      if erased = name then none else gateIn categories name := by
  unfold gateIn
  split
  next hname =>
    rw [hname, KeyedTable.lookup_erase]
    rfl
  next hname => rw [KeyedTable.lookup_erase_ne _ (Ne.symm hname)]

theorem enabled_set (flags : UInt64) :
    (flags ||| CategoryFlag.enabled) &&& CategoryFlag.enabled ≠ 0 := by
  intro hzero
  have hbit := congrArg (fun w : UInt64 => w.toBitVec.getLsbD 0) hzero
  simp [CategoryFlag.enabled] at hbit

theorem enabled_clear (flags : UInt64) :
    (flags &&& ~~~CategoryFlag.enabled) &&& CategoryFlag.enabled = 0 := by
  rw [UInt64.and_assoc, UInt64.and_comm (~~~CategoryFlag.enabled), UInt64.and_not_self,
    UInt64.and_zero]

/-- The masks let the flag through, and the flag for "enabled by default" is another one. -/
theorem enabled_created (flags : UInt64) :
    flags &&& CategoryFlag.mask &&& CategoryFlag.enabled = flags &&& CategoryFlag.enabled ∧
      (flags &&& CategoryFlag.mask ||| CategoryFlag.enabledByDefault) &&& CategoryFlag.enabled =
        flags &&& CategoryFlag.enabled := by
  have hmask : flags &&& CategoryFlag.mask &&& CategoryFlag.enabled =
      flags &&& CategoryFlag.enabled := UInt64.and_assoc _ _ _
  refine ⟨hmask, ?_⟩
  apply UInt64.toBitVec_inj.mp
  change (flags.toBitVec &&& CategoryFlag.mask.toBitVec ||| CategoryFlag.enabledByDefault.toBitVec)
    &&& CategoryFlag.enabled.toBitVec = (flags &&& CategoryFlag.enabled).toBitVec
  rw [BitVec.and_or_distrib_right, ← hmask]
  exact BitVec.or_zero

end Table

namespace DBusLogCore

section Operations

/-- What a new category is called, and its flag for "enabled". -/
theorem newCategory_enabled {c : DBusLogCore} {name : String}
    (hlookup : c.categories.lookup name = none) (level : Level) (flags : UInt64) :
    (c.newCategory name level flags).1.name = name ∧
      (c.newCategory name level flags).1.flags &&& CategoryFlag.enabled =
        flags &&& CategoryFlag.enabled := by
  obtain ⟨hmasked, hdefault⟩ := enabled_created flags
  unfold newCategory
  rw [hlookup]
  dsimp only
  by_cases henabled : flags &&& CategoryFlag.enabled ≠ 0
  · rw [if_pos henabled]
    split
    · exact ⟨rfl, hdefault⟩
    · exact ⟨rfl, hdefault⟩
  · rw [if_neg henabled]
    split
    · exact ⟨rfl, hmasked⟩
    · exact ⟨rfl, hmasked⟩

variable {c : DBusLogCore} (name : String)

theorem newCategory_gates (other : String) (level : Level) (flags : UInt64) :
    gateIn (c.newCategory other level flags).2.categories name =
      (CoreOp.newCategory other level flags).gates name (gateIn c.categories name) := by
  cases hlookup : c.categories.lookup other with
  | some cat =>
    -- the name is in use: nothing is created, and the gate does not depend on the request
    rw [show (c.newCategory other level flags).2 = c by unfold newCategory; rw [hlookup]]
    cases hgate : gateIn c.categories name with
    | some gate => rfl
    | none =>
      have hname : other ≠ name := by
        intro heq
        rw [heq] at hlookup
        unfold gateIn at hgate
        rw [hlookup] at hgate
        cases hgate
      exact (if_neg hname).symm
  | none =>
    obtain ⟨htable, _, _, hlevel⟩ := newCategory_insert hlookup level flags
    obtain ⟨hname, henabled⟩ := newCategory_enabled hlookup level flags
    rw [htable, gateIn_insert, hname]
    by_cases heq : other = name
    · subst heq
      rw [if_pos rfl, show gateIn c.categories other = none by unfold gateIn; rw [hlookup]; rfl]
      refine Eq.trans ?_ (if_pos rfl).symm
      unfold DBusLogCategory.gate DBusLogCategory.enabled
      rw [hlevel, henabled]
      rfl
    · rw [if_neg heq]
      cases gateIn c.categories name with
      | some gate => rfl
      | none => exact (if_neg heq).symm

theorem removeCategory_gates (other : String) :
    gateIn (c.removeCategory other).2.categories name =
      (CoreOp.removeCategory other).gates name (gateIn c.categories name) := by
  have herase : gateIn (c.removeCategory other).2.categories name =
      if other = name then none else gateIn c.categories name := by
    unfold removeCategory
    cases hlookup : c.categories.lookup other with
    | some cat => exact gateIn_erase _ _ _
    | none =>
      change gateIn c.categories name = _
      by_cases hname : other = name
      · rw [if_pos hname]
        unfold gateIn
        rw [← hname, hlookup]
        rfl
      · rw [if_neg hname]
  rw [herase]
  cases gateIn c.categories name with
  | none => exact ite_self _
  | some gate =>
    change _ = if decide (other = name) = true then none else some gate
    simp only [decide_eq_true_eq]

theorem removeAllCategories_gates :
    gateIn c.removeAllCategories.categories name =
      CoreOp.removeAllCategories.gates name (gateIn c.categories name) := by
  have hempty : gateIn c.removeAllCategories.categories name = none := by
    unfold removeAllCategories
    rw [emitAll_eq]
    by_cases hany : c.categories.values.length > 0
    · rw [if_pos hany]
      split
      · rfl
      · rfl
    · rw [if_neg hany]
      unfold gateIn KeyedTable.lookup
      rw [List.eq_nil_of_length_eq_zero (Nat.eq_zero_of_not_pos hany)]
      rfl
  rw [hempty]
  cases gateIn c.categories name with
  | none => rfl
  | some gate => rfl

theorem setCategoryEnabled_gates (other : String) (enable : Bool) :
    gateIn (c.setCategoryEnabled other enable).categories name =
      (CoreOp.setCategoryEnabled other enable).gates name (gateIn c.categories name) := by
  have hset : gateIn (c.setCategoryEnabled other enable).categories name =
      if other = name then (gateIn c.categories name).map fun gate => (gate.1, enable)
      else gateIn c.categories name := by
    unfold setCategoryEnabled
    cases hlookup : c.categories.lookup other with
    | none => exact (unknown_gate hlookup name _).symm
    | some cat =>
      have hgate := gateIn_of_lookup hlookup
      have hkey := KeyedTable.key_of_lookup hlookup
      have hreplaced : ∀ flags : UInt64, decide (flags &&& CategoryFlag.enabled ≠ 0) = enable →
          gateIn (c.categories.insert { cat with flags := flags }) name =
            if other = name then (gateIn c.categories name).map fun gate => (gate.1, enable)
            else gateIn c.categories name := by
        intro flags hflags
        rw [gateIn_insert, hkey]
        split
        next hname =>
          rw [← hname, hgate, ← hflags]
          rfl
        next => rfl
      dsimp only
      by_cases hoff : cat.enabled ∧ ¬enable
      · rw [if_pos hoff]
        refine hreplaced _ ?_
        rw [enabled_clear, Bool.eq_false_of_not_eq_true hoff.2]
        rfl
      · rw [if_neg hoff]
        by_cases hon : ¬cat.enabled ∧ enable
        · rw [if_pos hon]
          refine hreplaced _ ?_
          rw [hon.2]
          exact decide_eq_true (enabled_set cat.flags)
        · rw [if_neg hon]
          -- the category is as it shall be
          have hsame : cat.enabled = enable := by
            cases hcat : cat.enabled <;> cases enable <;> simp_all
          change gateIn c.categories name = _
          split
          next hname =>
            rw [← hname, hgate, ← hsame]
            rfl
          next => rfl
  rw [hset]
  cases gateIn c.categories name with
  | none => exact ite_self _
  | some gate =>
    change _ = some (gate.1, (if other = name then some enable else none).getD gate.2)
    split
    next => rfl
    next => rfl

theorem setCategoryLevel_gates (other : String) (level : Level) :
    gateIn (c.setCategoryLevel other level).2.categories name =
      (CoreOp.setCategoryLevel other level).gates name (gateIn c.categories name) := by
  have hset : gateIn (c.setCategoryLevel other level).2.categories name =
      if other = name ∧ level.Valid then (gateIn c.categories name).map fun gate => (level, gate.2)
      else gateIn c.categories name := by
    unfold setCategoryLevel
    by_cases hvalid : level ≥ Level.undefined ∧ level < Level.count
    · rw [if_pos hvalid]
      simp only [show level.Valid from hvalid, and_true]
      cases hlookup : c.categories.lookup other with
      | none => exact (unknown_gate hlookup name _).symm
      | some cat =>
        have hgate := gateIn_of_lookup hlookup
        have hkey := KeyedTable.key_of_lookup hlookup
        dsimp only
        by_cases hlevel : cat.level ≠ level
        · rw [if_pos hlevel]
          change gateIn (c.categories.insert _) name = _
          rw [gateIn_insert, hkey]
          split
          next hname =>
            rw [← hname, hgate]
            rfl
          next => rfl
        · rw [if_neg hlevel]
          split
          next hname =>
            rw [← hname, hgate, ← not_not.mp hlevel]
            rfl
          next => rfl
    · rw [if_neg hvalid, if_neg fun h => hvalid h.2]
  rw [hset]
  cases gateIn c.categories name with
  | none => exact ite_self _
  | some gate =>
    change _ = some ((if other = name ∧ level.Valid then some level else none).getD gate.1, gate.2)
    split
    next => rfl
    next => rfl

/-- Logging changes no table. -/
theorem logMessage_tables (h : Sound [] c) (ctx : LogContext) (level : Level)
    (cname : Option String) {msg : DBusLogMessage} (hcategory : msg.category = 0) :
    (c.logMessage ctx level cname msg).2.categories = c.categories ∧
      (c.logMessage ctx level cname msg).2.defaultLevel = c.defaultLevel := by
  obtain hrejected | ⟨_, hcall⟩ := logMessage_cases h ctx level cname hcategory
  · rw [hrejected]
    exact ⟨rfl, rfl⟩
  · exact ⟨hcall.tables.categories, hcall.tables.defaultLevel⟩

theorem setDefaultLevel_level (level : Level) :
    (c.setDefaultLevel level).2.categories = c.categories ∧
      (c.setDefaultLevel level).2.defaultLevel =
        (CoreOp.setDefaultLevel level).defaultLevel?.getD c.defaultLevel := by
  change _ ∧ _ = (if level.Settable then some level else none).getD c.defaultLevel
  unfold setDefaultLevel
  by_cases hvalid : level ≥ Level.always ∧ level < Level.count
  · rw [if_pos hvalid, if_pos (show level.Settable from hvalid)]
    by_cases hsame : c.defaultLevel ≠ level
    · rw [if_pos hsame]
      exact ⟨rfl, rfl⟩
    · rw [if_neg hsame]
      exact ⟨rfl, not_not.mp hsame⟩
  · rw [if_neg hvalid, if_neg (show ¬level.Settable from hvalid)]
    exact ⟨rfl, rfl⟩

/-- The default level and the gates after an operation. -/
structure Gated (op : CoreOp) (c c' : DBusLogCore) : Prop where
  defaultLevel : c'.defaultLevel = op.defaultLevel?.getD c.defaultLevel
  gates : ∀ name, gateIn c'.categories name = op.gates name (gateIn c.categories name)

/-- An operation that is not about categories or levels. -/
theorem Gated.of_same {op : CoreOp} {c' : DBusLogCore} (hdefault : op.defaultLevel? = none)
    (hgates : ∀ name gate, op.gates name gate = gate) (hcategories : c'.categories = c.categories)
    (hlevel : c'.defaultLevel = c.defaultLevel) : Gated op c c' := by
  refine ⟨?_, fun name => ?_⟩
  · rw [hdefault]
    exact hlevel
  · rw [hgates, hcategories]

end Operations

/-- Every operation does to the gates what it says. -/
theorem step_gated {c c' : DBusLogCore} {op : CoreOp} (h : Sound [] c)
    (hs : c.step op = some c') : Gated op c c' := by
  cases op with
  | log ctx level cname message =>
    cases hs
    have hzero : (DBusLogMessage.new message).category = 0 := by cases message <;> rfl
    obtain ⟨hcategories, hlevel⟩ := logMessage_tables h ctx level cname hzero
    exact .of_same rfl (fun _ => gates_eq_self rfl rfl rfl rfl) hcategories hlevel
  | logv ctx level cname formatted =>
    cases hs
    have hzero : (DBusLogMessage.newVa formatted).category = 0 := by cases formatted <;> rfl
    obtain ⟨hcategories, hlevel⟩ := logMessage_tables h ctx level cname hzero
    exact .of_same rfl (fun _ => gates_eq_self rfl rfl rfl rfl) hcategories hlevel
  | setDefaultLevel level =>
    cases hs
    obtain ⟨hcategories, hlevel⟩ := setDefaultLevel_level (c := c) level
    refine ⟨hlevel, fun name => ?_⟩
    rw [gates_eq_self rfl rfl rfl rfl, hcategories]
  | newCategory other level flags =>
    cases hs
    refine ⟨?_, fun name => newCategory_gates name other level flags⟩
    unfold newCategory
    split
    · rfl
    · rfl
  | removeCategory other =>
    cases hs
    refine ⟨?_, fun name => removeCategory_gates name other⟩
    unfold removeCategory
    split
    · rfl
    · rfl
  | removeAllCategories =>
    cases hs
    refine ⟨?_, fun name => removeAllCategories_gates name⟩
    unfold removeAllCategories
    rw [emitAll_eq]
    split
    · split
      · rfl
      · rfl
    · rfl
  | setCategoryEnabled other enable =>
    cases hs
    refine ⟨?_, fun name => setCategoryEnabled_gates name other enable⟩
    unfold setCategoryEnabled
    split
    · split
      split
      · rfl
      · rfl
    · rfl
  | setCategoryLevel other level =>
    cases hs
    refine ⟨?_, fun name => setCategoryLevel_gates name other level⟩
    unfold setCategoryLevel
    split
    · split
      · dsimp only
        split
        · rfl
        · rfl
      · rfl
    · rfl
  | newSender name pipe =>
    cases hs
    have hs := (newSender_settings c name pipe).1
    exact .of_same rfl (fun _ => gates_eq_self rfl rfl rfl rfl) (settings_categories hs)
      (settings_defaultLevel hs)
  | removeSender i =>
    cases hs
    have hs := (removeSender_settings c i).1
    exact .of_same rfl (fun _ => gates_eq_self rfl rfl rfl rfl) (settings_categories hs)
      (settings_defaultLevel hs)
  | sender i a =>
    obtain ⟨_, s', _, _, _, rfl⟩ := step_callback hs
    have hs := (runSender_settings c i fun _ => s').1
    exact .of_same rfl (fun _ => gates_eq_self rfl rfl rfl rfl) (settings_categories hs)
      (settings_defaultLevel hs)

/-! ## Runs -/

/-- The core keeps what counts of its history. -/
structure Recalls (ops : List CoreOp) (c : DBusLogCore) : Prop where
  sound : Sound [] c
  defaultLevel : c.defaultLevel = defaultLevelNow ops
  gates : ∀ name, gateIn c.categories name = (creationOf name ops).map Creation.gate

section Runs

variable {c c' : DBusLogCore} {ops : List CoreOp} {op : CoreOp}

theorem new_recalls (backlog : Int32) (removedHandlers : Bool) :
    Recalls [] (new backlog removedHandlers) :=
  ⟨new_sound backlog removedHandlers, rfl, fun _ => rfl⟩

theorem Recalls.step (h : Recalls ops c) (hs : c.step op = some c') : Recalls (ops ++ [op]) c' := by
  have hgated := step_gated h.sound hs
  refine ⟨step_sound h.sound hs, ?_, fun name => ?_⟩
  · rw [hgated.defaultLevel, h.defaultLevel, defaultLevelNow_concat]
  · rw [hgated.gates, h.gates, creationOf_concat]

theorem run_recalls {backlog : Int32} {removedHandlers : Bool}
    (hrun : (new backlog removedHandlers).run ops = some c) : Recalls ops c := by
  induction ops using List.reverseRecOn generalizing c with
  | nil =>
    cases hrun
    exact new_recalls backlog removedHandlers
  | append_singleton ops op ih =>
    obtain ⟨before, hbefore, hs⟩ := Runs.run_concat_iff.mp hrun
    exact (ih hbefore).step hs

/-- A default level has always been set. -/
theorem defaultLevelNow_settable (ops : List CoreOp) : (defaultLevelNow ops).Settable := by
  induction ops using List.reverseRecOn with
  | nil => exact (by decide : Level.info.Settable)
  | append_singleton ops op ih =>
    rw [defaultLevelNow_concat]
    cases hop : op.defaultLevel? with
    | none => exact ih
    | some level =>
      cases op with
      | setDefaultLevel other =>
        obtain ⟨hvalid, hlevel⟩ := Option.ite_none_right_eq_some.mp hop
        cases hlevel
        exact hvalid
      | _ => cases hop

/-- The level of a category is one that a category can have. -/
theorem levelNow_valid (made : Creation) : made.levelNow.Valid := by
  unfold Creation.levelNow
  induction made.since using List.reverseRecOn with
  | nil =>
    rw [latest_nil]
    split
    next hvalid => exact hvalid
    next => exact (by decide : Level.undefined.Valid)
  | append_singleton ops op ih =>
    rw [latest_concat]
    cases hop : op.level? made.name with
    | none => exact ih
    | some level =>
      cases op with
      | setCategoryLevel other level' =>
        obtain ⟨⟨_, hvalid⟩, hlevel⟩ := Option.ite_none_right_eq_some.mp hop
        cases hlevel
        exact hvalid
      | _ => cases hop

/-- `dbus_log_core_should_log` decides by the history. -/
theorem Recalls.shouldLog_iff (h : Recalls ops c) (hsenders : c.registered ≠ []) (level : Level)
    (cname : Option String) : (c.shouldLog level cname).1 = true ↔ Admits ops level cname := by
  have hlength : c.registered.length ≠ 0 := fun hzero =>
    hsenders (List.eq_nil_of_length_eq_zero hzero)
  -- a default level of no effect cannot be set
  have hset : (c.defaultLevel ≤ Level.undefined ∨ level ≤ c.defaultLevel) ↔
      level ≤ defaultLevelNow ops := by
    rw [h.defaultLevel]
    refine or_iff_right fun hundefined => ?_
    exact absurd (UInt32.le_trans (defaultLevelNow_settable ops).1 hundefined)
      (by decide : ¬Level.always ≤ Level.undefined)
  have hgate : (cname.bind c.categories.lookup).map DBusLogCategory.gate =
      (cname.bind fun name => creationOf name ops).map Creation.gate := by
    cases cname with
    | none => rfl
    | some name => exact h.gates name
  unfold shouldLog Admits
  rw [if_pos hlength]
  dsimp only
  cases hcat : cname.bind c.categories.lookup with
  | none =>
    rw [hcat] at hgate
    rw [Option.map_eq_none_iff.mp hgate.symm]
    exact decide_eq_true_iff.trans hset
  | some cat =>
    rw [hcat] at hgate
    obtain ⟨made, hmade, hsame⟩ := Option.map_eq_some_iff.mp hgate.symm
    rw [hmade]
    obtain ⟨hlevel, henabled⟩ := Prod.mk.inj hsame
    dsimp only
    rw [hlevel, henabled]
    by_cases hcatEnabled : cat.enabled = true
    · rw [if_pos hcatEnabled, and_iff_right hcatEnabled]
      by_cases hown : cat.level > Level.undefined
      · rw [if_pos hown, if_pos hown]
        exact decide_eq_true_iff
      · rw [if_neg hown, if_neg hown]
        exact decide_eq_true_iff.trans hset
    · rw [if_neg hcatEnabled]
      exact iff_of_false (fun habsurd => nomatch habsurd) fun hboth => hcatEnabled hboth.1

/-- A log call is accepted if and only if the category is to be logged. -/
theorem logMessage_accepted (c : DBusLogCore) (ctx : LogContext) (level : Level)
    (cname : Option String) (msg : DBusLogMessage) :
    (c.logMessage ctx level cname msg).1 = (c.shouldLog level cname).1 := by
  unfold logMessage
  obtain ⟨accepted, cat⟩ := c.shouldLog level cname
  cases accepted with
  | false => rfl
  | true => rfl

theorem lt_count_of_admits {level : Level} {cname : Option String} (h : Admits ops level cname) :
    level < Level.count := by
  unfold Admits at h
  cases hmade : cname.bind fun name => creationOf name ops with
  | none =>
    rw [hmade] at h
    exact UInt32.lt_of_le_of_lt h (defaultLevelNow_settable ops).2
  | some made =>
    rw [hmade] at h
    obtain ⟨_, hlevel⟩ := h
    split at hlevel
    · exact UInt32.lt_of_le_of_lt hlevel (levelNow_valid made).2
    · exact UInt32.lt_of_le_of_lt hlevel (defaultLevelNow_settable ops).2

/-- What the history of a core says about log calls is what the core does, for every level, name
and text. A category is created once: while it is there, a request to create it is of no effect.
The level of an accepted message is a valid one. -/
theorem gating {backlog : Int32} {removedHandlers : Bool}
    (hrun : (new backlog removedHandlers).run ops = some c) (hsenders : c.registered ≠ [])
    (ctx : LogContext) (level : Level) (cname : Option String) :
    (∀ message, (c.log ctx level cname message).1 = true ↔ Admits ops level cname) ∧
    (∀ formatted, (c.logv ctx level cname formatted).1 = true ↔ Admits ops level cname) ∧
    (Admits ops level cname → level < Level.count) ∧
    ∀ name, (creationOf name ops).isSome →
      ∀ level flags, (c.newCategory name level flags).2 = c := by
  have hrecalls := run_recalls hrun
  have hdecides := hrecalls.shouldLog_iff hsenders level cname
  refine ⟨fun message => ?_, fun formatted => ?_, lt_count_of_admits, fun name hmade => ?_⟩
  · unfold log
    rw [logMessage_accepted]
    exact hdecides
  · unfold logv
    rw [logMessage_accepted]
    exact hdecides
  · intro level flags
    have hgate := hrecalls.gates name
    obtain ⟨made, hmade⟩ := Option.isSome_iff_exists.mp hmade
    rw [hmade] at hgate
    obtain ⟨cat, hcat, _⟩ := Option.map_eq_some_iff.mp hgate
    unfold newCategory
    rw [hcat]

/-- A sender and two categories, one of which has been disabled, and a default level that is not
valid. -/
def gatedOps : List CoreOp :=
  [.newSender "Test" (some (3, 4)), .newCategory "Verbose" Level.verbose CategoryFlag.enabled,
    .newCategory "Disabled" Level.undefined CategoryFlag.enabled,
    .setCategoryEnabled "Disabled" false, .newCategory "Disabled" Level.verbose CategoryFlag.enabled,
    .setDefaultLevel Level.count]

theorem gating_verbose : Admits gatedOps Level.verbose (some "Verbose") ∧
    ¬Admits gatedOps Level.info (some "Disabled") ∧ ¬Admits gatedOps Level.verbose none := by
  have hrun : (new 0 true).run gatedOps = some (((new 0 true).run gatedOps).get (by decide +kernel)) :=
    (Option.some_get _).symm
  have hanswer := gating hrun (by decide +kernel) ⟨false, 0, fun _ => []⟩
  refine ⟨?_, ?_, ?_⟩
  · exact ((hanswer Level.verbose (some "Verbose")).1 none).mp (by decide +kernel)
  · intro hadmits
    exact absurd (((hanswer Level.info (some "Disabled")).1 none).mpr hadmits) (by decide +kernel)
  · intro hadmits
    exact absurd (((hanswer Level.verbose none).1 none).mpr hadmits) (by decide +kernel)

end Runs

end DBusLogCore

end DBusLog

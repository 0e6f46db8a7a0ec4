import DBusLog.Core.Gating
import DBusLog.Lib.Marking

/-!
# Enabling many categories

`dbus_log_core_set_category_enabled` for one name after another is a marking of the category table,
and its signals are the log of the marking. Which names a pattern stands for is stated apart from
how `dbus_log_core_find_categories` finds them.
-/

namespace DBusLog

namespace DBusLogCategory

/-- A category that has been enabled or disabled. -/
def switched (enable : Bool) (cat : DBusLogCategory) : DBusLogCategory :=
  { cat with flags :=
      if enable then cat.flags ||| CategoryFlag.enabled
      else cat.flags &&& ~~~CategoryFlag.enabled }

/-- The flag is the lowest bit. -/
theorem enabled_bit (i : Nat) : CategoryFlag.enabled.toBitVec.getLsbD i = decide (i = 0) := by
  change (1#64).getLsbD i = _
  rw [BitVec.getLsbD_one]
  rfl

theorem enabled_iff_bit {cat : DBusLogCategory} :
    cat.enabled = true ↔ cat.flags.toBitVec.getLsbD 0 = true := by
  unfold enabled
  rw [decide_eq_true_iff, ne_eq, ← UInt64.toBitVec_inj]
  constructor
  · intro hne
    by_contra hbit
    apply hne
    apply BitVec.eq_of_getLsbD_eq
    intro i _
    rw [UInt64.toBitVec_and, BitVec.getLsbD_and, enabled_bit]
    by_cases h0 : i = 0
    · rw [h0, Bool.eq_false_of_not_eq_true hbit]
      rfl
    · rw [decide_eq_false h0, Bool.and_false]
      exact BitVec.getLsbD_zero.symm
  · intro hbit hzero
    have hz := congrArg (fun w => w.getLsbD 0) hzero
    rw [UInt64.toBitVec_and, BitVec.getLsbD_and, enabled_bit, hbit] at hz
    cases hz

@[simp] theorem enabled_switched (enable : Bool) (cat : DBusLogCategory) :
    (cat.switched enable).enabled = enable := by
  cases enable with
  | true => exact decide_eq_true (enabled_set cat.flags)
  | false => exact decide_eq_false (not_not.mpr (enabled_clear cat.flags))

theorem switched_of_enabled {enable : Bool} {cat : DBusLogCategory} (h : cat.enabled = enable) :
    cat.switched enable = cat := by
  have hflags : (cat.switched enable).flags = cat.flags := by
    apply UInt64.toBitVec_inj.mp
    apply BitVec.eq_of_getLsbD_eq
    -- bit 0 has its value already, and the other bits are not touched
    intro i hi
    cases enable with
    | true =>
      change (cat.flags ||| CategoryFlag.enabled).toBitVec.getLsbD i = _
      rw [UInt64.toBitVec_or, BitVec.getLsbD_or, enabled_bit]
      by_cases h0 : i = 0
      · rw [h0, enabled_iff_bit.mp h]
        rfl
      · rw [decide_eq_false h0, Bool.or_false]
    | false =>
      change (cat.flags &&& ~~~CategoryFlag.enabled).toBitVec.getLsbD i = _
      rw [UInt64.toBitVec_and, UInt64.toBitVec_not, BitVec.getLsbD_and, BitVec.getLsbD_not,
        enabled_bit]
      by_cases h0 : i = 0
      · have hbit : cat.flags.toBitVec.getLsbD 0 = false := by
          rw [← Bool.not_eq_true, ← enabled_iff_bit, h]
          exact Bool.false_ne_true
        rw [h0, hbit]
        rfl
      · rw [decide_eq_false h0, decide_eq_true hi, Bool.not_false, Bool.and_true, Bool.and_true]
  exact congrArg (fun flags => { cat with flags := flags }) hflags

theorem switched_eq_self_iff {enable : Bool} {cat : DBusLogCategory} :
    cat.switched enable = cat ↔ cat.enabled = enable := by
  constructor
  · intro h
    rw [← h, enabled_switched]
  · exact switched_of_enabled

/-- Enabling, or disabling, as a marking of the category table. -/
def switching (enable : Bool) : Marking DBusLogCategory.name where
  apply := switched enable
  key_apply _ := rfl
  idem cat := switched_of_enabled (enabled_switched enable cat)

end DBusLogCategory

namespace DBusLogCore

/-- The core with another table, after the signals about the categories that have changed. -/
def withSwitched (c : DBusLogCore) (u : KeyedTable DBusLogCategory.name × List DBusLogCategory) :
    DBusLogCore :=
  { c with
    categories := u.1
    signals := c.signals ++ u.2.map fun cat => .categoryFlags cat CategoryFlag.enabled }

/-- What `dbus_log_core_set_category_enabled` does with a category, in one piece. -/
theorem setCategoryEnabled_of_lookup {c : DBusLogCore} {name : String} {cat : DBusLogCategory}
    (h : c.categories.lookup name = some cat) (enable : Bool) :
    c.setCategoryEnabled name enable =
      if cat.switched enable = cat then c
      else { c with categories := c.categories.insert (cat.switched enable) }.emit
        (.categoryFlags (cat.switched enable) CategoryFlag.enabled) := by
  have hself : cat.switched enable = cat ↔ cat.enabled = enable :=
    DBusLogCategory.switched_eq_self_iff
  unfold setCategoryEnabled
  rw [h]
  dsimp only
  by_cases hoff : cat.enabled ∧ ¬enable
  · rw [if_pos hoff]
    obtain ⟨hcat, henable⟩ := hoff
    obtain rfl := Bool.eq_false_of_not_eq_true henable
    rw [if_neg fun he => Bool.noConfusion (hcat.symm.trans (hself.mp he))]
    rfl
  · rw [if_neg hoff]
    by_cases hon : ¬cat.enabled ∧ enable
    · rw [if_pos hon]
      obtain ⟨hcat, rfl⟩ := hon
      rw [if_neg fun he => hcat (hself.mp he)]
      rfl
    · -- neither branch is taken: the bit is as it is to be
      have hsame : cat.enabled = enable := by
        cases hcat : cat.enabled <;> cases enable <;> simp_all
      rw [if_neg hon, if_pos (hself.mpr hsame)]
      rfl

/-- One call of `dbus_log_core_set_category_enabled` after what has been marked before. -/
theorem setCategoryEnabled_eq (c : DBusLogCore)
    (u : KeyedTable DBusLogCategory.name × List DBusLogCategory) (name : String) (enable : Bool) :
    (c.withSwitched u).setCategoryEnabled name enable =
      c.withSwitched ((DBusLogCategory.switching enable).mark u name) := by
  unfold Marking.mark
  cases hlookup : u.1.lookup name with
  | none =>
    unfold setCategoryEnabled
    rw [show (c.withSwitched u).categories.lookup name = none from hlookup]
  | some cat =>
    rw [setCategoryEnabled_of_lookup (show (c.withSwitched u).categories.lookup name = some cat
      from hlookup)]
    change _ = c.withSwitched (if cat.switched enable = cat then u
      else (u.1.insert (cat.switched enable), u.2 ++ [cat.switched enable]))
    split
    · rfl
    · unfold emit withSwitched
      simp only [List.map_append, List.map_singleton, List.append_assoc]

/-- Does a pattern stand for the category with the name? No pattern and the empty one stand for
all. -/
def selects (patternMatch : String → String → Bool) : Option String → String → Bool
  | none, _ => true
  | some pattern, name => pattern = "" || patternMatch pattern name

/-- `dbus_log_core_find_categories` finds what the pattern stands for, sorted by name. -/
theorem findCategories_eq {patternMatch : String → String → Bool} {c : DBusLogCore}
    (hstar : ∀ name, patternMatch "*" name) {pattern : Option String} :
    c.findCategories patternMatch pattern =
      (c.categories.values.filter fun cat => selects patternMatch pattern cat.name).insertionSort
        fun cat cat' => cat.name ≤ cat'.name := by
  have hall : (∀ name, selects patternMatch pattern name = true) → c.getCategories =
      (c.categories.values.filter fun cat => selects patternMatch pattern cat.name).insertionSort
        fun cat cat' => cat.name ≤ cat'.name := by
    intro hselects
    unfold getCategories
    rw [List.filter_eq_self.mpr fun cat _ => hselects cat.name]
  unfold findCategories
  cases pattern with
  | none => exact hall fun _ => rfl
  | some p =>
    dsimp only
    by_cases hp : p ≠ "" ∧ p ≠ "*"
    · rw [if_pos hp]
      simp [selects, hp.1]
    · rw [if_neg hp]
      refine hall fun name => ?_
      obtain rfl | rfl : p = "" ∨ p = "*" := by tauto
      · simp [selects]
      · simp [selects, hstar]

theorem mem_findCategories_iff {patternMatch : String → String → Bool} {c : DBusLogCore}
    (hstar : ∀ name, patternMatch "*" name) {pattern : Option String} {cat : DBusLogCategory} :
    cat ∈ c.findCategories patternMatch pattern ↔
      cat ∈ c.categories.values ∧ selects patternMatch pattern cat.name := by
  rw [findCategories_eq hstar, (List.perm_insertionSort _ _).mem_iff, List.mem_filter]

end DBusLogCore

end DBusLog

import DBusLog.Core.Enabling

/-!
# Categories and their defaults

The flag "enabled by default" of a category is given when the category is created, and no
operation changes it. What enabling and disabling leave behind is a table whose categories differ
from the old ones in the flag "enabled" alone.
-/

namespace DBusLog

namespace DBusLogCategory

/-- The category is enabled by default. -/
def byDefault (cat : DBusLogCategory) : Bool := cat.flags &&& CategoryFlag.enabledByDefault ≠ 0

/-- `cat` is the category that `old` was, however it has been changed since. -/
structure Continues (cat old : DBusLogCategory) : Prop where
  name : cat.name = old.name
  id : cat.id = old.id
  byDefault : cat.byDefault = old.byDefault

/-- `cat` differs from `old` at most in the flag "enabled". -/
structure Alike (cat old : DBusLogCategory) : Prop where
  name : cat.name = old.name
  id : cat.id = old.id
  level : cat.level = old.level
  flags : cat.flags &&& ~~~CategoryFlag.enabled = old.flags &&& ~~~CategoryFlag.enabled

/-- The category has an id, and its flags go through D-Bus. -/
structure Regular (cat : DBusLogCategory) : Prop where
  id : cat.id ≠ 0
  narrow : cat.flags.toNat < 2 ^ 32

section Relations

variable {cat old older : DBusLogCategory}

theorem Continues.refl (cat : DBusLogCategory) : cat.Continues cat := ⟨rfl, rfl, rfl⟩

theorem Continues.trans (h : cat.Continues old) (h' : old.Continues older) :
    cat.Continues older :=
  ⟨h.name.trans h'.name, h.id.trans h'.id, h.byDefault.trans h'.byDefault⟩

theorem Alike.refl (cat : DBusLogCategory) : cat.Alike cat := ⟨rfl, rfl, rfl, rfl⟩

theorem Alike.trans (h : cat.Alike old) (h' : old.Alike older) : cat.Alike older :=
  ⟨h.name.trans h'.name, h.id.trans h'.id, h.level.trans h'.level, h.flags.trans h'.flags⟩

/-- The flag "enabled by default" is one of those that do not change. -/
theorem Alike.continues (h : cat.Alike old) : cat.Continues old := by
  have hmask : ~~~CategoryFlag.enabled &&& CategoryFlag.enabledByDefault =
      CategoryFlag.enabledByDefault := by decide
  have hflags : cat.flags &&& CategoryFlag.enabledByDefault =
      old.flags &&& CategoryFlag.enabledByDefault := by
    rw [← hmask, ← UInt64.and_assoc, ← UInt64.and_assoc, h.flags]
  refine ⟨h.name, h.id, ?_⟩
  unfold byDefault
  rw [hflags]

/-- Setting or clearing a flag leaves the others alone. -/
theorem alike_switched (enable : Bool) (cat : DBusLogCategory) :
    (cat.switched enable).Alike cat := by
  refine ⟨rfl, rfl, rfl, ?_⟩
  apply UInt64.toBitVec_inj.mp
  cases enable with
  | true =>
    change (cat.flags.toBitVec ||| CategoryFlag.enabled.toBitVec) &&&
      ~~~CategoryFlag.enabled.toBitVec = cat.flags.toBitVec &&& ~~~CategoryFlag.enabled.toBitVec
    rw [BitVec.and_or_distrib_right]
    exact BitVec.or_zero
  | false =>
    change cat.flags.toBitVec &&& ~~~CategoryFlag.enabled.toBitVec &&&
      ~~~CategoryFlag.enabled.toBitVec = cat.flags.toBitVec &&& ~~~CategoryFlag.enabled.toBitVec
    rw [BitVec.and_assoc, BitVec.and_self]

/-- And so does setting or clearing it under a condition. -/
theorem alike_ite (p : Prop) [Decidable p] (enable : Bool) (cat : DBusLogCategory) :
    (if p then cat.switched enable else cat).Alike cat := by
  split
  · exact alike_switched enable cat
  · exact .refl cat

theorem Regular.switched (h : cat.Regular) (enable : Bool) : (cat.switched enable).Regular := by
  refine ⟨h.id, ?_⟩
  cases enable with
  | true =>
    exact DBusLogCore.or_narrow h.narrow (by decide)
  | false =>
    change (cat.flags &&& ~~~CategoryFlag.enabled).toNat < 2 ^ 32
    rw [UInt64.toNat_and]
    exact Nat.lt_of_le_of_lt Nat.and_le_left h.narrow

end Relations

end DBusLogCategory

namespace DBusLogCore

/-- Of all that `c` says about categories and levels, only flags "enabled" differ in `c'`. -/
structure Toggled (c c' : DBusLogCore) : Prop where
  kept : ∀ cat ∈ c.categories.values, ∃ cat' ∈ c'.categories.values, cat'.Alike cat
  known : ∀ cat' ∈ c'.categories.values, ∃ cat ∈ c.categories.values, cat'.Alike cat
  defaultLevel : c'.defaultLevel = c.defaultLevel

/-- And each category is enabled exactly if it is so by default. -/
structure Restored (c c' : DBusLogCore) : Prop extends Toggled c c' where
  restored : ∀ cat ∈ c'.categories.values, cat.enabled = cat.byDefault

theorem Toggled.refl (c : DBusLogCore) : c.Toggled c :=
  ⟨fun cat hmem => ⟨cat, hmem, .refl cat⟩, fun cat hmem => ⟨cat, hmem, .refl cat⟩, rfl⟩

theorem Toggled.trans {c c' c'' : DBusLogCore} (h : c.Toggled c') (h' : c'.Toggled c'') :
    c.Toggled c'' where
  kept cat hmem := by
    obtain ⟨cat', hmem', halike⟩ := h.kept cat hmem
    obtain ⟨cat'', hmem'', halike'⟩ := h'.kept cat' hmem'
    exact ⟨cat'', hmem'', halike'.trans halike⟩
  known cat'' hmem'' := by
    obtain ⟨cat', hmem', halike'⟩ := h'.known cat'' hmem''
    obtain ⟨cat, hmem, halike⟩ := h.known cat' hmem'
    exact ⟨cat, hmem, halike'.trans halike⟩
  defaultLevel := h'.defaultLevel.trans h.defaultLevel

/-! ## A new category -/

/-- The flag "enabled by default" of a new category, when its creator has not asked for it. -/
theorem byDefault_created {flags : UInt64} (h : flags &&& CategoryFlag.enabledByDefault = 0) :
    flags &&& CategoryFlag.mask &&& CategoryFlag.enabledByDefault = 0 ∧
      (flags &&& CategoryFlag.mask ||| CategoryFlag.enabledByDefault) &&&
        CategoryFlag.enabledByDefault ≠ 0 := by
  constructor
  · have hmask : CategoryFlag.mask &&& CategoryFlag.enabledByDefault =
        CategoryFlag.enabledByDefault := by decide
    rw [UInt64.and_assoc, hmask]
    exact h
  · intro hzero
    have hbit := congrArg (fun w : UInt64 => w.toBitVec.getLsbD 1) hzero
    simp [CategoryFlag.enabledByDefault] at hbit

variable {c : DBusLogCore} {name : String}

/-- The id and the flags of a new category. -/
theorem newCategory_made (hname : c.categories.lookup name = none) (level : Level)
    (flags : UInt64) :
    (c.newCategory name level flags).1.id =
        (if c.lastCid + 1 = 0 then c.lastCid + 1 + 1 else c.lastCid + 1) ∧
      (c.newCategory name level flags).1.flags =
        if flags &&& CategoryFlag.enabled ≠ 0 then
          flags &&& CategoryFlag.mask ||| CategoryFlag.enabledByDefault
        else flags &&& CategoryFlag.mask := by
  unfold newCategory
  rw [hname]
  dsimp only
  by_cases henabled : flags &&& CategoryFlag.enabled ≠ 0
  · rw [if_pos henabled, if_pos henabled]
    split
    · exact ⟨rfl, rfl⟩
    · exact ⟨rfl, rfl⟩
  · rw [if_neg henabled, if_neg henabled]
    split
    · exact ⟨rfl, rfl⟩
    · exact ⟨rfl, rfl⟩

theorem newCategory_regular (hname : c.categories.lookup name = none) (level : Level)
    (flags : UInt64) : (c.newCategory name level flags).1.Regular := by
  obtain ⟨hid, hflags⟩ := newCategory_made hname level flags
  constructor
  · rw [hid]
    split
    next hzero =>
      rw [hzero]
      decide
    next hne => exact hne
  · have hmask : (flags &&& CategoryFlag.mask).toNat < 2 ^ 32 := and_narrow (by decide)
    rw [hflags]
    split
    · exact or_narrow hmask (by decide)
    · exact hmask

/-- A category is enabled by default if it has been created enabled, and otherwise only if its
creator has asked for that. -/
theorem newCategory_byDefault (hname : c.categories.lookup name = none) (level : Level)
    {flags : UInt64} (hdefault : flags &&& CategoryFlag.enabledByDefault = 0) :
    (c.newCategory name level flags).1.byDefault =
      (c.newCategory name level flags).1.enabled := by
  obtain ⟨_, hflags⟩ := newCategory_made hname level flags
  obtain ⟨_, henabled⟩ := newCategory_enabled hname level flags
  obtain ⟨hclear, hset⟩ := byDefault_created hdefault
  unfold DBusLogCategory.byDefault DBusLogCategory.enabled
  rw [henabled, hflags]
  by_cases hon : flags &&& CategoryFlag.enabled ≠ 0
  · rw [if_pos hon, decide_eq_true hset, decide_eq_true hon]
  · rw [if_neg hon, decide_eq_false (not_not.mpr hclear), decide_eq_false hon]

/-! ## Where the categories come from -/

section Values

variable {cat : DBusLogCategory}

theorem newCategory_values {level : Level} {flags : UInt64}
    (hmem : cat ∈ (c.newCategory name level flags).2.categories.values) :
    cat ∈ c.categories.values ∨ cat.name = name ∧ c.categories.lookup name = none ∧
      (c.newCategory name level flags).1 = cat := by
  cases hlookup : c.categories.lookup name with
  | some old =>
    unfold newCategory at hmem
    rw [hlookup] at hmem
    exact .inl hmem
  | none =>
    rw [(newCategory_insert hlookup level flags).1] at hmem
    obtain rfl | ⟨hold, _⟩ := (KeyedTable.mem_insert_iff _).mp hmem
    · exact .inr ⟨(newCategory_enabled hlookup level flags).1, rfl, rfl⟩
    · exact .inl hold

theorem removeCategory_values (hmem : cat ∈ (c.removeCategory name).2.categories.values) :
    cat ∈ c.categories.values ∧ cat.name ≠ name := by
  unfold removeCategory at hmem
  cases hlookup : c.categories.lookup name with
  | some old =>
    rw [hlookup] at hmem
    exact (KeyedTable.mem_erase_iff _).mp hmem
  | none =>
    rw [hlookup] at hmem
    exact ⟨hmem, (KeyedTable.lookup_eq_none_iff _).mp hlookup cat hmem⟩

theorem removeAllCategories_values (c : DBusLogCore) :
    c.removeAllCategories.categories.values = [] := by
  apply List.eq_nil_iff_forall_not_mem.mpr
  intro cat hmem
  -- there is no gate left for the name of the category
  have hgone := removeAllCategories_gates (c := c) cat.name
  rw [gateIn_of_lookup (KeyedTable.lookup_of_mem hmem)] at hgone
  cases hgate : gateIn c.categories cat.name <;> rw [hgate] at hgone <;> cases hgone

end Values

end DBusLogCore

end DBusLog

import DBusLog.Core.Reentrancy

/-!
# What the functions of a core leave behind

A function of the core that calls handlers stops at the call, with one frame that holds a reference
to the category, and goes on when the handlers have returned. The lemmas here give the frame that
each function leaves, and show that the function changes neither who owns the arrays nor what the
objects of other categories hold.
-/

namespace DBusLog

namespace CoreCategories

/-- The handlers of the innermost function have returned. -/
def handlersReturn (c : CoreCategories) : CoreCategories :=
  match c.frames with
  | [] => c
  | frame :: frames => { c with frames := frames }.goOn frame

/-- `dbus_log_category_unref` by a caller -/
def release (c : CoreCategories) (p : Nat) : CoreCategories :=
  { c with objects := c.objects.unref p, kept := c.kept.erase p }

/-- The category that `dbus_log_core_set_category_enabled` changes. -/
def enabling (c : CoreCategories) (name : String) (enable : Bool) :
    Option (Nat × DBusLogCategory) :=
  (c.categories.lookup name).bind fun e => (c.objects.read e.2).bind fun cat =>
    if cat.enabled = enable then none else some (e.2, cat)

/-- The category that `dbus_log_core_set_category_level` changes. -/
def leveling (c : CoreCategories) (name : String) (level : Level) :
    Option (Nat × DBusLogCategory) :=
  if level ≥ Level.undefined ∧ level < Level.count then
    (c.categories.lookup name).bind fun e => (c.objects.read e.2).bind fun cat =>
      if cat.level = level then none else some (e.2, cat)
  else none

section Frames

variable {c : CoreCategories} {name : String} {p array : Nat} {cats : List Nat}

/-! ## What the functions of the core leave running -/

theorem enabling_eq_some {cat : DBusLogCategory} {enable : Bool}
    (h : c.enabling name enable = some (p, cat)) :
    ∃ e, c.categories.lookup name = some e ∧ e.2 = p ∧ c.objects.read p = some cat ∧
      cat.enabled ≠ enable := by
  obtain ⟨e, hlookup, h⟩ := Option.bind_eq_some_iff.mp h
  obtain ⟨cat', hread, h⟩ := Option.bind_eq_some_iff.mp h
  obtain ⟨hne, he⟩ := Option.ite_none_left_eq_some.mp h
  cases he
  exact ⟨e, hlookup, rfl, hread, hne⟩

theorem setCategoryEnabled_changed {cat : DBusLogCategory} {enable : Bool}
    (h : c.enabling name enable = some (p, cat)) :
    ∃ f, c.setCategoryEnabled name enable = { c with objects := c.objects.write p f }.emit
      (.changed p) p (.categoryFlags · CategoryFlag.enabled) := by
  obtain ⟨e, hlookup, rfl, hread, hne⟩ := enabling_eq_some h
  unfold setCategoryEnabled
  rw [hlookup]
  dsimp only
  rw [hread]
  cases enable with
  | false =>
    have hon : cat.enabled = true := Bool.eq_true_of_not_eq_false hne
    exact ⟨_, if_pos ⟨hon, Bool.false_ne_true⟩⟩
  | true =>
    refine ⟨_, (if_neg fun hoff => hoff.2 rfl).trans (if_pos ⟨hne, rfl⟩)⟩

theorem setCategoryEnabled_same {enable : Bool} (h : c.enabling name enable = none) :
    c.setCategoryEnabled name enable = c ∨
      ∃ e, c.categories.lookup name = some e ∧
        c.setCategoryEnabled name enable = { c with objects := c.objects.use e.2 } := by
  unfold enabling at h
  unfold setCategoryEnabled
  cases hlookup : c.categories.lookup name with
  | none => exact .inl rfl
  | some e =>
    rw [hlookup, Option.bind_some] at h
    dsimp only
    cases hread : c.objects.read e.2 with
    | none => exact .inl rfl
    | some cat =>
      rw [hread, Option.bind_some] at h
      have hsame : cat.enabled = enable := by
        by_contra hne
        rw [if_neg hne] at h
        cases h
      refine .inr ⟨e, rfl, ?_⟩
      dsimp only
      rw [hsame, if_neg fun hoff => hoff.2 hoff.1, if_neg fun hon => hon.1 hon.2]

theorem setCategoryLevel_changed {cat : DBusLogCategory} {level : Level}
    (h : c.leveling name level = some (p, cat)) :
    ∃ e, c.categories.lookup name = some e ∧ e.2 = p ∧ c.objects.read p = some cat ∧
      c.setCategoryLevel name level = { c with
        objects := c.objects.write p fun cat => { cat with level := level } }.emit (.changed p) p
          .categoryLevel := by
  obtain ⟨hlevel, h⟩ := Option.ite_none_right_eq_some.mp h
  obtain ⟨e, hlookup, h⟩ := Option.bind_eq_some_iff.mp h
  obtain ⟨cat', hread, h⟩ := Option.bind_eq_some_iff.mp h
  obtain ⟨hne, he⟩ := Option.ite_none_left_eq_some.mp h
  cases he
  refine ⟨e, hlookup, rfl, hread, ?_⟩
  unfold setCategoryLevel
  rw [if_pos hlevel, hlookup]
  dsimp only
  rw [hread]
  exact if_pos hne

theorem setCategoryLevel_same {level : Level} (h : c.leveling name level = none) :
    c.setCategoryLevel name level = c ∨
      ∃ e, c.categories.lookup name = some e ∧
        c.setCategoryLevel name level = { c with objects := c.objects.use e.2 } := by
  unfold leveling at h
  unfold setCategoryLevel
  by_cases hlevel : level ≥ Level.undefined ∧ level < Level.count
  · rw [if_pos hlevel] at h ⊢
    cases hlookup : c.categories.lookup name with
    | none => exact .inl rfl
    | some e =>
      rw [hlookup, Option.bind_some] at h
      dsimp only
      cases hread : c.objects.read e.2 with
      | none => exact .inl rfl
      | some cat =>
        rw [hread, Option.bind_some] at h
        refine .inr ⟨e, rfl, if_neg fun hne => ?_⟩
        rw [if_neg hne] at h
        cases h
  · rw [if_neg hlevel]
    exact .inl rfl

theorem setCategoryEnabled_quiet {enable : Bool} (h : c.enabling name enable = none) :
    (c.setCategoryEnabled name enable).frames = c.frames ∧
      (c.setCategoryEnabled name enable).kept = c.kept := by
  obtain he | ⟨e, _, he⟩ := setCategoryEnabled_same h
  · rw [he]
    exact ⟨rfl, rfl⟩
  · rw [he]
    exact ⟨rfl, rfl⟩

theorem setCategoryEnabled_running {enable : Bool} {change : Nat × DBusLogCategory}
    (h : c.enabling name enable = some change) :
    (c.setCategoryEnabled name enable).frames = .changed change.1 :: c.frames ∧
      (c.setCategoryEnabled name enable).kept = c.kept := by
  obtain ⟨f, he⟩ := setCategoryEnabled_changed h
  rw [he]
  exact ⟨rfl, rfl⟩

theorem setCategoryLevel_quiet {level : Level} (h : c.leveling name level = none) :
    (c.setCategoryLevel name level).frames = c.frames ∧
      (c.setCategoryLevel name level).kept = c.kept := by
  obtain he | ⟨e, _, he⟩ := setCategoryLevel_same h
  · rw [he]
    exact ⟨rfl, rfl⟩
  · rw [he]
    exact ⟨rfl, rfl⟩

theorem setCategoryLevel_running {level : Level} {change : Nat × DBusLogCategory}
    (h : c.leveling name level = some change) :
    (c.setCategoryLevel name level).frames = .changed change.1 :: c.frames ∧
      (c.setCategoryLevel name level).kept = c.kept := by
  obtain ⟨_, _, _, _, he⟩ := setCategoryLevel_changed h
  rw [he]
  exact ⟨rfl, rfl⟩

theorem log_quiet (cname : String) :
    (c.log cname).frames = c.frames ∧ (c.log cname).kept = c.kept := by
  unfold log
  split
  · exact ⟨rfl, rfl⟩
  · exact ⟨rfl, rfl⟩

theorem newCategory_known {e : String × Nat} (h : c.categories.lookup name = some e)
    (level : Level) (flags : UInt64) :
    (c.newCategory name level flags).frames = c.frames ∧
      (c.newCategory name level flags).kept = e.2 :: c.kept := by
  unfold newCategory
  rw [h]
  exact ⟨rfl, rfl⟩

theorem newCategory_running (h : c.categories.lookup name = none) (level : Level)
    (flags : UInt64) :
    (c.newCategory name level flags).frames = .added c.objects.heap.length :: c.frames ∧
      c.objects.heap.length ∈ (c.newCategory name level flags).pointers ∧
      (c.newCategory name level flags).kept = c.kept := by
  unfold newCategory
  rw [h]
  refine ⟨rfl, List.mem_map.mpr ⟨(name, c.objects.heap.length), ?_, rfl⟩, rfl⟩
  exact (KeyedTable.mem_insert_iff _).mpr (.inl rfl)

theorem removeCategory_running {e : String × Nat} (h : c.categories.lookup name = some e) :
    (c.removeCategory name).frames = .removed e.2 :: c.frames ∧
      (c.removeCategory name).kept = c.kept := by
  unfold removeCategory
  rw [h]
  exact ⟨rfl, rfl⟩

/-- The frame of the loop that has these categories to report. -/
def removing (array : Nat) : List Nat → List CategoryFrame
  | [] => []
  | p :: rest => [.removedAll array p rest]

theorem removeNext_running (array : Nat) (cats : List Nat) :
    (c.removeNext array cats).frames = removing array cats ++ c.frames ∧
      (c.removeNext array cats).kept = c.kept := by
  cases cats with
  | nil => exact ⟨rfl, rfl⟩
  | cons p rest => exact ⟨rfl, rfl⟩

theorem goOn_removedAll (array p : Nat) (rest : List Nat) :
    (c.goOn (.removedAll array p rest)).frames = removing array rest ++ c.frames ∧
      (c.goOn (.removedAll array p rest)).kept = c.kept :=
  removeNext_running array rest

theorem removeAllCategories_running (h : c.removedHandlers = true) :
    ∃ array, c.removeAllCategories.frames =
      removing array (c.matched fun _ => true) ++ c.frames ∧
        c.removeAllCategories.kept = c.kept := by
  unfold removeAllCategories
  split
  · exact ⟨c.arrays.heap.length, removeNext_running _ _⟩
  · next hnone =>
    have hempty : c.categories.values = [] :=
      List.eq_nil_of_length_eq_zero (Nat.eq_zero_of_not_pos hnone)
    refine ⟨0, ?_⟩
    unfold matched
    rw [hempty]
    exact ⟨rfl, rfl⟩

/-! ## What they leave alone -/

/-- What no function of the core changes by itself. -/
structure SameOwner (c c' : CoreCategories) : Prop extends Follows c c' where
  keptArrays : c'.keptArrays = c.keptArrays
  removedHandlers : c'.removedHandlers = c.removedHandlers

theorem SameOwner.refl (c : CoreCategories) : SameOwner c c := ⟨.refl c, rfl, rfl⟩

theorem SameOwner.trans {c' c'' : CoreCategories} (h : SameOwner c c') (h' : SameOwner c' c'') :
    SameOwner c c'' :=
  ⟨h.toFollows.trans h'.toFollows, h'.keptArrays.trans h.keptArrays,
    h'.removedHandlers.trans h.removedHandlers⟩

theorem use_sameOwner (p : Nat) : SameOwner c { c with objects := c.objects.use p } :=
  ⟨use_follows, rfl, rfl⟩

theorem useArray_sameOwner (array : Nat) :
    SameOwner c { c with arrays := c.arrays.use array } :=
  ⟨useArray_follows array, rfl, rfl⟩

theorem log_sameOwner (cname : String) : SameOwner c (c.log cname) := by
  refine ⟨log_follows cname, ?_, ?_⟩
  · unfold log
    split <;> rfl
  · unfold log
    split <;> rfl

theorem drainPool_sameOwner : SameOwner c c.drainPool := ⟨drainPool_follows, rfl, rfl⟩

theorem newCategory_sameOwner (name : String) (level : Level) (flags : UInt64) :
    SameOwner c (c.newCategory name level flags) := by
  refine ⟨newCategory_follows name level flags, ?_, ?_⟩
  · unfold newCategory
    split <;> rfl
  · unfold newCategory
    split <;> rfl

theorem removeCategory_sameOwner (name : String) : SameOwner c (c.removeCategory name) := by
  refine ⟨removeCategory_follows name, ?_, ?_⟩
  · unfold removeCategory
    split <;> rfl
  · unfold removeCategory
    split <;> rfl

theorem removeNext_sameOwner (array : Nat) (cats : List Nat) :
    SameOwner c (c.removeNext array cats) := by
  refine ⟨removeNext_follows array cats, ?_, ?_⟩
  · cases cats <;> rfl
  · cases cats <;> rfl

theorem findCategories_sameOwner (matching : String → Bool) :
    SameOwner c (c.findCategories matching) :=
  ⟨findCategories_follows matching, rfl, rfl⟩

theorem removeAllCategories_sameOwner : SameOwner c c.removeAllCategories := by
  refine ⟨removeAllCategories_follows, ?_, ?_⟩
  · unfold removeAllCategories
    split
    · split
      · exact (removeNext_sameOwner _ _).keptArrays
      · rfl
    · rfl
  · unfold removeAllCategories
    split
    · split
      · exact (removeNext_sameOwner _ _).removedHandlers
      · rfl
    · rfl

theorem setCategoryEnabled_sameOwner (name : String) (enable : Bool) :
    SameOwner c (c.setCategoryEnabled name enable) ∧
      (c.setCategoryEnabled name enable).pool = c.pool := by
  have hfollows := c.setCategoryEnabled_follows name enable
  cases hchange : c.enabling name enable with
  | none =>
    obtain he | ⟨e, _, he⟩ := setCategoryEnabled_same hchange
    · rw [he]
      exact ⟨.refl c, rfl⟩
    · rw [he]
      exact ⟨use_sameOwner e.2, rfl⟩
  | some change =>
    obtain ⟨f, he⟩ := setCategoryEnabled_changed hchange
    rw [he] at hfollows ⊢
    exact ⟨⟨hfollows, rfl, rfl⟩, rfl⟩

theorem setCategoryLevel_sameOwner (name : String) (level : Level) :
    SameOwner c (c.setCategoryLevel name level) := by
  have hfollows := c.setCategoryLevel_follows name level
  cases hchange : c.leveling name level with
  | none =>
    obtain he | ⟨e, _, he⟩ := setCategoryLevel_same hchange
    · rw [he]
      exact .refl c
    · rw [he]
      exact use_sameOwner e.2
  | some change =>
    obtain ⟨_, _, _, _, he⟩ := setCategoryLevel_changed hchange
    rw [he] at hfollows ⊢
    exact ⟨hfollows, rfl, rfl⟩

theorem handlersReturn_sameOwner : SameOwner c c.handlersReturn := by
  unfold handlersReturn
  split
  · exact .refl c
  next frame frames _ =>
    have hpop : SameOwner c { c with frames := frames } :=
      ⟨.of_objects rfl rfl id (Nat.le_refl _), rfl, rfl⟩
    refine hpop.trans ⟨goOn_follows frame, ?_, ?_⟩
    · cases frame with
      | removedAll array p rest => exact (removeNext_sameOwner _ _).keptArrays
      | _ => rfl
    · cases frame with
      | removedAll array p rest => exact (removeNext_sameOwner _ _).removedHandlers
      | _ => rfl

theorem release_sameOwner (p : Nat) : SameOwner c (c.release p) :=
  ⟨.of_objects rfl rfl RefMemory.faulted_unref RefMemory.length_unref.ge, rfl, rfl⟩

theorem Accounted.handlersReturn (h : Accounted c) (hretained : Retained c .handlersReturn) :
    Accounted c.handlersReturn := by
  unfold CoreCategories.handlersReturn
  split
  · exact h
  next frame frames hframes => exact h.goOn hframes hretained

/-- Only `dbus_log_core_new_category` relies on its handlers. -/
theorem retained_of {frame : CategoryFrame} {frames : List CategoryFrame}
    (hframes : c.frames = frame :: frames) (hframe : ∀ p, frame ≠ .added p) :
    Retained c .handlersReturn := by
  unfold Retained
  rw [hframes]
  cases frame with
  | added p => exact absurd rfl (hframe p)
  | _ => trivial

/-- The innermost function has a reference to its category. -/
theorem mem_holders_frame {frame : CategoryFrame} {frames : List CategoryFrame}
    (hframes : c.frames = frame :: frames) (hp : p ∈ frame.held) : p ∈ c.holders := by
  refine List.mem_append_right _ (List.mem_append_left _ (List.mem_append_right _ ?_))
  rw [hframes]
  exact List.mem_append_left _ hp

/-! ## What is in the objects -/

theorem removeNext_read (array : Nat) (cats : List Nat) (a : Nat) :
    (c.removeNext array cats).objects.read a = c.objects.read a := by
  cases cats with
  | nil => exact RefArrays.read_objects_unrefArray a
  | cons p rest => exact RefMemory.read_ref a

theorem goOn_read (frame : CategoryFrame) (a : Nat) :
    (c.goOn frame).objects.read a = c.objects.read a := by
  cases frame with
  | added p => exact (RefMemory.read_ref a).trans (RefMemory.read_unref a)
  | removed p => exact (RefMemory.read_unref a).trans (RefMemory.read_unref a)
  | removedAll array p rest => exact (removeNext_read array rest a).trans (RefMemory.read_unref a)
  | changed p => exact RefMemory.read_unref a

theorem removeAllCategories_read (a : Nat) :
    c.removeAllCategories.objects.read a = c.objects.read a := by
  unfold removeAllCategories
  split
  · split
    · refine (removeNext_read _ _ a).trans ((RefMemory.read_unrefAll _ a).trans ?_)
      exact c.findCategories_read _ a
    · exact RefMemory.read_unrefAll _ a
  · rfl

theorem removeCategory_read (name : String) (a : Nat) :
    (c.removeCategory name).objects.read a = c.objects.read a := by
  unfold removeCategory
  split
  · exact (RefMemory.read_ref a).trans ((RefMemory.read_unref a).trans (RefMemory.read_ref a))
  · rfl

end Frames

end CoreCategories

end DBusLog

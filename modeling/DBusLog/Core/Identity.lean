import DBusLog.Core.System
import Mathlib.Data.List.Induction
import Mathlib.Data.Nat.ModEq

/-!
# The ids of the categories

Ids come from a counter of 32 bits that leaves out zero, so that creation number `n` gets an id
that creation number `n + (2 ^ 32 - 1)` gets again. Whether a live category still holds it then
depends on what has been created when, which is kept along the run as the list of the names, the
newest one first: a live category is the newest creation under its name.
-/

namespace DBusLog

namespace DBusLogCore

/-- The name of the category that an operation creates. -/
def creates (c : DBusLogCore) : CoreOp → Option String
  | .newCategory name _ _ => if (c.categories.lookup name).isNone then some name else none
  | _ => none

/-- The id of the category that an operation creates. -/
def createdId (c : DBusLogCore) : CoreOp → Option UInt32
  | .newCategory name level flags =>
    if (c.categories.lookup name).isNone then some (c.newCategory name level flags).1.id else none
  | _ => none

/-- The names of the categories created so far, after an operation. -/
def recordCreation (c : DBusLogCore) (op : CoreOp) (created : List String) : List String :=
  (c.creates op).toList ++ created

/-- The names of the categories that a run creates, the newest one first. -/
def creations (c : DBusLogCore) (ops : List CoreOp) : List String :=
  Runs.history recordCreation step c ops []

/-- The live categories have ids, each one its own. -/
structure Identified (c : DBusLogCore) : Prop where
  nonzero : ∀ cat ∈ c.categories.values, cat.id ≠ 0
  distinct : (c.categories.values.map (·.id)).Nodup

/-- The operation gives no id that a live category holds. -/
def GivesFreshId (c : DBusLogCore) (op : CoreOp) : Prop :=
  ∀ id ∈ c.createdId op, ∀ cat ∈ c.categories.values, cat.id ≠ id

/-- If the operation creates a category, then the number of creations since any live category was
created is no multiple of the number of ids. -/
def Spaced (created : List String) (c : DBusLogCore) (op : CoreOp) : Prop :=
  (c.creates op).isSome →
    ∀ cat ∈ c.categories.values, ¬2 ^ 32 - 1 ∣ created.idxOf cat.name + 1

/-! ## The counter -/

/-- The id of creation number `n`, which counts from 1. -/
def idOf (n : Nat) : Nat := if n = 0 then 0 else (n - 1) % (2 ^ 32 - 1) + 1

theorem idOf_succ (n : Nat) : idOf (n + 1) = n % (2 ^ 32 - 1) + 1 := by
  unfold idOf
  rw [if_neg (Nat.succ_ne_zero n), Nat.add_sub_cancel]

/-- The counter goes to the next id, over zero. -/
theorem nextId {cid : UInt32} {n : Nat} (h : cid.toNat = idOf n) :
    (if cid + 1 = 0 then cid + 1 + 1 else cid + 1).toNat = idOf (n + 1) := by
  have hadd : (cid + 1).toNat = (cid.toNat + 1) % 2 ^ 32 := by
    rw [UInt32.toNat_add]
    rfl
  rw [idOf_succ]
  cases n with
  | zero =>
    have hzero : cid = 0 := UInt32.toNat_inj.mp h
    subst hzero
    rfl
  | succ n =>
    rw [idOf_succ] at h
    by_cases hwrap : cid + 1 = 0
    · rw [if_pos hwrap, hwrap]
      rw [hwrap, h] at hadd
      change 0 = _ at hadd
      change 1 = _
      omega
    · rw [if_neg hwrap, hadd]
      have hne : (cid + 1).toNat ≠ 0 := fun hzero => hwrap (UInt32.toNat_inj.mp hzero)
      rw [hadd] at hne
      omega

/-- Two creations get one id if and only if a multiple of all ids lies between them. -/
theorem idOf_eq_iff {n k : Nat} (h : k < n) :
    idOf (n - k) = idOf (n + 1) ↔ 2 ^ 32 - 1 ∣ k + 1 := by
  obtain ⟨m, rfl⟩ := Nat.exists_eq_add_of_lt h
  rw [show k + m + 1 - k = m + 1 by omega, idOf_succ, idOf_succ, Nat.add_right_cancel_iff,
    show k + m + 1 = m + (k + 1) by omega]
  change m ≡ m + (k + 1) [MOD 2 ^ 32 - 1] ↔ _
  rw [Nat.modEq_iff_dvd' (Nat.le_add_right m (k + 1)), Nat.add_sub_cancel_left]

/-! ## One step -/

/-- No category comes into the table or changes its name or its id. -/
structure Kept (c c' : DBusLogCore) : Prop where
  lastCid : c'.lastCid = c.lastCid
  values : ∀ cat' ∈ c'.categories.values,
    ∃ cat ∈ c.categories.values, cat.name = cat'.name ∧ cat.id = cat'.id

/-- A category comes into the table, with the next id. -/
structure Created (name : String) (c c' : DBusLogCore) : Prop where
  unknown : c.categories.lookup name = none
  lastCid : c'.lastCid = if c.lastCid + 1 = 0 then c.lastCid + 1 + 1 else c.lastCid + 1
  table : ∃ cat : DBusLogCategory, cat.name = name ∧ cat.id = c'.lastCid ∧
    c'.categories = c.categories.insert cat

section Step

variable {c c' : DBusLogCore}

theorem Kept.of_eq (hlast : c'.lastCid = c.lastCid) (htable : c'.categories = c.categories) :
    Kept c c' :=
  ⟨hlast, fun cat hcat => ⟨cat, htable ▸ hcat, rfl, rfl⟩⟩

theorem SameTables.kept (h : SameTables c c') : Kept c c' := .of_eq h.lastCid h.categories

/-- A category of the table gets another value under its name and its id. -/
theorem Kept.of_update {name : String} {old : DBusLogCategory}
    (hold : c.categories.lookup name = some old) (cat : DBusLogCategory)
    (hname : cat.name = old.name) (hid : cat.id = old.id) (hlast : c'.lastCid = c.lastCid)
    (htable : c'.categories = c.categories.insert cat) : Kept c c' := by
  refine ⟨hlast, fun other hother => ?_⟩
  rw [htable] at hother
  obtain rfl | ⟨hmem, _⟩ := (KeyedTable.mem_insert_iff _).mp hother
  · exact ⟨old, KeyedTable.mem_of_lookup hold, hname.symm, hid.symm⟩
  · exact ⟨other, hmem, rfl, rfl⟩

theorem newCategory_created {name : String} (hname : c.categories.lookup name = none)
    (level : Level) (flags : UInt64) :
    Created name c (c.newCategory name level flags).2 ∧
      (c.newCategory name level flags).1.id = (c.newCategory name level flags).2.lastCid := by
  unfold newCategory
  rw [hname]
  dsimp only
  split
  · split
    · exact ⟨⟨hname, rfl, _, rfl, rfl, rfl⟩, rfl⟩
    · exact ⟨⟨hname, rfl, _, rfl, rfl, rfl⟩, rfl⟩
  · split
    · exact ⟨⟨hname, rfl, _, rfl, rfl, rfl⟩, rfl⟩
    · exact ⟨⟨hname, rfl, _, rfl, rfl, rfl⟩, rfl⟩

theorem logMessage_kept (h : Sound [] c) (ctx : LogContext) (level : Level)
    (cname : Option String) {msg : DBusLogMessage} (hcategory : msg.category = 0) :
    Kept c (c.logMessage ctx level cname msg).2 := by
  obtain hsame | ⟨_, hcall⟩ := logMessage_cases h ctx level cname hcategory
  · rw [hsame]
    exact .of_eq rfl rfl
  · exact .of_eq hcall.tables.lastCid hcall.tables.categories

theorem setCategoryEnabled_kept (name : String) (enable : Bool) :
    Kept c (c.setCategoryEnabled name enable) := by
  unfold setCategoryEnabled
  cases hlookup : c.categories.lookup name with
  | none => exact .of_eq rfl rfl
  | some cat =>
    dsimp only
    by_cases hoff : cat.enabled ∧ ¬enable
    · rw [if_pos hoff]
      exact .of_update hlookup { cat with flags := cat.flags &&& ~~~CategoryFlag.enabled }
        rfl rfl rfl rfl
    · rw [if_neg hoff]
      by_cases hon : ¬cat.enabled ∧ enable
      · rw [if_pos hon]
        exact .of_update hlookup { cat with flags := cat.flags ||| CategoryFlag.enabled }
          rfl rfl rfl rfl
      · rw [if_neg hon]
        exact .of_eq rfl rfl

theorem setCategoryLevel_kept (name : String) (level : Level) :
    Kept c (c.setCategoryLevel name level).2 := by
  unfold setCategoryLevel
  by_cases hlevel : level ≥ Level.undefined ∧ level < Level.count
  · rw [if_pos hlevel]
    cases hlookup : c.categories.lookup name with
    | none => exact .of_eq rfl rfl
    | some cat =>
      dsimp only
      by_cases hsame : cat.level ≠ level
      · rw [if_pos hsame]
        exact .of_update hlookup { cat with level := level } rfl rfl rfl rfl
      · rw [if_neg hsame]
        exact .of_eq rfl rfl
  · rw [if_neg hlevel]
    exact .of_eq rfl rfl

theorem removeCategory_kept (name : String) : Kept c (c.removeCategory name).2 := by
  unfold removeCategory
  cases c.categories.lookup name with
  | none => exact .of_eq rfl rfl
  | some cat =>
    exact ⟨rfl, fun other hother => ⟨other, ((KeyedTable.mem_erase_iff _).mp hother).1, rfl, rfl⟩⟩

theorem removeAllCategories_kept : Kept c c.removeAllCategories := by
  unfold removeAllCategories
  by_cases hany : c.categories.values.length > 0
  · rw [if_pos hany]
    by_cases hheard : c.removedHandlers
    · rw [if_pos hheard]
      obtain ⟨signals, he⟩ := emitAll_frame c.getCategories { c with categories := .empty }
      rw [he]
      exact ⟨rfl, fun _ hmem => (nomatch hmem)⟩
    · rw [if_neg hheard]
      exact ⟨rfl, fun _ hmem => (nomatch hmem)⟩
  · rw [if_neg hany]
    exact .of_eq rfl rfl

theorem setDefaultLevel_kept (level : Level) : Kept c (c.setDefaultLevel level).2 := by
  unfold setDefaultLevel
  split
  · dsimp only
    split
    · exact .of_eq rfl rfl
    · exact .of_eq rfl rfl
  · exact .of_eq rfl rfl

/-- A step creates a category, or it keeps those that there are. -/
theorem step_creates {op : CoreOp} (h : Sound [] c) (hs : c.step op = some c') :
    (c.creates op = none ∧ c.createdId op = none ∧ Kept c c') ∨
      ∃ name, c.creates op = some name ∧ c.createdId op = some c'.lastCid ∧ Created name c c' := by
  cases op with
  | newCategory name level flags =>
    cases hs
    cases hlookup : c.categories.lookup name with
    | none =>
      obtain ⟨hcreated, hid⟩ := newCategory_created hlookup level flags
      refine .inr ⟨name, ?_, ?_, hcreated⟩
      · simp only [creates, hlookup, Option.isNone_none, if_true]
      · simp only [createdId, hlookup, Option.isNone_none, if_true, hid]
    | some cat =>
      refine .inl ⟨?_, ?_, ?_⟩
      · simp [creates, hlookup]
      · simp [createdId, hlookup]
      · unfold newCategory
        rw [hlookup]
        exact .of_eq rfl rfl
  | log ctx level cname message =>
    cases hs
    exact .inl ⟨rfl, rfl, logMessage_kept h ctx level cname (by cases message <;> rfl)⟩
  | logv ctx level cname formatted =>
    cases hs
    exact .inl ⟨rfl, rfl, logMessage_kept h ctx level cname (by cases formatted <;> rfl)⟩
  | setDefaultLevel level =>
    cases hs
    exact .inl ⟨rfl, rfl, setDefaultLevel_kept level⟩
  | removeCategory name =>
    cases hs
    exact .inl ⟨rfl, rfl, removeCategory_kept name⟩
  | removeAllCategories =>
    cases hs
    exact .inl ⟨rfl, rfl, removeAllCategories_kept⟩
  | setCategoryEnabled name enable =>
    cases hs
    exact .inl ⟨rfl, rfl, setCategoryEnabled_kept name enable⟩
  | setCategoryLevel name level =>
    cases hs
    exact .inl ⟨rfl, rfl, setCategoryLevel_kept name level⟩
  | newSender name pipe =>
    cases hs
    refine .inl ⟨rfl, rfl, ?_⟩
    obtain _ | ⟨readfd, writefd⟩ := pipe
    · exact .of_eq rfl rfl
    · unfold newSender
      simp only [h.touch List.mem_cons_self]
      exact .of_eq rfl rfl
  | removeSender sender =>
    cases hs
    exact .inl ⟨rfl, rfl, (removeSender_left h sender).1.toSameTables.kept⟩
  | sender i a =>
    obtain ⟨_, _, _, _, hi, rfl⟩ := step_callback hs
    exact .inl ⟨rfl, rfl, (runSender_call h hi _).toLeft.toSameTables.kept⟩

end Step

/-! ## The numbers of the live categories -/

/-- What the ids are after the creations `created`. -/
structure Enumerated (created : List String) (c : DBusLogCore) : Prop where
  counted : c.lastCid.toNat = idOf created.length
  numbered : ∀ cat ∈ c.categories.values, cat.name ∈ created ∧
    cat.id.toNat = idOf (created.length - created.idxOf cat.name)

section Numbers

variable {c c' : DBusLogCore} {names : List String} {name : String}

theorem Enumerated.kept (h : Enumerated names c) (hk : Kept c c') : Enumerated names c' := by
  refine ⟨hk.lastCid ▸ h.counted, fun cat' hcat' => ?_⟩
  obtain ⟨cat, hcat, hname, hid⟩ := hk.values cat' hcat'
  rw [← hname, ← hid]
  exact h.numbered cat hcat

theorem Enumerated.created (h : Enumerated names c) (hc : Created name c c') :
    Enumerated (name :: names) c' := by
  have hnext : c'.lastCid.toNat = idOf (names.length + 1) := by
    rw [hc.lastCid]
    exact nextId h.counted
  refine ⟨hnext, fun other hother => ?_⟩
  obtain ⟨cat, rfl, hid, htable⟩ := hc.table
  rw [htable] at hother
  obtain rfl | ⟨hmem, hne⟩ := (KeyedTable.mem_insert_iff _).mp hother
  · refine ⟨List.mem_cons_self, ?_⟩
    rw [List.idxOf_cons_self, hid]
    exact hnext
  · obtain ⟨hin, hnumber⟩ := h.numbered other hmem
    refine ⟨List.mem_cons_of_mem _ hin, ?_⟩
    rw [List.idxOf_cons_ne _ (Ne.symm hne), List.length_cons, Nat.succ_eq_add_one,
      Nat.add_sub_add_right]
    exact hnumber

/-- The number of creations since a category was created decides whether its id comes next. -/
theorem Enumerated.reissued_iff (h : Enumerated names c) (hc : Created name c c')
    {cat : DBusLogCategory} (hcat : cat ∈ c.categories.values) :
    cat.id = c'.lastCid ↔ 2 ^ 32 - 1 ∣ names.idxOf cat.name + 1 := by
  obtain ⟨hin, hnumber⟩ := h.numbered cat hcat
  have hnext : c'.lastCid.toNat = idOf (names.length + 1) := (h.created hc).counted
  rw [← idOf_eq_iff (List.idxOf_lt_length_iff.mpr hin), ← hnumber, ← hnext, UInt32.toNat_inj]

/-- An operation gives a fresh id if and only if the creations are spaced. -/
theorem Enumerated.givesFreshId_iff (hn : Enumerated names c) (h : Sound [] c) (op : CoreOp) :
    c.GivesFreshId op ↔ Spaced names c op := by
  unfold GivesFreshId Spaced
  have hquiet : c.creates op = none → c.createdId op = none →
      ((∀ id ∈ c.createdId op, ∀ cat ∈ c.categories.values, cat.id ≠ id) ↔
        ((c.creates op).isSome →
          ∀ cat ∈ c.categories.values, ¬2 ^ 32 - 1 ∣ names.idxOf cat.name + 1)) := by
    intro hnone hid
    rw [hnone, hid]
    exact ⟨fun _ hsome => absurd hsome Bool.false_ne_true, fun _ _ hmem => (nomatch hmem)⟩
  cases hs : c.step op with
  | none =>
    -- only callbacks of senders may not be enabled
    cases op with
    | sender i a => exact hquiet rfl rfl
    | _ => cases hs
  | some c' =>
    obtain ⟨hnone, hid, _⟩ | ⟨name, hsome, hid, hcreated⟩ := step_creates h hs
    · exact hquiet hnone hid
    · rw [hsome, hid]
      constructor
      · intro hfresh _ cat hcat hdvd
        exact hfresh _ rfl cat hcat ((hn.reissued_iff hcreated hcat).mpr hdvd)
      · intro hspaced id hsame cat hcat heq
        cases hsame
        exact hspaced rfl cat hcat ((hn.reissued_iff hcreated hcat).mp heq)

theorem Identified.kept (h : Identified c) (hk : Kept c c') : Identified c' := by
  refine ⟨fun cat' hcat' => ?_, ?_⟩
  · obtain ⟨cat, hcat, _, hid⟩ := hk.values cat' hcat'
    rw [← hid]
    exact h.nonzero cat hcat
  · -- equal ids would be those of one old category, and so the names would be equal
    refine List.Nodup.map_on (fun a ha b hb hsame => ?_) (List.Nodup.of_map _ c'.categories.nodup)
    obtain ⟨a₀, ha₀, haname, haid⟩ := hk.values a ha
    obtain ⟨b₀, hb₀, hbname, hbid⟩ := hk.values b hb
    have hone : a₀ = b₀ := List.inj_on_of_nodup_map h.distinct ha₀ hb₀
      (haid.trans (hsame.trans hbid.symm))
    exact KeyedTable.eq_of_key_eq ha hb (haname.symm.trans ((congrArg _ hone).trans hbname))

theorem Identified.created (h : Identified c) (hn : Enumerated names c) (hc : Created name c c')
    (hfresh : ∀ cat ∈ c.categories.values, cat.id ≠ c'.lastCid) : Identified c' := by
  have hcounted := (hn.created hc).counted
  obtain ⟨cat, hname, hid, htable⟩ := hc.table
  refine ⟨fun other hother => ?_, ?_⟩
  · rw [htable] at hother
    obtain rfl | ⟨hmem, _⟩ := (KeyedTable.mem_insert_iff _).mp hother
    · intro hzero
      rw [← hid, hzero, List.length_cons, idOf_succ] at hcounted
      cases hcounted
    · exact h.nonzero other hmem
  · rw [htable]
    refine List.nodup_cons.mpr ⟨fun hmem => ?_, (List.filter_sublist.map _).nodup h.distinct⟩
    obtain ⟨old, hold, hsame⟩ := List.mem_map.mp hmem
    exact hfresh old ((KeyedTable.mem_erase_iff _).mp hold).1 (hsame.trans hid)

/-- Step lemma. -/
theorem Identified.step {op : CoreOp} (h : Identified c) (hn : Enumerated names c)
    (hsound : Sound [] c) (hs : c.step op = some c') (hfresh : c.GivesFreshId op) :
    Identified c' := by
  obtain ⟨_, _, hkept⟩ | ⟨name, _, hid, hcreated⟩ := step_creates hsound hs
  · exact h.kept hkept
  · exact h.created hn hcreated (hfresh _ hid)

end Numbers

/-! ## Runs -/

section Runs

variable {backlog : Int32} {removedHandlers : Bool}

/-- After any run, the ids are those of the creations. -/
theorem run_enumerated {ops : List CoreOp} {c : DBusLogCore}
    (hrun : (new backlog removedHandlers).run ops = some c) :
    Sound [] c ∧ Enumerated ((new backlog removedHandlers).creations ops) c := by
  refine Runs.history_invariant (C := fun _ _ => True)
    (P := fun c created => Sound [] c ∧ Enumerated created c) ?_
    (Runs.meets_of_forall (fun _ _ => trivial) _) hrun
    ⟨new_sound backlog removedHandlers, rfl, fun _ hmem => (nomatch hmem)⟩
  rintro c op c' created ⟨hsound, hn⟩ _ hs
  refine ⟨step_sound hsound hs, ?_⟩
  unfold recordCreation
  obtain ⟨hnone, _, hkept⟩ | ⟨name, hsome, _, hcreated⟩ := step_creates hsound hs
  · rw [hnone]
    exact hn.kept hkept
  · rw [hsome]
    exact hn.created hcreated

/-- Run lemma: as long as each operation gives a fresh id, the ids stay apart. -/
theorem run_identified {ops : List CoreOp}
    (hfresh : ∀ before op after c, before ++ op :: after = ops →
      (new backlog removedHandlers).run before = some c → c.GivesFreshId op) {c : DBusLogCore}
    (hrun : (new backlog removedHandlers).run ops = some c) : Identified c := by
  induction ops using List.reverseRecOn generalizing c with
  | nil =>
    cases hrun
    exact ⟨fun _ hmem => (nomatch hmem), List.nodup_nil⟩
  | append_singleton ops op ih =>
    obtain ⟨c₁, hrun₁, hs⟩ := Runs.run_concat_iff.mp hrun
    obtain ⟨hsound, hn⟩ := run_enumerated hrun₁
    refine (ih (fun before op' after c hsplit => ?_) hrun₁).step hn hsound hs
      (hfresh ops op [] c₁ rfl hrun₁)
    refine hfresh before op' (after ++ [op]) c ?_
    rw [← hsplit, List.append_assoc]
    rfl

/-- Category identity. In a run of a core, the live categories always have ids other than zero and
other than each other's, and no operation gives an id that is held, if and only if no category is
created when the number of creations since a live one is a multiple of 2^32 - 1. -/
theorem categoryIdentity (backlog : Int32) (removedHandlers : Bool) (ops : List CoreOp) :
    (∀ before after c, before ++ after = ops →
      (new backlog removedHandlers).run before = some c →
        Identified c ∧ ∀ op ∈ after.head?, c.GivesFreshId op) ↔
    (∀ before op after c, before ++ op :: after = ops →
      (new backlog removedHandlers).run before = some c →
        Spaced ((new backlog removedHandlers).creations before) c op) := by
  constructor
  · intro h before op after c hsplit hrun
    -- the operation is the first one of what is left
    obtain ⟨hsound, hn⟩ := run_enumerated hrun
    exact (hn.givesFreshId_iff hsound op).mp ((h before (op :: after) c hsplit hrun).2 op rfl)
  · intro h
    have hfresh : ∀ before op after c, before ++ op :: after = ops →
        (new backlog removedHandlers).run before = some c → c.GivesFreshId op := by
      intro before op after c hsplit hrun
      obtain ⟨hsound, hn⟩ := run_enumerated hrun
      exact (hn.givesFreshId_iff hsound op).mpr (h before op after c hsplit hrun)
    intro before after c hsplit hrun
    constructor
    · refine run_identified (fun before' op after' c hpart => ?_) hrun
      refine hfresh before' op (after' ++ after) c ?_
      rw [← hsplit, ← hpart, List.append_assoc]
      rfl
    · intro op hop
      obtain ⟨rest, rfl⟩ : ∃ rest, after = op :: rest := by
        cases after with
        | nil => cases hop
        | cons head rest =>
          cases hop
          exact ⟨rest, rfl⟩
      exact hfresh before op rest c hsplit hrun

/-! ## Past the wrap -/

/-- A core with a category that was created first and a counter that has moved on. -/
def wornCore (cid : UInt32) (signals : List CoreSignal) : DBusLogCore :=
  { ((new 0 true).newCategory "old" Level.undefined 0).2 with
    lastCid := cid
    signals := signals }

/-- A category comes and goes, while the counter has not wrapped. -/
theorem wornCore_pair {cid : UInt32} (h : cid + 1 ≠ 0) (signals : List CoreSignal) :
    ∃ signals', (wornCore cid signals).run
      [.newCategory "new" Level.undefined 0, .removeCategory "new"] =
        some (wornCore (cid + 1) signals') := by
  have hcreate : ((wornCore cid signals).newCategory "new" Level.undefined 0).2 =
      { wornCore (cid + 1) (signals ++ [.categoryAdded ⟨"new", cid + 1, Level.undefined, 0⟩]) with
        categories := (wornCore cid signals).categories.insert
          ⟨"new", cid + 1, Level.undefined, 0⟩ } := by
    unfold newCategory
    rw [show (wornCore cid signals).categories.lookup "new" = none from rfl]
    dsimp only
    rw [show (wornCore cid signals).lastCid = cid from rfl, if_neg h]
    rfl
  refine ⟨signals ++ [.categoryAdded ⟨"new", cid + 1, Level.undefined, 0⟩] ++
    [.categoryRemoved ⟨"new", cid + 1, Level.undefined, 0⟩], ?_⟩
  change (some ((wornCore cid signals).newCategory "new" Level.undefined 0).2).bind _ = _
  rw [hcreate]
  rfl

theorem wornCore_run (n : Nat) (cid : UInt32) (h : cid.toNat + n < 2 ^ 32)
    (signals : List CoreSignal) :
    ∃ signals', (wornCore cid signals).run (List.replicate n
      [CoreOp.newCategory "new" Level.undefined 0, .removeCategory "new"]).flatten =
        some (wornCore (cid + UInt32.ofNat n) signals') := by
  induction n generalizing cid signals with
  | zero =>
    rw [show cid + UInt32.ofNat 0 = cid from UInt32.add_zero cid]
    exact ⟨signals, rfl⟩
  | succ n ih =>
    have hnext : (cid + 1).toNat = cid.toNat + 1 := by
      rw [UInt32.toNat_add]
      change (cid.toNat + 1) % 2 ^ 32 = _
      omega
    have hne : cid + 1 ≠ 0 := by
      intro hzero
      rw [hzero] at hnext
      cases hnext
    obtain ⟨signals₁, hpair⟩ := wornCore_pair hne signals
    have hroom : (cid + 1).toNat + n < 2 ^ 32 := by omega
    obtain ⟨signals₂, hrest⟩ := ih (cid + 1) hroom signals₁
    refine ⟨signals₂, ?_⟩
    rw [List.replicate_succ, List.flatten_cons, run, Runs.run_append]
    change ((wornCore cid signals).run _).bind _ = _
    rw [hpair, Option.bind_some, show cid + UInt32.ofNat (n + 1) = cid + 1 + UInt32.ofNat n by
      rw [UInt32.ofNat_add, UInt32.add_comm (UInt32.ofNat n), ← UInt32.add_assoc]
      rfl]
    exact hrest

theorem wornCore_reached (n : Nat) (h : 1 + n < 2 ^ 32) :
    ∃ signals, (new 0 true).run (.newCategory "old" Level.undefined 0 ::
      ((List.replicate n
        [CoreOp.newCategory "new" Level.undefined 0, .removeCategory "new"]).flatten ++
      [.newCategory "new" Level.undefined 0])) =
        some ((wornCore (1 + UInt32.ofNat n) signals).newCategory "new" Level.undefined 0).2 := by
  have hfirst : (new 0 true).step (.newCategory "old" Level.undefined 0) =
      some (wornCore 1 ((new 0 true).newCategory "old" Level.undefined 0).2.signals) := rfl
  obtain ⟨signals, hworn⟩ := wornCore_run n 1 h
    ((new 0 true).newCategory "old" Level.undefined 0).2.signals
  unfold run at hworn
  refine ⟨signals, ?_⟩
  rw [run, Runs.run_cons, hfirst, Option.bind_some, Runs.run_append, hworn]
  rfl

/-- When 2^32 - 2 categories have come and gone, the next one gets the id that the first one has
had all the time. -/
theorem categoryIdentity_wrap :
    ∃ c old fresh, (new 0 true).run (.newCategory "old" Level.undefined 0 ::
        ((List.replicate (2 ^ 32 - 2)
          [CoreOp.newCategory "new" Level.undefined 0, .removeCategory "new"]).flatten ++
        [.newCategory "new" Level.undefined 0])) = some c ∧
      old ∈ c.categories.values ∧ fresh ∈ c.categories.values ∧ old.name ≠ fresh.name ∧
      old.id = fresh.id := by
  obtain ⟨signals, hreached⟩ := wornCore_reached (2 ^ 32 - 2) (by decide)
  refine ⟨_, ⟨"old", 1, Level.undefined, 0⟩, ⟨"new", 1, Level.undefined, 0⟩, hreached, ?_, ?_, ?_, rfl⟩
  · exact (by decide : (⟨"old", 1, Level.undefined, 0⟩ : DBusLogCategory) ∈
      ((wornCore (1 + UInt32.ofNat (2 ^ 32 - 2)) []).newCategory "new"
        Level.undefined 0).2.categories.values)
  · exact (by decide : (⟨"new", 1, Level.undefined, 0⟩ : DBusLogCategory) ∈
      ((wornCore (1 + UInt32.ofNat (2 ^ 32 - 2)) []).newCategory "new"
        Level.undefined 0).2.categories.values)
  · decide

end Runs

end DBusLogCore

end DBusLog

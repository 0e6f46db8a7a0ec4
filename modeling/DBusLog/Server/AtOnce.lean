import Mathlib.Data.String.Basic
import DBusLog.Server.Enabling
import DBusLog.Server.NestedMirror

/-!
# Handlers that return at once

When the handlers of the application do not call the server, each call is over before the next one
begins. The server with nested handlers then does what the server without does: it has the same
table, and says the same to the application and to the bus, in the same order.
-/

namespace DBusLog

namespace CoreCategories

section Sorting

variable {c : CoreCategories} {d : DBusLogCore}

/-- What a pointer of the table points to has the name of its entry. -/
theorem Mirrors.name_of_read (h : Mirrors c d) {e : String × Nat} (he : e ∈ c.categories.values)
    {cat : DBusLogCategory} (hread : c.objects.read e.2 = some cat) : cat.name = e.1 := by
  have hnamed := h.named e he
  rw [hread] at hnamed
  exact Option.some.inj hnamed

/-- The categories in an array, in any order. -/
theorem Mirrors.matched_perm (h : Mirrors c d) (matching : String → Bool) :
    ((c.matched matching).filterMap c.objects.read).Perm
      (d.categories.values.filter fun cat => matching cat.name) := by
  have hfilter : (c.categories.values.filter fun e => matching e.1).filterMap
      (fun e => c.objects.read e.2) = c.contents.filter fun cat => matching cat.name := by
    unfold contents pointers
    rw [List.filterMap_map, List.filterMap_filter, List.filter_filterMap]
    refine List.filterMap_congr fun e he => ?_
    cases hcat : c.objects.read e.2 with
    | none => simp [hcat]
    | some cat => simp [hcat, h.name_of_read he hcat, Option.filter]
  unfold matched
  rw [List.filterMap_map]
  refine ((List.perm_insertionSort _ _).filterMap _).trans ?_
  exact (List.Perm.of_eq hfilter).trans (h.contents_perm.filter _)

/-- An array is sorted by name. -/
theorem Mirrors.matched_sorted (h : Mirrors c d) (matching : String → Bool) :
    ((c.matched matching).filterMap c.objects.read).Pairwise
      fun cat cat' => cat.name ≤ cat'.name := by
  have htotal : Std.Total fun e e' : String × Nat => e.1 ≤ e'.1 := ⟨fun _ _ => le_total _ _⟩
  have htrans : IsTrans (String × Nat) fun e e' => e.1 ≤ e'.1 := ⟨fun _ _ _ => le_trans⟩
  have hin : ∀ e ∈ (c.categories.values.filter fun e => matching e.1).insertionSort
      fun e e' => e.1 ≤ e'.1, e ∈ c.categories.values := fun e he =>
    List.mem_of_mem_filter ((List.mem_insertionSort _).mp he)
  unfold matched
  rw [List.filterMap_map]
  refine ((List.pairwise_insertionSort _ _).imp_of_mem fun {e e'} he he' hle => ?_).filterMap _
    fun _ _ hall => hall
  intro cat hcat cat' hcat'
  rw [h.name_of_read (hin e he) hcat, h.name_of_read (hin e' he') hcat']
  exact hle

/-- A sorted array of a core has the categories in the order in which the other core has them. -/
theorem Mirrors.matched_read (h : Mirrors c d)
    (matching : String → Bool) : (c.matched matching).filterMap c.objects.read =
      (d.categories.values.filter fun cat => matching cat.name).insertionSort
        fun cat cat' => cat.name ≤ cat'.name := by
  have htotal : Std.Total fun cat cat' : DBusLogCategory => cat.name ≤ cat'.name :=
    ⟨fun _ _ => le_total _ _⟩
  have htrans : IsTrans DBusLogCategory fun cat cat' => cat.name ≤ cat'.name :=
    ⟨fun _ _ _ => le_trans⟩
  have hperm := (h.matched_perm matching).trans (List.perm_insertionSort
    (fun cat cat' => cat.name ≤ cat'.name) _).symm
  have hmem : ∀ cat ∈ (d.categories.values.filter fun cat => matching cat.name).insertionSort
      fun cat cat' => cat.name ≤ cat'.name, cat ∈ d.categories.values := fun cat hcat =>
    List.mem_of_mem_filter ((List.mem_insertionSort _).mp hcat)
  -- names tell the categories of the table apart
  refine List.Perm.eq_of_pairwise ?_ (h.matched_sorted matching)
    (List.pairwise_insertionSort _ _) hperm
  intro cat cat' hcat hcat' hle hle'
  exact d.categories.eq_of_key_eq (hmem cat (hperm.mem_iff.mp hcat)) (hmem cat' hcat')
    (le_antisymm hle hle')

end Sorting

section Changes

variable {c : CoreCategories} {d : DBusLogCore} {name : String} {p : Nat} {cat : DBusLogCategory}

/-- Both cores enable or disable the same category, or none. -/
theorem Mirrors.unchanged (h : Mirrors c d) {enable : Bool}
    (hnone : c.enabling name enable = none) : d.setCategoryEnabled name enable = d := by
  unfold enabling at hnone
  cases hlookup : c.categories.lookup name with
  | none =>
    unfold DBusLogCore.setCategoryEnabled
    rw [h.lookup_none hlookup]
  | some e =>
    obtain ⟨cat, hread, _, hd⟩ := h.lookup_some hlookup
    rw [hlookup, Option.bind_some, hread, Option.bind_some] at hnone
    have hsame : cat.enabled = enable := by
      by_contra hne
      rw [if_neg hne] at hnone
      cases hnone
    rw [DBusLogCore.setCategoryEnabled_of_lookup hd,
      if_pos (DBusLogCategory.switched_of_enabled hsame)]

theorem Mirrors.changed (h : Mirrors c d) {enable : Bool}
    (hsome : c.enabling name enable = some (p, cat)) :
    (d.setCategoryEnabled name enable).signals =
        d.signals ++ [.categoryFlags (cat.switched enable) CategoryFlag.enabled] ∧
      (d.setCategoryEnabled name enable).defaultLevel = d.defaultLevel ∧
      (c.setCategoryEnabled name enable).objects.read p = some (cat.switched enable) ∧
      cat.name = name := by
  obtain ⟨e, hlookup, rfl, hread, hne⟩ := enabling_eq_some hsome
  obtain ⟨cat₁, hread₁, hname, hd⟩ := h.lookup_some hlookup
  cases hread.symm.trans hread₁
  have hswitched : d.setCategoryEnabled name enable =
      { d with categories := d.categories.insert (cat.switched enable) }.emit
        (.categoryFlags (cat.switched enable) CategoryFlag.enabled) := by
    rw [DBusLogCore.setCategoryEnabled_of_lookup hd, if_neg fun he =>
      hne (DBusLogCategory.switched_eq_self_iff.mp he)]
  refine ⟨by rw [hswitched]; rfl, by rw [hswitched]; rfl, ?_, hname⟩
  -- the category is the one that the table has under the name
  have htable := (h.setCategoryEnabled name enable).table name
  obtain ⟨f, he⟩ := setCategoryEnabled_changed hsome
  have hsame : (c.setCategoryEnabled name enable).categories.lookup name = some e := by
    rw [he]
    exact hlookup
  rw [findCategory, hsame, hswitched] at htable
  have hnew : (d.categories.insert (cat.switched enable)).lookup cat.name =
      some (cat.switched enable) := KeyedTable.lookup_insert _ (cat.switched enable)
  rw [hname] at hnew
  exact htable.trans hnew

/-- The same for levels. -/
theorem Mirrors.levelUnchanged (h : Mirrors c d) {level : Level}
    (hnone : c.leveling name level = none) : (d.setCategoryLevel name level).2 = d := by
  unfold leveling at hnone
  unfold DBusLogCore.setCategoryLevel
  by_cases hlevel : level ≥ Level.undefined ∧ level < Level.count
  · rw [if_pos hlevel] at hnone ⊢
    cases hlookup : c.categories.lookup name with
    | none => rw [h.lookup_none hlookup]
    | some e =>
      obtain ⟨cat, hread, _, hd⟩ := h.lookup_some hlookup
      rw [hlookup, Option.bind_some, hread, Option.bind_some] at hnone
      rw [hd]
      refine if_neg fun hne => ?_
      rw [if_neg hne] at hnone
      cases hnone
  · rw [if_neg hlevel]

theorem Mirrors.levelChanged (h : Mirrors c d) {level : Level}
    (hsome : c.leveling name level = some (p, cat)) :
    (d.setCategoryLevel name level).2.signals =
        d.signals ++ [.categoryLevel { cat with level := level }] ∧
      (d.setCategoryLevel name level).2.defaultLevel = d.defaultLevel ∧
      (c.setCategoryLevel name level).objects.read p = some { cat with level := level } ∧
      cat.name = name := by
  have hlevel : level ≥ Level.undefined ∧ level < Level.count :=
    (Option.ite_none_right_eq_some.mp hsome).1
  have hne : cat.level ≠ level := by
    obtain ⟨_, hfound⟩ := Option.ite_none_right_eq_some.mp hsome
    obtain ⟨e, _, hfound⟩ := Option.bind_eq_some_iff.mp hfound
    obtain ⟨cat', _, hfound⟩ := Option.bind_eq_some_iff.mp hfound
    obtain ⟨hne, he⟩ := Option.ite_none_left_eq_some.mp hfound
    cases he
    exact hne
  obtain ⟨e, hlookup, rfl, hread, he⟩ := setCategoryLevel_changed hsome
  obtain ⟨cat₁, hread₁, hname, hd⟩ := h.lookup_some hlookup
  cases hread.symm.trans hread₁
  have hset : (d.setCategoryLevel name level).2 =
      { d with categories := d.categories.insert { cat with level := level } }.emit
        (.categoryLevel { cat with level := level }) := by
    unfold DBusLogCore.setCategoryLevel
    rw [if_pos hlevel, hd]
    exact if_pos hne
  refine ⟨by rw [hset]; rfl, by rw [hset]; rfl, ?_, hname⟩
  · rw [he]
    refine (RefMemory.read_ref e.2).trans ?_
    rw [RefMemory.read_write, hread]
    exact congrArg some (if_pos rfl)

theorem write_names (m : RefMemory DBusLogCategory) (p : Nat)
    {f : DBusLogCategory → DBusLogCategory} (hf : ∀ cat, (f cat).name = cat.name) (a : Nat) :
    ((m.write p f).read a).map (·.name) = (m.read a).map (·.name) := by
  rw [RefMemory.read_write]
  cases m.read a with
  | none => rfl
  | some cat =>
    refine congrArg some ?_
    split
    · exact hf cat
    · rfl

/-- No category is renamed. -/
theorem setCategoryEnabled_names (c : CoreCategories) (name : String) (enable : Bool) (a : Nat) :
    ((c.setCategoryEnabled name enable).objects.read a).map (·.name) =
      (c.objects.read a).map (·.name) := by
  unfold setCategoryEnabled
  split
  · split
    · split
      · refine (congrArg _ (RefMemory.read_ref a)).trans ?_
        refine write_names c.objects _ ?_ a
        exact fun _ => rfl
      · split
        · refine (congrArg _ (RefMemory.read_ref a)).trans ?_
          refine write_names c.objects _ ?_ a
          exact fun _ => rfl
        · rfl
    · rfl
  · rfl

end Changes

end CoreCategories

/-! ## Both servers -/

/-- What a call that the policy allows does to the server whose handlers do not call it. -/
def ServerCall.plain {Policy β : Type} (klass : DBusLogServerClass β)
    (d : DBusLogServer Policy β) : ServerCall → DBusLogServer Policy β
  | .addCategory name level flags => d.addCategory klass name level flags
  | .removeCategory name => (d.removeCategory klass name).2
  | .removeAllCategories => d.removeAllCategories klass
  | .setCategoryLevel name level => (d.setCategoryLevel klass name level).2
  | .setDefaultLevel level => d.coreChanged klass (d.core.setDefaultLevel level).2
  | .setNamesEnabled names enable => d.setEach klass names enable
  | .setPatternEnabled matching enable =>
    d.setEach klass (((d.core.categories.values.filter fun cat => matching cat.name).insertionSort
      fun cat cat' => cat.name ≤ cat'.name).map (·.name)) enable
  | .log _ | .handlersReturn | .drainPool => d

/-- The methods that change categories and levels do this when the caller may. -/
theorem DBusLogServer.calls_plain {Cred Policy β : Type} (lib : Libraries Cred Policy)
    (klass : DBusLogServerClass β) (d : DBusLogServer Policy β) (sender : String)
    (hstar : ∀ name, lib.patternMatch "*" name) :
    (∀ level, d.accessAllowed lib sender .setDefaultLevel →
      (d.callSetDefaultLevel lib klass sender level).2 =
        (ServerCall.setDefaultLevel level).plain klass d) ∧
    (∀ name level, d.accessAllowed lib sender .setCategoryLevel →
      (d.callSetCategoryLevel lib klass sender name level).2 =
        (ServerCall.setCategoryLevel name level).plain klass d) ∧
    (∀ names enable, d.accessAllowed lib sender (enableAction enable) →
      (d.callSetNamesEnabled lib klass sender names enable).2 =
        (ServerCall.setNamesEnabled names enable).plain klass d) ∧
    (∀ pattern enable, d.accessAllowed lib sender (enableAction enable) →
      (d.callSetPatternEnabled lib klass sender pattern enable).2 =
        (ServerCall.setPatternEnabled (DBusLogCore.selects lib.patternMatch pattern) enable).plain
          klass d) := by
  refine ⟨fun level h => ?_, fun name level h => ?_, fun names enable h => ?_,
    fun pattern enable h => ?_⟩
  · unfold callSetDefaultLevel
    rw [if_neg (not_not.mpr h)]
    show _ = d.coreChanged klass (d.core.setDefaultLevel level).2
    obtain ⟨accepted, core⟩ := d.core.setDefaultLevel level
    cases accepted <;> rfl
  · unfold callSetCategoryLevel
    rw [if_neg (not_not.mpr h)]
    rfl
  · unfold callSetNamesEnabled
    rw [if_neg (not_not.mpr h)]
    rfl
  · unfold callSetPatternEnabled
    rw [if_neg (not_not.mpr h), DBusLogCore.findCategories_eq hstar]
    rfl

namespace NestedServer

open CoreCategories (Mirrors)

/-- The handlers that are running return, one after another. -/
def Settles (s t : NestedServer) : Prop :=
  t.frames = [] ∧ ∃ k, Runs.run step s (List.replicate k .handlersReturn) = some t

/-- The calls are made one after another, and the handlers of each return at once. -/
inductive AtOnce : NestedServer → List ServerCall → NestedServer → Prop
  | nil (s : NestedServer) : AtOnce s [] s
  | cons {s s₁ s₂ t : NestedServer} {call : ServerCall} {calls : List ServerCall}
      (hs : s.step call = some s₁) (hreturn : Settles s₁ s₂) (hrest : AtOnce s₂ calls t) :
      AtOnce s (call :: calls) t

section Settles

variable {s s' t t' : NestedServer}

theorem Settles.refl (h : s.frames = []) : Settles s s := ⟨h, 0, rfl⟩

theorem Settles.cons (hs : s.step .handlersReturn = some s') (h : Settles s' t) :
    Settles s t := by
  obtain ⟨hidle, k, hrun⟩ := h
  exact ⟨hidle, k + 1, Runs.run_cons_iff.mpr ⟨s', hs, hrun⟩⟩

theorem step_idle (h : s.frames = []) : s.step .handlersReturn = none := by
  unfold step
  rw [h]

/-- There is one way to return. -/
theorem Settles.unique (h : Settles s t) (h' : Settles s t') : t = t' := by
  obtain ⟨hidle, k, hrun⟩ := h
  obtain ⟨hidle', k', hrun'⟩ := h'
  induction k generalizing s k' with
  | zero =>
    cases hrun
    cases k' with
    | zero => exact Option.some.inj hrun'
    | succ k' =>
      obtain ⟨next, hs, _⟩ := Runs.run_cons_iff.mp hrun'
      cases (step_idle hidle).symm.trans hs
  | succ k ih =>
    obtain ⟨next, hs, hrun⟩ := Runs.run_cons_iff.mp hrun
    cases k' with
    | zero =>
      cases hrun'
      cases (step_idle hidle').symm.trans hs
    | succ k' =>
      obtain ⟨next', hs', hrun'⟩ := Runs.run_cons_iff.mp hrun'
      cases hs.symm.trans hs'
      exact ih hrun k' hrun'

theorem Settles.length (h : Settles s t) :
    s.core.objects.heap.length ≤ t.core.objects.heap.length := by
  obtain ⟨_, k, hrun⟩ := h
  exact run_length hrun

theorem AtOnce.length {calls : List ServerCall} (h : AtOnce s calls t) :
    s.core.objects.heap.length ≤ t.core.objects.heap.length := by
  induction h with
  | nil s => exact Nat.le_refl _
  | cons hs hreturn _ ih => exact ((step_sameOwner hs).length.trans hreturn.length).trans ih

end Settles

variable {Policy β : Type} {klass : DBusLogServerClass β} {s s' : NestedServer}
  {d : DBusLogServer Policy β}

/-- No handlers are running, and the server with nested handlers is what the other one is. -/
structure Stands (klass : DBusLogServerClass β) (s : NestedServer) (d : DBusLogServer Policy β) :
    Prop where
  safe : s.Safe
  idle : s.frames = []
  mirrors : s.core.Mirrors d.core
  defaultLevel : s.defaultLevel = d.core.defaultLevel
  notified : s.notified = d.notified
  sent : s.sent = d.sent
  started : d.started = true
  sends : DBusLogServer.Sends klass d.backend

/-- The core of the other server has turned into `core`, and both servers have said so. -/
theorem Stands.after (h : Stands klass s d) {core : DBusLogCore} {log : List CoreSignal}
    (hlog : core.signals = d.core.signals ++ log) (hsafe : s'.Safe) (hidle : s'.frames = [])
    (hmirrors : s'.core.Mirrors core) (hlevel : s'.defaultLevel = core.defaultLevel)
    (hnotified : s'.notified = s.notified ++ log.flatMap (·.noticed core))
    (hsent : s'.sent = s.sent ++ log.map (·.onBus core)) :
    Stands klass s' (d.coreChanged klass core) := by
  rw [DBusLogServer.coreChanged_told h.started h.sends hlog]
  exact ⟨hsafe, hidle, hmirrors, hlevel, hnotified.trans (by rw [h.notified]),
    hsent.trans (by rw [h.sent]), h.started, h.sends⟩

/-- The core has said nothing. -/
theorem Stands.silent (h : Stands klass s d) (hsafe : s'.Safe) (hidle : s'.frames = [])
    (hmirrors : s'.core.Mirrors d.core) (hlevel : s'.defaultLevel = s.defaultLevel)
    (hnotified : s'.notified = s.notified) (hsent : s'.sent = s.sent) : Stands klass s' d where
  safe := hsafe
  idle := hidle
  mirrors := hmirrors
  defaultLevel := hlevel.trans h.defaultLevel
  notified := hnotified.trans h.notified
  sent := hsent.trans h.sent
  started := h.started
  sends := h.sends

theorem Stands.unchanged (h : Stands klass s d) : d.coreChanged klass d.core = d := by
  rw [DBusLogServer.coreChanged_told h.started h.sends (List.append_nil d.core.signals).symm]
  simp

/-! ## The calls -/

theorem Stands.addCategory (h : Stands klass s d) (name : String) (level : Level) (flags : UInt64)
    (hroom : (s.addCategory name level flags).core.objects.heap.length < 2 ^ 32) :
    Stands klass (s.addCategory name level flags) (d.addCategory klass name level flags) := by
  have hsafe := h.safe.addCategory name level flags
  have hnew := h.safe.accounted.newCategory name level flags
  have hlength := (addCategory_told name level flags).length.trans_lt hroom
  have hmirrors := h.mirrors.newCategory name level flags hlength
  have hlevel : (d.core.newCategory name level flags).2.defaultLevel = d.core.defaultLevel := by
    unfold DBusLogCore.newCategory
    split
    · rfl
    · rfl
  unfold DBusLogServer.addCategory
  unfold NestedServer.addCategory at hsafe ⊢
  cases hlookup : s.core.categories.lookup name with
  | some e =>
    rw [hlookup] at hsafe
    obtain ⟨cat, _, _, hd⟩ := h.mirrors.lookup_some hlookup
    have hsame : (d.core.newCategory name level flags).2 = d.core := by
      unfold DBusLogCore.newCategory
      rw [hd]
    rw [hsame] at hmirrors ⊢
    rw [h.unchanged]
    exact h.silent hsafe h.idle (hmirrors.release e.2) rfl rfl rfl
  | none =>
    rw [hlookup] at hsafe
    obtain ⟨cat, hread, hsignals⟩ := h.mirrors.newCategory_signals hlookup level flags hlength
    obtain ⟨hframes, _, _⟩ := CoreCategories.newCategory_running hlookup level flags
    dsimp only at hsafe ⊢
    generalize s.core.newCategory name level flags = core at hnew hmirrors hread hframes hsafe ⊢
    have hleft := tell_leave_core (s := { s with core := core }) hnew hframes List.mem_cons_self
      fun cat => .categoryAdded cat.name cat.id cat.flags.toUInt32
    refine h.after hsignals hsafe h.idle ?_ (h.defaultLevel.trans hlevel.symm)
      (List.append_nil s.notified).symm ?_
    · refine Mirrors.release ?_ _
      rw [hleft]
      exact hmirrors.goOn hframes
    · show s.sent ++ ((core.objects.read _).map _).toList = _
      rw [hread]
      rfl

theorem Stands.removeCategory (h : Stands klass s d) (name : String) :
    Stands klass (s.removeCategory name) (d.removeCategory klass name).2 := by
  have hsafe := h.safe.removeCategory name
  unfold DBusLogServer.removeCategory
  unfold NestedServer.removeCategory at hsafe ⊢
  show Stands klass _ (d.coreChanged klass (d.core.removeCategory name).2)
  cases hlookup : s.core.categories.lookup name with
  | none =>
    have hsame : (d.core.removeCategory name).2 = d.core := by
      unfold DBusLogCore.removeCategory
      rw [h.mirrors.lookup_none hlookup]
    rw [hsame, h.unchanged]
    exact h
  | some e =>
    rw [hlookup] at hsafe
    obtain ⟨cat, hread, _, hd⟩ := h.mirrors.lookup_some hlookup
    obtain ⟨hsignals, hlevel⟩ : (d.core.removeCategory name).2.signals =
        d.core.signals ++ [.categoryRemoved cat] ∧
          (d.core.removeCategory name).2.defaultLevel = d.core.defaultLevel := by
      unfold DBusLogCore.removeCategory
      rw [hd]
      exact ⟨rfl, rfl⟩
    have hmirrors := h.mirrors.removeCategory name
    have hremoved := h.safe.accounted.removeCategory name
    obtain ⟨hframes, _⟩ := CoreCategories.removeCategory_running hlookup
    have hread : (s.core.removeCategory name).objects.read e.2 = some cat :=
      (CoreCategories.removeCategory_read name e.2).trans hread
    dsimp only at hsafe ⊢
    generalize s.core.removeCategory name = core at hmirrors hremoved hread hframes hsafe ⊢
    have hleft := tellRemoved_core (s := { s with core := core }) hremoved hframes
      List.mem_cons_self
    refine h.after hsignals hsafe h.idle ?_ (h.defaultLevel.trans hlevel.symm)
      (List.append_nil s.notified).symm ?_
    · rw [hleft]
      exact hmirrors.goOn hframes
    · show s.sent ++ ((core.objects.read e.2).map _).toList = _
      rw [hread]
      rfl

theorem foldl_tellRemoved_frame (cats : List Nat) (s : NestedServer) :
    (cats.foldl tellRemoved s).frames = s.frames ∧
      (cats.foldl tellRemoved s).defaultLevel = s.defaultLevel ∧
      (cats.foldl tellRemoved s).notified = s.notified := by
  induction cats generalizing s with
  | nil => exact ⟨rfl, rfl, rfl⟩
  | cons p rest ih => exact ih (s.tellRemoved p)

theorem removeAllCategories_signals {c : DBusLogCore} (hhandlers : c.removedHandlers = true) :
    c.removeAllCategories.signals = c.signals ++ c.getCategories.map .categoryRemoved ∧
      c.removeAllCategories.defaultLevel = c.defaultLevel := by
  unfold DBusLogCore.removeAllCategories
  rw [if_pos hhandlers, DBusLogCore.emitAll_eq]
  split
  · exact ⟨rfl, rfl⟩
  next hnone =>
    have hempty : c.categories.values = [] :=
      List.eq_nil_of_length_eq_zero (Nat.eq_zero_of_not_pos hnone)
    refine ⟨?_, rfl⟩
    unfold DBusLogCore.getCategories
    rw [hempty]
    exact (List.append_nil c.signals).symm

theorem Stands.removeAllCategories (h : Stands klass s d) :
    Stands klass s.removeAllCategories (d.removeAllCategories klass) := by
  obtain ⟨array, hframes, _⟩ := CoreCategories.removeAllCategories_running h.safe.removedHandlers
  obtain ⟨hmirrors, hsent⟩ := foldl_tellRemoved_sent
    (s := { s with core := s.core.removeAllCategories }) h.safe.accounted.removeAllCategories
    h.mirrors.removeAllCategories hframes
  obtain ⟨hidle, hdefault, hnotified⟩ := foldl_tellRemoved_frame
    (s.core.matched fun _ => true) { s with core := s.core.removeAllCategories }
  obtain ⟨hsignals, hlevel⟩ := removeAllCategories_signals
    (h.mirrors.handlers.symm.trans h.safe.removedHandlers)
  have hread : s.core.removeAllCategories.objects.read = s.core.objects.read := by
    funext a
    exact CoreCategories.removeAllCategories_read a
  have hcats : (s.core.matched fun _ => true).filterMap s.core.objects.read =
      d.core.getCategories := by
    have hmatched := h.mirrors.matched_read fun _ => true
    rw [List.filter_true] at hmatched
    exact hmatched
  rw [hread, hcats] at hsent
  refine h.after hsignals h.safe.removeAllCategories (hidle.trans h.idle) hmirrors
    (hdefault.trans (h.defaultLevel.trans hlevel.symm)) (hnotified.trans ?_) (hsent.trans ?_)
  · rw [List.flatMap_map]
    simp [CoreSignal.noticed]
  · rw [List.map_map]
    rfl

/-- A handler of the server has told the bus, and the core has gone on. -/
theorem Stands.returned (h : Stands klass s d) (hsafe : s'.Safe) {frame : ServerFrame}
    (hframes : s'.frames = [frame]) {p : Nat} (hframe : frame.coreFrame? = some (.changed p))
    {core : DBusLogCore} {signal : CoreSignal} (hlog : core.signals = d.core.signals ++ [signal])
    (hmirrors : s'.core.Mirrors core) (hlevel : s.defaultLevel = core.defaultLevel)
    (hdefault : s'.defaultLevel = s.defaultLevel)
    (hnotified : s'.notified = s.notified ++ signal.noticed core) {cat : DBusLogCategory}
    (hread : s'.core.objects.read p = some cat) {told : DBusLogCategory → BusSignal}
    (htold : told cat = signal.onBus core) (hsent : s'.sent = s.sent) :
    Stands klass ({ s' with frames := [] }.tell p told).leave (d.coreChanged klass core) := by
  refine h.after hlog (hsafe.returned hframes hframe told).1 rfl
    (hsafe.leave_mirrors hmirrors hframes hframe told) (hdefault.trans hlevel) ?_ ?_
  · rw [List.flatMap_singleton]
    exact hnotified
  · show s'.sent ++ ((s'.core.objects.read p).map told).toList = _
    rw [hread, hsent, List.map_singleton, ← htold]
    rfl

theorem Stands.setCategoryLevel (h : Stands klass s d) (name : String) (level : Level) :
    ∃ t, Settles (s.setCategoryLevel name level) t ∧
      Stands klass t (d.setCategoryLevel klass name level).2 := by
  have hsafe := h.safe.setCategoryLevel name level
  have hmirrors := h.mirrors.setCategoryLevel name level
  show ∃ t, Settles _ t ∧
    Stands klass t (d.coreChanged klass (d.core.setCategoryLevel name level).2)
  unfold NestedServer.setCategoryLevel at hsafe ⊢
  dsimp only at hsafe ⊢
  cases hchange : s.core.leveling name level with
  | none =>
    rw [hchange] at hsafe
    rw [h.mirrors.levelUnchanged hchange] at hmirrors ⊢
    rw [h.unchanged]
    exact ⟨_, .refl h.idle, h.silent hsafe h.idle hmirrors rfl rfl rfl⟩
  | some change =>
    obtain ⟨p, cat⟩ := change
    rw [hchange] at hsafe
    obtain ⟨hsignals, hlevel, hread, hname⟩ := h.mirrors.levelChanged hchange
    dsimp only at hsafe ⊢
    have hframes : (ServerFrame.level p :: s.frames) = [.level p] := by rw [h.idle]
    refine ⟨_, .cons (handlersReturn_iff.mpr ⟨.level p, [], hframes, rfl⟩) (.refl rfl), ?_⟩
    refine h.returned hsafe hframes rfl hsignals hmirrors (h.defaultLevel.trans hlevel.symm) rfl ?_
      hread rfl rfl
    show s.notified ++ [ServerSignal.categoryLevel name level] = _
    rw [← hname]
    rfl

theorem Stands.setDefaultLevel (h : Stands klass s d) (level : Level) :
    ∃ t, Settles (s.setDefaultLevel level) t ∧
      Stands klass t (d.coreChanged klass (d.core.setDefaultLevel level).2) := by
  have hsafe := h.safe.setDefaultLevel level
  unfold NestedServer.setDefaultLevel at hsafe ⊢
  by_cases hchange : level ≥ Level.always ∧ level < Level.count ∧ s.defaultLevel ≠ level
  · obtain ⟨halways, hcount, hne⟩ := hchange
    have hcore : (d.core.setDefaultLevel level).2 =
        { d.core with defaultLevel := level }.emit .defaultLevel := by
      unfold DBusLogCore.setDefaultLevel
      rw [if_pos ⟨halways, hcount⟩]
      exact if_pos (h.defaultLevel ▸ hne)
    have hmirrors : s.core.Mirrors ({ d.core with defaultLevel := level }.emit .defaultLevel) := by
      refine ⟨h.mirrors.table, h.mirrors.named, h.mirrors.lastCid, h.mirrors.counted,
        h.mirrors.ids, h.mirrors.handlers, h.mirrors.gone, fun id => (h.mirrors.said id).trans ?_⟩
      show _ = CoreSignal.saidAbout id (d.core.signals ++ [.defaultLevel])
      rw [CoreCategories.saidAbout_append]
      exact (List.append_nil _).symm
    rw [if_pos ⟨halways, hcount, hne⟩] at hsafe ⊢
    rw [hcore]
    have hframes : (ServerFrame.defaultLevel :: s.frames) = [.defaultLevel] := by rw [h.idle]
    have hundrained : Undrained { s with
        defaultLevel := level
        notified := s.notified ++ [.defaultLevel level]
        frames := .defaultLevel :: s.frames } .handlersReturn := trivial
    refine ⟨_, .cons (handlersReturn_iff.mpr ⟨.defaultLevel, [], hframes, rfl⟩) (.refl rfl), ?_⟩
    have hlog : ({ d.core with defaultLevel := level }.emit .defaultLevel).signals =
        d.core.signals ++ [.defaultLevel] := rfl
    exact h.after hlog (hsafe.goOn hframes hundrained) rfl hmirrors rfl rfl rfl
  · rw [if_neg hchange]
    have hcore : (d.core.setDefaultLevel level).2 = d.core := by
      unfold DBusLogCore.setDefaultLevel
      split
      next hlevel =>
        refine if_neg fun hne => hchange ⟨hlevel.1, hlevel.2, ?_⟩
        rw [h.defaultLevel]
        exact hne
      next => rfl
    rw [hcore, h.unchanged]
    exact ⟨s, .refl h.idle, h⟩

/-- Nothing is to be enabled or disabled. -/
theorem Stands.same (h : Stands klass s d) {name : String} {enable : Bool}
    (hnone : s.core.enabling name enable = none) :
    Stands klass { s with core := s.core.setCategoryEnabled name enable }
      (d.coreChanged klass (d.core.setCategoryEnabled name enable)) := by
  have hmirrors := h.mirrors.setCategoryEnabled name enable
  rw [h.mirrors.unchanged hnone] at hmirrors ⊢
  rw [h.unchanged]
  exact h.silent (h.safe.unchanged hnone) h.idle hmirrors rfl rfl rfl

/-- A category has been enabled or disabled, and the handlers have returned. -/
theorem Stands.flip (h : Stands klass s d) {name : String} {p : Nat} {cat : DBusLogCategory}
    {enable : Bool} (hsome : s.core.enabling name enable = some (p, cat)) {loop : EnableLoop}
    (hsafe : Safe ({ s with core := s.core.setCategoryEnabled name enable }.announce name p enable
      loop)) :
    ({ s with core := s.core.setCategoryEnabled name enable }.announce name p enable loop).frames =
        [.flags p enable loop] ∧
      Stands klass ({ { s with core := s.core.setCategoryEnabled name enable }.announce name p
        enable loop with frames := [] }.tell p fun cat =>
          .categoryFlagsChanged cat.id cat.flags.toUInt32).leave
        (d.coreChanged klass (d.core.setCategoryEnabled name enable)) := by
  obtain ⟨hsignals, hlevel, hread, hname⟩ := h.mirrors.changed hsome
  have hframes : ({ s with core := s.core.setCategoryEnabled name enable }.announce name p enable
      loop).frames = [.flags p enable loop] := by
    show ServerFrame.flags p enable loop :: s.frames = _
    rw [h.idle]
  have hmask : CategoryFlag.enabled &&& CategoryFlag.enabled ≠ 0 := by decide
  refine ⟨hframes, h.returned hsafe hframes rfl hsignals (h.mirrors.setCategoryEnabled name enable)
    (h.defaultLevel.trans hlevel.symm) rfl ?_ hread rfl rfl⟩
  show s.notified ++ [if enable then ServerSignal.categoryEnabled name
    else .categoryDisabled name] = _
  rw [CoreSignal.noticed, if_pos hmask, DBusLogCategory.enabled_switched, ← hname]
  rfl

theorem Stands.enableNames (h : Stands klass s d) (enable : Bool) (names : List String) :
    ∃ t, Settles (enableNames enable names s) t ∧
      Stands klass t (d.setEach klass names enable) := by
  induction names generalizing s d with
  | nil => exact ⟨s, .refl h.idle, h⟩
  | cons name rest ih =>
    unfold NestedServer.enableNames
    cases hchange : s.core.enabling name enable with
    | none => exact ih (h.same hchange)
    | some change =>
      have hsafe : Safe ({ s with core := s.core.setCategoryEnabled name enable }.announce name
          change.1 enable (.names rest)) := h.safe.announce hchange fun _ _ he => by cases he
      obtain ⟨hframes, hnext⟩ := h.flip hchange hsafe
      obtain ⟨t, hsettles, ht⟩ := ih hnext
      exact ⟨t, .cons (handlersReturn_iff.mpr ⟨_, [], hframes, rfl⟩) hsettles, ht⟩

/-- The bus has been told, and no category has another name. -/
theorem Safe.returned_names (h : Safe s) {frame : ServerFrame} {frames : List ServerFrame}
    (hframes : s.frames = frame :: frames) {p : Nat} (hframe : frame.coreFrame? = some (.changed p))
    (signal : DBusLogCategory → BusSignal) (a : Nat) :
    ({ s with frames := frames }.tell p signal).leave.core.objects.read a =
      s.core.objects.read a := by
  have hcore : s.core.frames = .changed p :: frames.filterMap ServerFrame.coreFrame? := by
    rw [h.synced, hframes, List.filterMap_cons, hframe]
  rw [tell_leave_core (s := { s with frames := frames }) h.accounted hcore List.mem_cons_self signal]
  exact CoreCategories.goOn_read _ a

/-- The array of the loop has the categories with these names. -/
theorem Stands.enablePattern (h : Stands klass s d) (enable : Bool) {array : Nat}
    {cats items : List Nat} {names : List String} (hpool : array ∈ s.core.pool)
    (hread : s.core.arrays.read array = some items) (hcats : ∀ q ∈ cats, q ∈ items)
    (hnames : (cats.map fun q => (s.core.objects.read q).map (·.name)) = names.map some) :
    ∃ t, Settles (enablePattern enable array cats s) t ∧
      Stands klass t (d.setEach klass names enable) := by
  induction cats generalizing s d items names with
  | nil =>
    cases names with
    | nil =>
      rw [h.safe.enablePattern_nil enable hpool]
      exact ⟨s, .refl h.idle, h⟩
    | cons name rest => cases hnames
  | cons q rest ih =>
    cases names with
    | nil => cases hnames
    | cons name names =>
      obtain ⟨hname, hnames⟩ := List.cons.inj hnames
      have hrest : ∀ q ∈ rest, q ∈ items := fun q hq => hcats q (List.mem_cons_of_mem _ hq)
      -- whatever is done to the category, the others keep their names
      have hkept : (rest.map fun q =>
          ((s.core.setCategoryEnabled name enable).objects.read q).map (·.name)) =
          names.map some := by
        rw [← hnames]
        exact List.map_congr_left fun q _ => CoreCategories.setCategoryEnabled_names _ _ _ q
      obtain ⟨name', hname', hround⟩ :=
        h.safe.enablePattern_cons enable rest hpool hread (hcats q List.mem_cons_self)
      cases Option.some.inj (hname'.symm.trans hname)
      obtain ⟨howner, hsamePool⟩ := s.core.setCategoryEnabled_sameOwner name enable
      obtain ⟨⟨p, cat⟩, hchange, he⟩ | ⟨hchange, he⟩ := hround
      · rw [he]
        have hsafe : Safe ({ s with core := s.core.setCategoryEnabled name enable }.announce name p
            enable (.pattern array rest)) := h.safe.announce hchange fun _ _ he => by
          cases he
          exact ⟨items, hread, hrest⟩
        obtain ⟨hframes, hnext⟩ := h.flip hchange hsafe
        obtain ⟨hpool', items', hread', hrest'⟩ := hsafe.pending hframes (hsamePool ▸ hpool)
          fun cat => .categoryFlagsChanged cat.id cat.flags.toUInt32
        obtain ⟨t, hsettles, ht⟩ := ih hnext hpool' hread' hrest' (by
          rw [← hkept]
          refine List.map_congr_left fun q _ => ?_
          rw [hsafe.returned_names hframes rfl]
          rfl)
        exact ⟨t, .cons (handlersReturn_iff.mpr ⟨_, [], hframes, rfl⟩) hsettles, ht⟩
      · rw [he]
        refine ih (h.same hchange) (hsamePool ▸ hpool) (howner.read array items hread) hrest hkept

/-- The array that a pattern stands for has the names that the other server goes through. -/
theorem Stands.matched_names (h : Stands klass s d) (matching : String → Bool) :
    ((s.core.matched matching).map fun q => (s.core.objects.read q).map (·.name)) =
      (((d.core.categories.values.filter fun cat => matching cat.name).insertionSort
        fun cat cat' => cat.name ≤ cat'.name).map (·.name)).map some := by
  have hnamed : ∀ q ∈ s.core.matched matching, ∃ cat, s.core.objects.read q = some cat := by
    intro q hq
    obtain ⟨e, he, rfl⟩ := List.mem_map.mp hq
    have he := List.mem_of_mem_filter ((List.mem_insertionSort _).mp he)
    obtain ⟨cat, hread, _⟩ := Option.map_eq_some_iff.mp (h.mirrors.named e he)
    exact ⟨cat, hread⟩
  rw [← h.mirrors.matched_read matching]
  generalize s.core.matched matching = cats at hnamed
  induction cats with
  | nil => rfl
  | cons q rest ih =>
    obtain ⟨cat, hread⟩ := hnamed q List.mem_cons_self
    rw [List.map_cons, List.filterMap_cons, hread]
    exact congrArg _ (ih fun q hq => hnamed q (List.mem_cons_of_mem _ hq))

theorem Stands.setPatternEnabled (h : Stands klass s d) (matching : String → Bool) (enable : Bool) :
    ∃ t, Settles (s.setPatternEnabled matching enable) t ∧
      Stands klass t ((ServerCall.setPatternEnabled matching enable).plain klass d) := by
  have hread := fun a => s.core.findCategories_read matching a
  have hfound : Stands klass { s with core := s.core.findCategories matching } d :=
    h.silent (h.safe.findCategories matching) h.idle (h.mirrors.findCategories matching) rfl rfl rfl
  refine hfound.enablePattern enable List.mem_cons_self (RefMemory.read_alloc_self _)
    (fun _ => id) ?_
  rw [← h.matched_names matching]
  refine List.map_congr_left fun q _ => ?_
  rw [hread]

/-! ## Runs -/

/-- Step lemma: the handlers return, and both servers have done the same. -/
theorem Stands.step (h : Stands klass s d) {call : ServerCall} (hs : s.step call = some s')
    (hroom : s'.core.objects.heap.length < 2 ^ 32) :
    ∃ t, Settles s' t ∧ Stands klass t (call.plain klass d) := by
  cases call with
  | addCategory name level flags =>
    cases hs
    have hnext := h.addCategory name level flags hroom
    exact ⟨_, .refl hnext.idle, hnext⟩
  | removeCategory name =>
    cases hs
    have hnext := h.removeCategory name
    exact ⟨_, .refl hnext.idle, hnext⟩
  | removeAllCategories =>
    cases hs
    have hnext := h.removeAllCategories
    exact ⟨_, .refl hnext.idle, hnext⟩
  | setCategoryLevel name level =>
    cases hs
    exact h.setCategoryLevel name level
  | setDefaultLevel level =>
    cases hs
    exact h.setDefaultLevel level
  | setNamesEnabled names enable =>
    cases hs
    exact h.enableNames enable names
  | setPatternEnabled matching enable =>
    cases hs
    exact h.setPatternEnabled matching enable
  | log cname =>
    have hsafe := h.safe.step (show Undrained s (.log cname) from trivial) hs
    cases hs
    exact ⟨_, .refl h.idle, h.silent hsafe h.idle (h.mirrors.log cname) rfl rfl rfl⟩
  | handlersReturn => cases (step_idle h.idle).symm.trans hs
  | drainPool =>
    have hsafe := h.safe.step (show Undrained s .drainPool from trivial) hs
    cases hs
    exact ⟨_, .refl h.idle, h.silent hsafe h.idle h.mirrors.drainPool rfl rfl rfl⟩

/-- Run lemma. -/
theorem Stands.run {calls : List ServerCall} {t : NestedServer} (h : Stands klass s d)
    (hcalls : AtOnce s calls t) (hroom : t.core.objects.heap.length < 2 ^ 32) :
    Stands klass t (calls.foldl (fun d call => call.plain klass d) d) := by
  induction hcalls generalizing d with
  | nil s => exact h
  | cons hs hreturn hrest ih =>
    have hfits := (hreturn.length.trans hrest.length).trans_lt hroom
    obtain ⟨t', hsettles, hnext⟩ := h.step hs hfits
    cases hsettles.unique hreturn
    exact ih hnext hroom

/-- Both servers begin alike. -/
theorem new_stands (bus : DABus) (path : String) (policy : Policy) {backend : β}
    (hsends : DBusLogServer.Sends klass (klass.exportServer backend).2) :
    Stands klass new ((DBusLogServer.new bus path policy backend).start klass) where
  safe := new_safe
  idle := rfl
  mirrors := CoreCategories.new_mirrors 0 true
  defaultLevel := rfl
  notified := rfl
  sent := rfl
  started := rfl
  sends := hsends

/-- When the handlers of the application return at once, the server with nested handlers is the
server whose handlers do not call it: after the same calls both have the same table, have called the
same handlers, and have sent the same signals to the bus, each in the same order. -/
theorem server_of_atOnce (bus : DABus) (path : String) (policy : Policy) {backend : β}
    (hsends : DBusLogServer.Sends klass (klass.exportServer backend).2) {calls : List ServerCall}
    {t : NestedServer} (hcalls : AtOnce new calls t)
    (hroom : t.core.objects.heap.length < 2 ^ 32) :
    Stands klass t (calls.foldl (fun d call => call.plain klass d)
      ((DBusLogServer.new bus path policy backend).start klass)) :=
  (new_stands bus path policy hsends).run hcalls hroom

end NestedServer

end DBusLog

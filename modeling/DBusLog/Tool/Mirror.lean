import DBusLog.Client.Containers
import DBusLog.Server.Defaults
import DBusLog.Tool.Model

/-!
# What the tool knows

A client that mirrors the category table of its server goes on doing so when a call enables or
disables categories, once it has processed the signals of the call. A reset that is computed from
such a mirror names the right categories.
-/

namespace DBusLog

/-- The client shows the categories of the table, and nothing else. -/
structure Mirrored (t : KeyedTable DBusLogCategory.name) (c : DBusLogClient) : Prop where
  shown : ∀ cat ∈ t.values, c.entryAt cat.id = some (cat.name, cat.flags)
  known : ∀ id entry, c.entryAt id = some entry →
    ∃ cat ∈ t.values, cat.id = id ∧ (cat.name, cat.flags) = entry

/-- It is enough to look at the entries that the client has. -/
theorem mirrored_iff {t : KeyedTable DBusLogCategory.name} {c : DBusLogClient} :
    (∀ cat ∈ t.values, c.entryAt cat.id = some (cat.name, cat.flags)) ∧
      (∀ e ∈ c.table.values, c.entryAt e.1 = none ∨
        ∃ cat ∈ t.values, cat.id = e.1 ∧ c.entryAt e.1 = some (cat.name, cat.flags)) ↔
    Mirrored t c := by
  constructor
  · rintro ⟨hshown, hentries⟩
    refine ⟨hshown, fun id entry he => ?_⟩
    obtain ⟨e, hlookup, _⟩ := Option.bind_eq_some_iff.mp he
    have hid : e.1 = id := KeyedTable.key_of_lookup hlookup
    obtain hnone | ⟨cat, hcat, hcid, hentry⟩ := hentries e (KeyedTable.mem_of_lookup hlookup)
    · rw [hid, he] at hnone
      cases hnone
    · rw [hid, he] at hentry
      exact ⟨cat, hcat, hcid.trans hid, (Option.some.inj hentry).symm⟩
  · intro h
    refine ⟨h.shown, fun e _ => ?_⟩
    cases hentry : c.entryAt e.1 with
    | none => exact .inl rfl
    | some entry =>
      obtain ⟨cat, hcat, hid, he⟩ := h.known e.1 entry hentry
      exact .inr ⟨cat, hcat, hid, congrArg some he.symm⟩

instance (t : KeyedTable DBusLogCategory.name) (c : DBusLogClient) : Decidable (Mirrored t c) :=
  decidable_of_iff _ mirrored_iff

/-- The client is connected and mirrors the table. -/
structure InStep (t : KeyedTable DBusLogCategory.name) (c : DBusLogClient) : Prop
    extends Mirrored t c where
  regular : ∀ cat ∈ t.values, cat.Regular
  listening : c.Listening
  connected : c.connected = true

section Mirrored

variable {t : KeyedTable DBusLogCategory.name} {c : DBusLogClient} {cat : DBusLogCategory}

/-- Two categories that a client shows do not share an id. -/
theorem Mirrored.eq_of_id (h : Mirrored t c) {old : DBusLogCategory} (hold : old ∈ t.values)
    (hcat : cat ∈ t.values) (hid : old.id = cat.id) : old = cat := by
  have hshown := h.shown old hold
  rw [hid, h.shown cat hcat] at hshown
  exact KeyedTable.eq_of_key_eq hold hcat (congrArg Prod.fst (Option.some.inj hshown)).symm

/-- The client hears of a category whose flags have changed. -/
theorem InStep.reflag (h : InStep t c) {old : DBusLogCategory} (hold : old ∈ t.values)
    (hname : cat.name = old.name) (hid : cat.id = old.id) (hregular : cat.Regular) :
    InStep (t.insert cat) (c.handle (.categoryFlagsChanged cat.id cat.flags.toUInt32)) := by
  obtain ⟨hlistening, hentries⟩ := h.listening.handle
    (.categoryFlagsChanged cat.id cat.flags.toUInt32) hregular.id
  have hentry : (c.handle (.categoryFlagsChanged cat.id cat.flags.toUInt32)).entryAt =
      Function.update c.entryAt cat.id (some (cat.name, cat.flags)) := by
    rw [hentries]
    change Function.update c.entryAt cat.id ((c.entryAt cat.id).map _) = _
    rw [hid, h.shown old hold, toUInt64_toUInt32 hregular.narrow, hname]
    rfl
  refine ⟨⟨?_, ?_⟩, ?_, hlistening, ?_⟩
  · intro other hmem
    rw [hentry]
    obtain rfl | ⟨hother, hne⟩ := (KeyedTable.mem_insert_iff t).mp hmem
    · exact Function.update_self _ _ _
    · -- ids tell the categories apart
      have hid' : other.id ≠ cat.id := by
        intro he
        rw [h.eq_of_id hother hold (he.trans hid)] at hne
        exact hne hname.symm
      rw [Function.update_of_ne hid']
      exact h.shown other hother
  · intro id entry he
    rw [hentry] at he
    by_cases hsame : id = cat.id
    · rw [hsame, Function.update_self] at he
      exact ⟨cat, (KeyedTable.mem_insert_iff t).mpr (.inl rfl), hsame.symm, Option.some.inj he⟩
    · rw [Function.update_of_ne hsame] at he
      obtain ⟨other, hother, hid', he⟩ := h.known id entry he
      refine ⟨other, (KeyedTable.mem_insert_iff t).mpr (.inr ⟨hother, fun hne => hsame ?_⟩), hid',
        he⟩
      rw [← hid', KeyedTable.eq_of_key_eq hother hold (hne.trans hname), hid]
  · intro other hmem
    obtain rfl | ⟨hother, _⟩ := (KeyedTable.mem_insert_iff t).mp hmem
    · exact hregular
    · exact h.regular other hother
  · exact (ClientConnection.handle_frame c _).1.trans h.connected

/-- Any client that is connected is ready to follow the table that it mirrors. -/
theorem InStep.of_run {autostartFlag : Bool} {events : List ClientEvent} {c : ClientConnection}
    (halternating : ClientEvent.Alternating events)
    (hrun : Runs.run ClientConnection.step (.new autostartFlag) events = some c)
    (hconnected : c.connected = true) (hmirrored : Mirrored t c.toDBusLogClient)
    (hregular : ∀ cat ∈ t.values, cat.Regular) : InStep t c.toDBusLogClient := by
  have hagrees : DBusLogClient.Agreeing c.toDBusLogClient := by
    refine Runs.invariant_of_forall (C := fun _ => True)
      (P := fun c => DBusLogClient.Agreeing c.toDBusLogClient) (fun c event c' h _ hs => ?_)
      (fun _ _ => trivial) hrun (ClientConnection.new_agreeing autostartFlag)
    rw [← ClientConnection.stepIn_asStored] at hs
    exact (ClientConnection.stepIn_agrees h hs).1
  have hlinked := (ClientConnection.Attempting.run halternating hrun).linked.2
  exact ⟨hmirrored, hregular, ⟨hagrees.toSound, hlinked.trans hconnected⟩, hconnected⟩

/-! ## The names of a reset -/

/-- The objects in the public array are what the table by ids shows. -/
theorem shownCategories_iff (h : c.Sound) {name : String} {flags : UInt64} :
    (∃ cat ∈ c.shownCategories, cat.name = name ∧ cat.flags = flags) ↔
      ∃ id, c.entryAt id = some (name, flags) := by
  unfold DBusLogClient.shownCategories DBusLogClient.entryAt
  constructor
  · rintro ⟨cat, hmem, rfl, rfl⟩
    obtain ⟨p, hp, hcat⟩ := List.mem_filterMap.mp hmem
    obtain ⟨e, he, rfl⟩ := (h.shown p).mp hp
    refine ⟨e.1, ?_⟩
    rw [KeyedTable.lookup_of_mem he, Option.bind_some, hcat]
    rfl
  · rintro ⟨id, hentry⟩
    obtain ⟨e, hlookup, hentry⟩ := Option.bind_eq_some_iff.mp hentry
    obtain ⟨cat, hcat, he⟩ := Option.map_eq_some_iff.mp hentry
    simp only [Prod.mk.injEq] at he
    refine ⟨cat, List.mem_filterMap.mpr ⟨e.2, ?_, hcat⟩, he⟩
    exact (h.shown e.2).mpr ⟨e, KeyedTable.mem_of_lookup hlookup, rfl⟩

/-- What the loop of the reset finds. -/
theorem resetNames_eq (cats : List DBusLogCategory) :
    App.resetNames cats =
      ((cats.filter fun cat => cat.byDefault && !cat.enabled).map (·.name),
        (cats.filter fun cat => !cat.byDefault && cat.enabled).map (·.name)) := by
  unfold App.resetNames
  induction cats using List.reverseRecOn with
  | nil => rfl
  | append_singleton cats cat ih =>
    rw [List.foldl_append, ih, List.filter_append, List.filter_append, List.map_append,
      List.map_append, List.foldl_cons, List.foldl_nil, List.filter_singleton,
      List.filter_singleton]
    cases hdefault : cat.byDefault <;> cases henabled : cat.enabled <;> simp

/-- The names that a reset enables, and the names that it disables. -/
def resetList (enable : Bool) (c : DBusLogClient) : List String :=
  if enable then (App.resetNames c.shownCategories).1 else (App.resetNames c.shownCategories).2

/-- They are the names of the categories that are not as they are by default. -/
theorem mem_resetList_iff (h : InStep t c) {enable : Bool} {name : String} :
    name ∈ resetList enable c ↔
      ∃ cat ∈ t.values, cat.name = name ∧ cat.byDefault = enable ∧ cat.enabled = !enable := by
  have hlist : name ∈ resetList enable c ↔ ∃ cat ∈ c.shownCategories, cat.name = name ∧
      cat.byDefault = enable ∧ cat.enabled = !enable := by
    unfold resetList
    rw [resetNames_eq]
    cases enable <;> simp [and_assoc, and_comm]
  have hshown : ∀ name flags, (∃ cat ∈ c.shownCategories, cat.name = name ∧ cat.flags = flags) ↔
      ∃ cat ∈ t.values, cat.name = name ∧ cat.flags = flags := by
    intro name flags
    rw [shownCategories_iff h.listening.toSound]
    constructor
    · rintro ⟨id, hentry⟩
      obtain ⟨cat, hmem, _, he⟩ := h.known id _ hentry
      exact ⟨cat, hmem, congrArg Prod.fst he, congrArg Prod.snd he⟩
    · rintro ⟨cat, hmem, rfl, rfl⟩
      exact ⟨cat.id, h.shown cat hmem⟩
  rw [hlist]
  -- the flags decide about both conditions
  have htransfer : ∀ {xs ys : List DBusLogCategory},
      (∀ name flags, (∃ cat ∈ xs, cat.name = name ∧ cat.flags = flags) →
        ∃ cat ∈ ys, cat.name = name ∧ cat.flags = flags) →
      (∃ cat ∈ xs, cat.name = name ∧ cat.byDefault = enable ∧ cat.enabled = !enable) →
      ∃ cat ∈ ys, cat.name = name ∧ cat.byDefault = enable ∧ cat.enabled = !enable := by
    intro xs ys himp hx
    obtain ⟨cat, hmem, hname, hdefault, henabled⟩ := hx
    obtain ⟨cat', hmem', hname', hflags⟩ := himp name cat.flags ⟨cat, hmem, hname, rfl⟩
    refine ⟨cat', hmem', hname', ?_, ?_⟩
    · unfold DBusLogCategory.byDefault at hdefault ⊢
      rw [hflags]
      exact hdefault
    · unfold DBusLogCategory.enabled at henabled ⊢
      rw [hflags]
      exact henabled
  exact ⟨htransfer fun name flags => (hshown name flags).mp,
    htransfer fun name flags => (hshown name flags).mpr⟩

end Mirrored

/-! ## Calls -/

namespace DBusLogServer

variable {Cred Policy β : Type} {lib : Libraries Cred Policy} {klass : DBusLogServerClass β}
  {s : DBusLogServer Policy β} {c : DBusLogClient}

/-- Names are switched, and the client hears of it. -/
theorem setEach_inStep (hstarted : s.started = true) (hsends : Sends klass s.backend)
    (h : InStep s.core.categories c) (names : List String) (enable : Bool) :
    ∃ signals : List BusSignal, (s.setEach klass names enable).sent = s.sent ++ signals ∧
      InStep (s.setEach klass names enable).core.categories
        (signals.foldl DBusLogClient.handle c) := by
  have hflags : ∀ cat : DBusLogCategory, flagsSignals klass s [cat] =
      [.categoryFlagsChanged cat.id cat.flags.toUInt32] := by
    intro cat
    unfold flagsSignals
    rw [if_pos hstarted, List.flatMap_singleton]
    exact hsends.categoryFlagsChanged cat.id cat.flags.toUInt32
  rw [setEach_eq]
  refine ⟨_, rfl, ?_⟩
  change InStep ((DBusLogCategory.switching enable).markEach s.core.categories names).1 _
  induction names using List.reverseRecOn with
  | nil =>
    have hnone : flagsSignals klass s [] = [] := by
      unfold flagsSignals
      split
      · rfl
      · rfl
    change InStep s.core.categories ((flagsSignals klass s []).foldl _ c)
    rw [hnone]
    exact h
  | append_singleton names name ih =>
    unfold Marking.markEach at ih ⊢
    rw [List.foldl_append, List.foldl_cons, List.foldl_nil]
    generalize names.foldl (DBusLogCategory.switching enable).mark (s.core.categories, []) = u at ih
    unfold Marking.mark
    cases hlookup : u.1.lookup name with
    | none => exact ih
    | some old =>
      dsimp only
      split
      · exact ih
      · have hold := KeyedTable.mem_of_lookup hlookup
        rw [flagsSignals_append, List.foldl_append]
        change InStep (u.1.insert (old.switched enable))
          ((flagsSignals klass s [old.switched enable]).foldl _ _)
        rw [hflags]
        exact ih.reflag hold rfl rfl ((ih.regular old hold).switched enable)

/-- Names are switched, and nothing else changes. -/
theorem setEach_toggled (names : List String) (enable : Bool) :
    s.core.Toggled (s.setEach klass names enable).core := by
  refine ⟨fun old hold => ?_, fun cat hmem => ?_, ?_⟩
  · exact ⟨_, (mem_setEach_iff klass s names enable).mpr ⟨old, hold, rfl⟩,
      DBusLogCategory.alike_ite _ enable old⟩
  · obtain ⟨old, hold, rfl⟩ := (mem_setEach_iff klass s names enable).mp hmem
    exact ⟨old, hold, DBusLogCategory.alike_ite _ enable old⟩
  · rw [setEach_eq]
    rfl

/-- The call enables or disables categories. -/
def Switching (call : LoggerCall) : Prop := ∃ enable, call.action? = some (enableAction enable)

/-- The call that enables, or disables, the categories with the names. -/
def namesCall (enable : Bool) (names : List String) : LoggerCall :=
  if enable then .categoryEnable names else .categoryDisable names

/-- A call that is allowed switches names, and those of a list if it has one. -/
theorem perform_switching (klass : DBusLogServerClass β) (ctx : ServerContext) {sender : String}
    (hallowed : ∀ enable, s.accessAllowed lib sender (enableAction enable) = true)
    {call : LoggerCall} (hcall : Switching call) :
    ∃ names enable, s.perform lib klass ctx sender call =
        (.methodReturn [], s.setEach klass names enable) ∧
      ∀ enable' names', call = namesCall enable' names' → enable = enable' ∧ names = names' := by
  have hnames : ∀ names enable, finish (s.callSetNamesEnabled lib klass sender names enable) =
      (.methodReturn [], s.setEach klass names enable) := by
    intro names enable
    unfold callSetNamesEnabled
    rw [if_neg (not_not.mpr (hallowed enable))]
    rfl
  have hpattern : ∀ pattern enable,
      finish (s.callSetPatternEnabled lib klass sender (some pattern) enable) =
        (.methodReturn [], s.setEach klass
          ((s.core.findCategories lib.patternMatch (some pattern)).map (·.name)) enable) := by
    intro pattern enable
    unfold callSetPatternEnabled
    rw [if_neg (not_not.mpr (hallowed enable))]
    rfl
  obtain ⟨enable₀, haction⟩ := hcall
  cases call with
  | categoryEnable names =>
    refine ⟨names, true, hnames names true, fun enable' names' he => ?_⟩
    cases enable' <;> cases he
    exact ⟨rfl, rfl⟩
  | categoryDisable names =>
    refine ⟨names, false, hnames names false, fun enable' names' he => ?_⟩
    cases enable' <;> cases he
    exact ⟨rfl, rfl⟩
  | categoryEnablePattern pattern =>
    refine ⟨_, true, hpattern pattern true, fun enable' names' he => ?_⟩
    cases enable' <;> cases he
  | categoryDisablePattern pattern =>
    refine ⟨_, false, hpattern pattern false, fun enable' names' he => ?_⟩
    cases enable' <;> cases he
  | _ => cases enable₀ <;> cases haction

end DBusLogServer

end DBusLog

import DBusLog.Core.Enabling
import DBusLog.Server.Agreement
import DBusLog.Server.Authorization

/-!
# Enabling categories by names and by a pattern

Both D-Bus calls set one category after another. What they leave behind is given by the categories
that are in the table and are meant; the order of a list, its repetitions and its unknown names do
not matter.
-/

namespace DBusLog

namespace DBusLogServer

variable {Cred Policy β : Type}

/-- The signal to the application about a category that has been enabled or disabled. -/
def enabledSignal (cat : DBusLogCategory) : ServerSignal :=
  if cat.enabled then .categoryEnabled cat.name else .categoryDisabled cat.name

/-- What the bus gets about categories that have been enabled or disabled. -/
def flagsSignals (klass : DBusLogServerClass β) (s : DBusLogServer Policy β)
    (cats : List DBusLogCategory) : List BusSignal :=
  if s.started then
    cats.flatMap fun cat => klass.emitCategoryFlagsChanged s.backend cat.id cat.flags.toUInt32
  else []

/-- The categories that `K` stands for have been enabled, or disabled, and the changes have been
announced: `flips` are the categories whose bit has changed, in the order of the announcements and
as they were announced. -/
structure Switched (klass : DBusLogServerClass β) (enable : Bool) (K : String → Prop)
    [DecidablePred K] (s s' : DBusLogServer Policy β) (flips : List DBusLogCategory) : Prop where
  table : ∀ name, s'.core.categories.lookup name =
    (s.core.categories.lookup name).map fun cat => if K name then cat.switched enable else cat
  once : (flips.map (·.name)).Nodup
  flipped : ∀ cat, cat ∈ flips ↔ ∃ old, s.core.categories.lookup old.name = some old ∧
    K old.name ∧ old.enabled ≠ enable ∧ old.switched enable = cat
  after : ∀ cat ∈ flips, cat.enabled = enable ∧ s'.core.categories.lookup cat.name = some cat
  signals : s'.core.signals =
    s.core.signals ++ flips.map fun cat => .categoryFlags cat CategoryFlag.enabled
  notified : s'.notified = s.notified ++ flips.map enabledSignal
  sent : s'.sent = s.sent ++ flagsSignals klass s flips
  rest : s' = { s with
    core := { s.core with categories := s'.core.categories, signals := s'.core.signals }
    notified := s'.notified
    sent := s'.sent }

section Switched

variable {klass : DBusLogServerClass β} {s : DBusLogServer Policy β} {enable : Bool}

/-- The server after its core has marked categories, with `u` as its table and its log. -/
def withSwitched (klass : DBusLogServerClass β) (s : DBusLogServer Policy β)
    (u : KeyedTable DBusLogCategory.name × List DBusLogCategory) : DBusLogServer Policy β :=
  { s with
    core := s.core.withSwitched u
    notified := s.notified ++ u.2.map enabledSignal
    sent := s.sent ++ flagsSignals klass s u.2 }

theorem flagsSignals_append (klass : DBusLogServerClass β) (s : DBusLogServer Policy β)
    (cats cats' : List DBusLogCategory) :
    flagsSignals klass s (cats ++ cats') =
      flagsSignals klass s cats ++ flagsSignals klass s cats' := by
  unfold flagsSignals
  split
  · exact List.flatMap_append
  · rfl

/-- The handlers of the server for one signal about the flags of a category. -/
theorem coreSignal_flags (klass : DBusLogServerClass β) (s : DBusLogServer Policy β)
    (cat : DBusLogCategory) : s.coreSignal klass (.categoryFlags cat CategoryFlag.enabled) =
      { s with
        notified := s.notified ++ [enabledSignal cat]
        sent := s.sent ++ flagsSignals klass s [cat] } := by
  unfold coreSignal flagsSignals
  dsimp only
  rw [if_pos (show CategoryFlag.enabled &&& CategoryFlag.enabled ≠ 0 by decide)]
  cases hstarted : s.started with
  | true =>
    rw [if_pos rfl, if_pos rfl, List.flatMap_singleton]
    rfl
  | false =>
    rw [if_neg Bool.false_ne_true, if_neg Bool.false_ne_true, List.append_nil]
    rfl

/-- One call of `dbus_log_core_set_category_enabled`, with the handlers of the server. -/
theorem setCategoryEnabled_switched (klass : DBusLogServerClass β) (s : DBusLogServer Policy β)
    (enable : Bool) (u : KeyedTable DBusLogCategory.name × List DBusLogCategory) (name : String) :
    (s.withSwitched klass u).coreChanged klass
        ((s.withSwitched klass u).core.setCategoryEnabled name enable) =
      s.withSwitched klass ((DBusLogCategory.switching enable).mark u name) := by
  change (s.withSwitched klass u).coreChanged klass
    ((s.core.withSwitched u).setCategoryEnabled name enable) = _
  rw [DBusLogCore.setCategoryEnabled_eq]
  obtain hsame | ⟨cat, hcat⟩ := (DBusLogCategory.switching enable).mark_cases u name
  · rw [hsame]
    exact coreChanged_self klass (s.withSwitched klass u)
  · rw [hcat]
    have hdrop : (s.core.withSwitched (u.1.insert cat, u.2 ++ [cat])).signals.drop
        (s.withSwitched klass u).core.signals.length =
          [.categoryFlags cat CategoryFlag.enabled] := by
      change (s.core.signals ++ (u.2 ++ [cat]).map _).drop (s.core.signals ++ u.2.map _).length = _
      rw [List.map_append, ← List.append_assoc, List.drop_left]
      rfl
    unfold coreChanged
    rw [hdrop, List.foldl_cons, List.foldl_nil, coreSignal_flags]
    unfold withSwitched
    dsimp only
    rw [flagsSignals_append, List.map_append, List.append_assoc, List.append_assoc]
    rfl

/-- All calls, for one name after another. -/
theorem setEach_eq (klass : DBusLogServerClass β) (s : DBusLogServer Policy β)
    (names : List String) (enable : Bool) :
    s.setEach klass names enable = s.withSwitched klass
      ((DBusLogCategory.switching enable).markEach s.core.categories names) := by
  have hstart : s = s.withSwitched klass (s.core.categories, []) := by
    unfold withSwitched flagsSignals DBusLogCore.withSwitched
    simp
  unfold setEach Marking.markEach
  conv_lhs => rw [hstart]
  exact List.foldl_hom (s.withSwitched klass) (fun u name =>
    setCategoryEnabled_switched klass s enable u name)

theorem Switched.of_marked {K : String → Prop} [DecidablePred K]
    {u : KeyedTable DBusLogCategory.name × List DBusLogCategory}
    (h : (DBusLogCategory.switching enable).Marked s.core.categories K u.1 u.2) :
    Switched klass enable K s (s.withSwitched klass u) u.2 where
  table := h.table
  once := h.once
  flipped cat := by
    rw [h.logged]
    constructor
    · rintro ⟨old, hmem, hK, hne, rfl⟩
      exact ⟨old, KeyedTable.lookup_of_mem hmem, hK,
        fun he => hne (DBusLogCategory.switched_of_enabled he), rfl⟩
    · rintro ⟨old, hlookup, hK, hne, rfl⟩
      exact ⟨old, KeyedTable.mem_of_lookup hlookup, hK,
        fun he => hne (DBusLogCategory.switched_eq_self_iff.mp he), rfl⟩
  after cat hcat := by
    refine ⟨?_, h.lookup_of_logged hcat⟩
    obtain ⟨old, _, _, _, rfl⟩ := (h.logged cat).mp hcat
    exact DBusLogCategory.enabled_switched enable old
  signals := rfl
  notified := rfl
  sent := rfl
  rest := rfl

/-- The calls for the names of a list that has, of the names in the table, those that `K` stands
for. -/
theorem setEach_marked (klass : DBusLogServerClass β) (enable : Bool) (K : String → Prop)
    [DecidablePred K] {names : List String}
    (hnames : ∀ cat ∈ s.core.categories.values, cat.name ∈ names ↔ K cat.name) :
    ∃ flips, (DBusLogCategory.switching enable).Marked s.core.categories K
        (s.setEach klass names enable).core.categories flips ∧
      Switched klass enable K s (s.setEach klass names enable) flips := by
  have hmarked := ((DBusLogCategory.switching enable).markEach_marked s.core.categories names).congr
    fun cat hmem _ => hnames cat hmem
  rw [setEach_eq]
  exact ⟨_, hmarked, .of_marked hmarked⟩

/-- The calls for the names of categories that have been switched. -/
theorem setEach_again {K : String → Prop} [DecidablePred K] {s' : DBusLogServer Policy β}
    {flips : List DBusLogCategory}
    (h : (DBusLogCategory.switching enable).Marked s.core.categories K s'.core.categories flips)
    {names : List String}
    (hnames : ∀ cat ∈ s.core.categories.values, cat.name ∈ names → K cat.name) :
    s'.setEach klass names enable = s' := by
  rw [setEach_eq, h.again hnames]
  unfold withSwitched flagsSignals DBusLogCore.withSwitched
  simp

/-- Who may switch categories does not change. -/
theorem Switched.accessAllowed {K : String → Prop} [DecidablePred K] {s' : DBusLogServer Policy β}
    {flips : List DBusLogCategory} (h : Switched klass enable K s s' flips)
    (lib : Libraries Cred Policy) (sender : String) (action : DBusLogAction) :
    s'.accessAllowed lib sender action = s.accessAllowed lib sender action := by
  rw [h.rest]
  rfl

/-- The names that `dbus_log_core_find_categories` finds are those that the pattern stands for. -/
theorem name_mem_found_iff {patternMatch : String → String → Bool} {c : DBusLogCore}
    (hstar : ∀ name, patternMatch "*" name) {pattern : Option String} {name : String} :
    name ∈ (c.findCategories patternMatch pattern).map (·.name) ↔
      (∃ cat, c.categories.lookup name = some cat) ∧
        DBusLogCore.selects patternMatch pattern name := by
  rw [List.mem_map]
  constructor
  · rintro ⟨cat, hmem, rfl⟩
    obtain ⟨hvalue, hselected⟩ := (DBusLogCore.mem_findCategories_iff hstar).mp hmem
    exact ⟨⟨cat, KeyedTable.lookup_of_mem hvalue⟩, hselected⟩
  · rintro ⟨⟨cat, hlookup⟩, hselected⟩
    have hkey : cat.name = name := KeyedTable.key_of_lookup hlookup
    refine ⟨cat, (DBusLogCore.mem_findCategories_iff hstar).mpr ⟨KeyedTable.mem_of_lookup hlookup,
      ?_⟩, hkey⟩
    rw [hkey]
    exact hselected

end Switched

/-- Enabling by a pattern agrees with enabling by names. Both calls are allowed, and the names that
are in the table are those of the categories that the pattern stands for. Both calls switch just
these categories, announce each change once, and leave the same table; after either of them,
neither does anything more. -/
theorem setPatternEnabled_agrees (lib : Libraries Cred Policy) (klass : DBusLogServerClass β)
    (s : DBusLogServer Policy β) (sender sender' : String) (pattern : Option String)
    (names : List String) (enable : Bool) (hstar : ∀ name, lib.patternMatch "*" name)
    (hallowed : s.accessAllowed lib sender (enableAction enable))
    (hallowed' : s.accessAllowed lib sender' (enableAction enable))
    (hnames : ∀ name, (s.core.categories.lookup name).isSome →
      (name ∈ names ↔ DBusLogCore.selects lib.patternMatch pattern name)) :
    ∃ s₁ s₂ flips₁ flips₂,
      s.callSetPatternEnabled lib klass sender pattern enable = (0, s₁) ∧
      s.callSetNamesEnabled lib klass sender' names enable = (0, s₂) ∧
      Switched klass enable (DBusLogCore.selects lib.patternMatch pattern · = true) s s₁ flips₁ ∧
      Switched klass enable (DBusLogCore.selects lib.patternMatch pattern · = true) s s₂ flips₂ ∧
      (∀ name, s₁.core.categories.lookup name = s₂.core.categories.lookup name) ∧
      flips₁.Perm flips₂ ∧
      ∀ t, t = s₁ ∨ t = s₂ →
        t.callSetPatternEnabled lib klass sender pattern enable = (0, t) ∧
        t.callSetNamesEnabled lib klass sender' names enable = (0, t) := by
  have hnames' : ∀ cat ∈ s.core.categories.values,
      cat.name ∈ names ↔ DBusLogCore.selects lib.patternMatch pattern cat.name = true := by
    intro cat hmem
    apply hnames
    rw [KeyedTable.lookup_of_mem hmem]
    rfl
  have hfound : ∀ cat ∈ s.core.categories.values,
      cat.name ∈ (s.core.findCategories lib.patternMatch pattern).map (·.name) ↔
        DBusLogCore.selects lib.patternMatch pattern cat.name = true := by
    intro cat hmem
    rw [name_mem_found_iff hstar]
    exact and_iff_right ⟨cat, KeyedTable.lookup_of_mem hmem⟩
  have hselected : ∀ (t : DBusLogServer Policy β), ∀ cat ∈ s.core.categories.values,
      cat.name ∈ (t.core.findCategories lib.patternMatch pattern).map (·.name) →
        DBusLogCore.selects lib.patternMatch pattern cat.name = true :=
    fun t cat _ hmem => ((name_mem_found_iff hstar).mp hmem).2
  obtain ⟨flips₁, hmarked₁, hswitched₁⟩ := setEach_marked klass enable
    (DBusLogCore.selects lib.patternMatch pattern · = true) hfound
  obtain ⟨flips₂, hmarked₂, hswitched₂⟩ := setEach_marked klass enable
    (DBusLogCore.selects lib.patternMatch pattern · = true) hnames'
  -- after either call, both find everything done
  have hagain : ∀ t flips, (DBusLogCategory.switching enable).Marked s.core.categories
        (DBusLogCore.selects lib.patternMatch pattern · = true) t.core.categories flips →
      Switched klass enable (DBusLogCore.selects lib.patternMatch pattern · = true) s t flips →
      t.callSetPatternEnabled lib klass sender pattern enable = (0, t) ∧
        t.callSetNamesEnabled lib klass sender' names enable = (0, t) := by
    intro t flips hmarked hswitched
    unfold callSetPatternEnabled callSetNamesEnabled
    rw [hswitched.accessAllowed lib sender, hswitched.accessAllowed lib sender',
      if_neg (not_not.mpr hallowed), if_neg (not_not.mpr hallowed'),
      setEach_again hmarked (hselected t),
      setEach_again hmarked fun cat hmem => (hnames' cat hmem).mp]
    exact ⟨rfl, rfl⟩
  refine ⟨_, _, flips₁, flips₂, ?_, ?_, hswitched₁, hswitched₂, hmarked₁.lookup_eq hmarked₂,
    hmarked₁.perm hmarked₂, ?_⟩
  · unfold callSetPatternEnabled
    rw [if_neg (not_not.mpr hallowed)]
  · unfold callSetNamesEnabled
    rw [if_neg (not_not.mpr hallowed')]
  · rintro t (rfl | rfl)
    · exact hagain _ flips₁ hmarked₁ hswitched₁
    · exact hagain _ flips₂ hmarked₂ hswitched₂

/-- Patterns without a wildcard, `*`, and `n*`. -/
def simplePatterns : Libraries Nat Unit :=
  { rootOnly with
    patternMatch := fun pattern name =>
      pattern = "*" || pattern = name || pattern = "n*" && name.front = 'n' }

/-- Three categories, two of which the pattern `n*` stands for. -/
def mixedServer : DBusLogServer Unit DBusLogServerDbus :=
  ["usb", "nfs", "net"].foldl
    (fun s name => s.addCategory DBusLogServerDbus.klass name Level.warning CategoryFlag.enabled)
    ((DBusLogServerDbus.newFull .system "/logger" ()).start DBusLogServerDbus.klass)

/-- The names come in another order than from the pattern, one of them twice and one unknown. -/
theorem setPatternEnabled_agrees_mixed :
    ∃ s₁ s₂ flips₁ flips₂,
      mixedServer.callSetPatternEnabled simplePatterns DBusLogServerDbus.klass ":1.1" (some "n*")
        false = (0, s₁) ∧
      mixedServer.callSetNamesEnabled simplePatterns DBusLogServerDbus.klass ":1.1"
        ["nfs", "tty", "net", "nfs"] false = (0, s₂) ∧
      Switched DBusLogServerDbus.klass false
        (DBusLogCore.selects simplePatterns.patternMatch (some "n*") · = true) mixedServer s₁
        flips₁ ∧
      Switched DBusLogServerDbus.klass false
        (DBusLogCore.selects simplePatterns.patternMatch (some "n*") · = true) mixedServer s₂
        flips₂ ∧
      (∀ name, s₁.core.categories.lookup name = s₂.core.categories.lookup name) ∧
      flips₁.Perm flips₂ ∧
      ∀ t, t = s₁ ∨ t = s₂ →
        t.callSetPatternEnabled simplePatterns DBusLogServerDbus.klass ":1.1" (some "n*") false =
          (0, t) ∧
        t.callSetNamesEnabled simplePatterns DBusLogServerDbus.klass ":1.1"
          ["nfs", "tty", "net", "nfs"] false = (0, t) := by
  refine setPatternEnabled_agrees simplePatterns DBusLogServerDbus.klass mixedServer ":1.1" ":1.1"
    (some "n*") ["nfs", "tty", "net", "nfs"] false (fun _ => rfl) (by decide) (by decide) ?_
  intro name hknown
  obtain ⟨cat, hlookup⟩ := Option.isSome_iff_exists.mp hknown
  have hmem : cat.name ∈ mixedServer.core.categories.values.map (·.name) :=
    List.mem_map_of_mem (KeyedTable.mem_of_lookup hlookup)
  have hnames : mixedServer.core.categories.values.map (·.name) = ["net", "nfs", "usb"] := by
    decide
  have heach : ∀ name ∈ ["net", "nfs", "usb"], name ∈ ["nfs", "tty", "net", "nfs"] ↔
      DBusLogCore.selects simplePatterns.patternMatch (some "n*") name = true := by
    decide
  rw [hnames] at hmem
  rw [← KeyedTable.key_of_lookup hlookup]
  exact heach cat.name hmem

end DBusLogServer

end DBusLog

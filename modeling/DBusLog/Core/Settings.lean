import DBusLog.Core.Operations

/-!
# The core without its senders

`settings` forgets everything of a core but the tables that its D-Bus interface shows. The
operations on these tables commute with it: what they make of the tables, and which signals they
emit, depends on the tables alone. Senders that come, go or change leave the tables as they are.
-/

namespace DBusLog

namespace DBusLogCore

/-- A core with the same tables and nothing else. -/
def settings (c : DBusLogCore) : DBusLogCore :=
  { new 0 c.removedHandlers with
    backlog := c.backlog
    categories := c.categories
    lastCid := c.lastCid
    defaultLevel := c.defaultLevel }

/-- An operation has made `c'` of `c`, and `d'` of the settings of `c`. -/
structure Follows (c c' d' : DBusLogCore) : Prop where
  settings : c'.settings = d'.settings
  signals : c'.signals = c.signals ++ d'.signals

section Settings

variable {c d : DBusLogCore}

theorem settings_categories (h : c.settings = d.settings) : c.categories = d.categories := by
  have he := congrArg categories h
  exact he

theorem settings_defaultLevel (h : c.settings = d.settings) : c.defaultLevel = d.defaultLevel := by
  have he := congrArg defaultLevel h
  exact he

theorem settings_backlog (h : c.settings = d.settings) : c.backlog = d.backlog := by
  have he := congrArg backlog h
  exact he

/-- No signal, and the same tables. -/
theorem Follows.refl (c : DBusLogCore) : Follows c c c.settings := ⟨rfl, (List.append_nil _).symm⟩

/-! ## Senders -/

theorem touch_settings (c : DBusLogCore) (array : Nat) : (c.touch array).settings = c.settings := by
  unfold touch
  split
  · rfl
  · rfl

theorem touch_signals (c : DBusLogCore) (array : Nat) : (c.touch array).signals = c.signals := by
  unfold touch
  split
  · rfl
  · rfl

theorem removeSender_settings (c : DBusLogCore) (i : Nat) :
    (c.removeSender i).2.settings = c.settings ∧ (c.removeSender i).2.signals = c.signals := by
  unfold removeSender
  dsimp only
  rw [← touch_settings c c.senders, ← touch_signals c c.senders]
  cases (c.touch c.senders).registered.idxOf? i with
  | none => exact ⟨rfl, rfl⟩
  | some index =>
    dsimp only
    obtain ⟨objects, hframe, _⟩ := removeHandler_frame (c.touch c.senders) i
      ((((c.touch c.senders).senderSignalIds.lookup i).map Prod.snd).getD 0)
    rw [hframe]
    exact ⟨rfl, rfl⟩

/-- A call into a sender leaves the tables alone. -/
theorem runSender_settings (c : DBusLogCore) (i : Nat) (f : DBusLogSender → DBusLogSender) :
    (c.runSender i f).settings = c.settings ∧ (c.runSender i f).signals = c.signals := by
  unfold runSender
  cases c.objects[i]? with
  | none => exact ⟨rfl, rfl⟩
  | some object =>
    dsimp only
    split
    · exact removeSender_settings _ i
    · exact ⟨rfl, rfl⟩

theorem runSenders_settings (c : DBusLogCore) (items : List Nat)
    (f : DBusLogSender → DBusLogSender) :
    (items.foldl (fun c i => c.runSender i f) c).settings = c.settings ∧
      (items.foldl (fun c i => c.runSender i f) c).signals = c.signals := by
  induction items generalizing c with
  | nil => exact ⟨rfl, rfl⟩
  | cons i items ih =>
    obtain ⟨hsettings, hsignals⟩ := ih (c.runSender i f)
    obtain ⟨hone, hone'⟩ := runSender_settings c i f
    exact ⟨hsettings.trans hone, hsignals.trans hone'⟩

theorem newSender_settings (c : DBusLogCore) (name : String) (pipe : Option (Nat × Nat)) :
    (c.newSender name pipe).2.settings = c.settings ∧
      (c.newSender name pipe).2.signals = c.signals ∧
      (c.newSender name pipe).1.isSome = pipe.isSome := by
  unfold newSender
  cases pipe with
  | none => exact ⟨rfl, rfl, rfl⟩
  | some fds =>
    refine ⟨?_, ?_, rfl⟩
    · exact touch_settings c c.senders
    · exact touch_signals c c.senders

theorem newSender_senderAt (c : DBusLogCore) (name : String) (readfd writefd : Nat) :
    (c.newSender name (some (readfd, writefd))).2.senderAt c.objects.length =
      some (.new name c.backlog readfd writefd) := by
  unfold newSender touch
  by_cases halive : c.arrays.alive c.senders
  · simp only [if_pos halive]
    change ((c.objects ++ _)[c.objects.length]?).map (·.sender) = _
    rw [List.getElem?_concat_length]
    rfl
  · simp only [if_neg halive]
    change ((c.objects ++ _)[c.objects.length]?).map (·.sender) = _
    rw [List.getElem?_concat_length]
    rfl

/-! ## Operations on the tables -/

theorem setDefaultLevel_follows (c : DBusLogCore) (level : Level) :
    (c.setDefaultLevel level).1 = (c.settings.setDefaultLevel level).1 ∧
      Follows c (c.setDefaultLevel level).2 (c.settings.setDefaultLevel level).2 := by
  unfold setDefaultLevel
  by_cases hlevel : level ≥ Level.always ∧ level < Level.count
  · rw [if_pos hlevel, if_pos hlevel]
    by_cases hsame : c.defaultLevel ≠ level
    · rw [if_pos hsame, if_pos (show c.settings.defaultLevel ≠ level from hsame)]
      exact ⟨rfl, rfl, rfl⟩
    · rw [if_neg hsame, if_neg (show ¬c.settings.defaultLevel ≠ level from hsame)]
      exact ⟨rfl, Follows.refl c⟩
  · rw [if_neg hlevel, if_neg hlevel]
    exact ⟨rfl, Follows.refl c⟩

theorem setBacklog_follows
    (ringSetMaxSize : BoundedRing DBusLogMessage → Int32 → BoundedRing DBusLogMessage)
    (c : DBusLogCore) (backlog : Int32) :
    Follows c (c.setBacklog ringSetMaxSize backlog)
      (c.settings.setBacklog ringSetMaxSize backlog) := by
  unfold setBacklog
  dsimp only
  by_cases hsame : c.backlog ≠ DBusLogSender.normalizeBacklog backlog
  · rw [if_pos hsame,
      if_pos (show c.settings.backlog ≠ DBusLogSender.normalizeBacklog backlog from hsame)]
    have hsenders := runSenders_settings
      { c with backlog := DBusLogSender.normalizeBacklog backlog } c.registered
    exact ⟨(hsenders _).1, congrArg (· ++ [CoreSignal.backlog]) (hsenders _).2⟩
  · rw [if_neg hsame,
      if_neg (show ¬c.settings.backlog ≠ DBusLogSender.normalizeBacklog backlog from hsame)]
    exact Follows.refl c

/-- The signals of `dbus_log_core_remove_all_categories`. -/
theorem emitAll_eq (cats : List DBusLogCategory) (c : DBusLogCore) :
    cats.foldl (fun c cat => c.emit (.categoryRemoved cat)) c =
      { c with signals := c.signals ++ cats.map .categoryRemoved } := by
  induction cats generalizing c with
  | nil =>
    rw [List.map_nil, List.append_nil]
    rfl
  | cons cat cats ih =>
    rw [List.foldl_cons, ih]
    unfold emit
    rw [List.map_cons, List.append_assoc, List.singleton_append]

theorem setCategoryEnabled_follows (c : DBusLogCore) (name : String) (enable : Bool) :
    Follows c (c.setCategoryEnabled name enable) (c.settings.setCategoryEnabled name enable) := by
  unfold setCategoryEnabled
  rw [show c.settings.categories = c.categories from rfl]
  cases c.categories.lookup name with
  | none => exact Follows.refl c
  | some cat =>
    dsimp only
    by_cases hoff : cat.enabled ∧ ¬enable
    · rw [if_pos hoff]
      exact ⟨rfl, rfl⟩
    · rw [if_neg hoff]
      by_cases hon : ¬cat.enabled ∧ enable
      · rw [if_pos hon]
        exact ⟨rfl, rfl⟩
      · rw [if_neg hon]
        exact Follows.refl c

theorem setCategoryLevel_follows (c : DBusLogCore) (name : String) (level : Level) :
    Follows c (c.setCategoryLevel name level).2 (c.settings.setCategoryLevel name level).2 := by
  unfold setCategoryLevel
  rw [show c.settings.categories = c.categories from rfl]
  by_cases hlevel : level ≥ Level.undefined ∧ level < Level.count
  · rw [if_pos hlevel, if_pos hlevel]
    cases c.categories.lookup name with
    | none => exact Follows.refl c
    | some cat =>
      dsimp only
      split
      · exact ⟨rfl, rfl⟩
      · exact Follows.refl c
  · rw [if_neg hlevel, if_neg hlevel]
    exact Follows.refl c

theorem findCategories_settings (patternMatch : String → String → Bool) (c : DBusLogCore)
    (pattern : Option String) :
    c.findCategories patternMatch pattern = c.settings.findCategories patternMatch pattern := rfl

end Settings

/-! ## Setting a level to no effect -/

/-- No valid level: or the category, if there is one, has the level already. -/
def KeepsLevel (c : DBusLogCore) (name : String) (level : Level) : Prop :=
  level ≥ Level.undefined ∧ level < Level.count → ∀ cat ∈ c.categories.lookup name, cat.level = level

instance (c : DBusLogCore) (name : String) (level : Level) : Decidable (c.KeepsLevel name level) :=
  inferInstanceAs (Decidable (level ≥ Level.undefined ∧ level < Level.count →
    ∀ cat ∈ c.categories.lookup name, cat.level = level))

theorem setCategoryLevel_keeps {c : DBusLogCore} {name : String} {level : Level}
    (h : c.KeepsLevel name level) : (c.setCategoryLevel name level).2 = c := by
  unfold setCategoryLevel
  by_cases hlevel : level ≥ Level.undefined ∧ level < Level.count
  · rw [if_pos hlevel]
    cases hcat : c.categories.lookup name with
    | none => rfl
    | some cat => exact if_neg (not_not.mpr (h hlevel cat hcat))
  · rw [if_neg hlevel]

end DBusLogCore

end DBusLog

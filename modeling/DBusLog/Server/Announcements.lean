import DBusLog.Core.Levels
import DBusLog.Server.Journal
import DBusLog.Server.Sessions

/-!
# What a server announces

The operations on all that a server shows over D-Bus: its categories, its default level and its
backlog. After each of them the signals that the bus has got agree with the chronicle of the core,
and whether the levels and the backlog are what they were depends on the state before it.
-/

namespace DBusLog

/-- An operation on what a server shows, by its application or by a D-Bus call. -/
inductive SettingOp
  | category (op : CategoryOp)
  | setDefaultLevel (level : Level)
  | callSetDefaultLevel (sender : String) (level : Level)
  | callSetBacklog (sender : String) (backlog : Int32)
  deriving DecidableEq

/-- A new category has an id that comes after those of `names`, and `names'` has its name. -/
def BusSignal.Issued (names names' : List String) : BusSignal → Prop
  | .categoryAdded name id _ => names.length < id.toNat ∧ nameOf names' id = some name
  | .categoryRemoved _ | .categoryFlagsChanged _ _ | .categoryLevelChanged _ _
  | .defaultLevelChanged _ | .backlogChanged _ => True

theorem BusSignal.Issued.mono {names names' more before : List String} {signal : BusSignal}
    (h : signal.Issued names names') (hbefore : before <+: names) (hmore : names' <+: more) :
    signal.Issued before more := by
  cases signal with
  | categoryAdded name id flags =>
    exact ⟨Nat.lt_of_le_of_lt hbefore.length_le h.1, nameOf_mono h.2 hmore⟩
  | _ => trivial

theorem CoreSignal.Issued.onBus {names names' : List String} {signal : CoreSignal}
    (h : signal.Issued names names') (c : DBusLogCore) : (signal.onBus c).Issued names names' := by
  cases signal with
  | categoryAdded cat => exact h
  | _ => trivial

/-- The name under which an operation logs, if it does. -/
def SessionOp.cname? : SessionOp → Option (Option String)
  | .log _ _ cname _ | .logv _ _ cname _ => some cname
  | .logOpen _ _ | .logClose _ _ _ | .vanished _ _ | .sender _ _ => none

namespace DBusLogServer

variable {Cred Policy β : Type}

section Operations

variable (lib : Libraries Cred Policy) (klass : DBusLogServerClass β)

/-- `dbus_log_server_set_default_level` -/
def setDefaultLevel (s : DBusLogServer Policy β) (level : Level) :
    Bool × DBusLogServer Policy β :=
  match s.core.setDefaultLevel level with
  | (valid, core) => (valid, s.coreChanged klass core)

/-- The server after an operation. -/
def adjust (s : DBusLogServer Policy β) : SettingOp → DBusLogServer Policy β
  | .category op => s.operate lib klass op
  | .setDefaultLevel level => (s.setDefaultLevel klass level).2
  | .callSetDefaultLevel sender level => (s.callSetDefaultLevel lib klass sender level).2
  | .callSetBacklog sender backlog => (s.callSetBacklog lib klass sender backlog).2

/-- The server after operations. -/
def adjustAll (s : DBusLogServer Policy β) (ops : List SettingOp) : DBusLogServer Policy β :=
  ops.foldl (adjust lib klass) s

/-- How many categories an operation creates. -/
def issues (s : DBusLogServer Policy β) : SettingOp → Nat
  | .category op => s.creates op
  | .setDefaultLevel _ | .callSetDefaultLevel _ _ | .callSetBacklog _ _ => 0

/-- How many categories operations create, one after another. -/
def issued (s : DBusLogServer Policy β) : List SettingOp → Nat
  | [] => 0
  | op :: ops => s.issues op + issued (s.adjust lib klass op) ops

/-- The operation sets no level and no backlog other than those that are set already, and no level
for a category that it creates. -/
def KeepsSettings (s : DBusLogServer Policy β) : SettingOp → Prop
  | .category (.addCategory name level _) => s.core.AddsNoLevel name level
  | .category (.setCategoryLevel name level) => s.core.KeepsLevel name level
  | .category (.callSetCategoryLevel sender name level) =>
    s.accessAllowed lib sender .setCategoryLevel = true → s.core.KeepsLevel name level
  | .category (.removeCategory _) | .category .removeAllCategories
  | .category (.callSetNamesEnabled _ _ _) | .category (.callSetPatternEnabled _ _ _) => True
  | .setDefaultLevel level => s.core.KeepsDefaultLevel level
  | .callSetDefaultLevel sender level =>
    s.accessAllowed lib sender .setDefaultLevel = true → s.core.KeepsDefaultLevel level
  | .callSetBacklog sender backlog =>
    s.accessAllowed lib sender .setBacklog = true → s.core.KeepsBacklog backlog

instance (s : DBusLogServer Policy β) : DecidablePred (s.KeepsSettings lib)
  | .category (.addCategory name level _) => inferInstanceAs (Decidable (s.core.AddsNoLevel name level))
  | .category (.setCategoryLevel name level) =>
    inferInstanceAs (Decidable (s.core.KeepsLevel name level))
  | .category (.callSetCategoryLevel sender name level) => inferInstanceAs (Decidable
    (s.accessAllowed lib sender .setCategoryLevel = true → s.core.KeepsLevel name level))
  | .category (.removeCategory _) | .category .removeAllCategories
  | .category (.callSetNamesEnabled _ _ _) | .category (.callSetPatternEnabled _ _ _) =>
    isTrue trivial
  | .setDefaultLevel level => inferInstanceAs (Decidable (s.core.KeepsDefaultLevel level))
  | .callSetDefaultLevel sender level => inferInstanceAs (Decidable
    (s.accessAllowed lib sender .setDefaultLevel = true → s.core.KeepsDefaultLevel level))
  | .callSetBacklog sender backlog => inferInstanceAs (Decidable
    (s.accessAllowed lib sender .setBacklog = true → s.core.KeepsBacklog backlog))

variable {lib klass} {s : DBusLogServer Policy β}

theorem adjustAll_append (ops ops' : List SettingOp) :
    s.adjustAll lib klass (ops ++ ops') = (s.adjustAll lib klass ops).adjustAll lib klass ops' :=
  List.foldl_append

theorem issued_append (ops ops' : List SettingOp) :
    s.issued lib klass (ops ++ ops') =
      s.issued lib klass ops + (s.adjustAll lib klass ops).issued lib klass ops' := by
  induction ops generalizing s with
  | nil => exact (Nat.zero_add _).symm
  | cons op ops ih =>
    change s.issues op + (s.adjust lib klass op).issued lib klass (ops ++ ops') = _
    rw [ih, ← Nat.add_assoc]
    rfl

end Operations

/-- What the calls about levels and the backlog do, if the caller may make them. -/
theorem callSetDefaultLevel_snd (lib : Libraries Cred Policy) (klass : DBusLogServerClass β)
    (s : DBusLogServer Policy β) (sender : String) (level : Level) :
    (s.callSetDefaultLevel lib klass sender level).2 =
      if s.accessAllowed lib sender .setDefaultLevel then
        s.coreChanged klass (s.core.setDefaultLevel level).2
      else s := by
  unfold callSetDefaultLevel
  by_cases hallowed : s.accessAllowed lib sender .setDefaultLevel = true
  · rw [if_neg (not_not.mpr hallowed), if_pos hallowed]
    cases s.core.setDefaultLevel level with
    | mk valid core =>
      cases valid with
      | false => rfl
      | true => rfl
  · rw [if_pos hallowed, if_neg hallowed]

theorem callSetCategoryLevel_snd (lib : Libraries Cred Policy) (klass : DBusLogServerClass β)
    (s : DBusLogServer Policy β) (sender name : String) (level : Level) :
    (s.callSetCategoryLevel lib klass sender name level).2 =
      if s.accessAllowed lib sender .setCategoryLevel then
        s.coreChanged klass (s.core.setCategoryLevel name level).2
      else s := by
  unfold callSetCategoryLevel
  by_cases hallowed : s.accessAllowed lib sender .setCategoryLevel = true
  · rw [if_neg (not_not.mpr hallowed), if_pos hallowed]
  · rw [if_pos hallowed, if_neg hallowed]

theorem callSetBacklog_snd (lib : Libraries Cred Policy) (klass : DBusLogServerClass β)
    (s : DBusLogServer Policy β) (sender : String) (backlog : Int32) :
    (s.callSetBacklog lib klass sender backlog).2 =
      if s.accessAllowed lib sender .setBacklog then
        s.coreChanged klass (s.core.setBacklog lib.ringSetMaxSize backlog)
      else s := by
  unfold callSetBacklog
  by_cases hallowed : s.accessAllowed lib sender .setBacklog = true
  · rw [if_neg (not_not.mpr hallowed), if_pos hallowed]
  · rw [if_pos hallowed, if_neg hallowed]

/-! ## The table by ids -/

section Told

variable {klass : DBusLogServerClass β} {s : DBusLogServer Policy β} {n : Nat}

theorem setDefaultLevel_journal {c : DBusLogCore} (h : c.Catalogue n) (level : Level) :
    ∃ log, DBusLogCore.Journal n c (c.setDefaultLevel level).2 log := by
  unfold DBusLogCore.setDefaultLevel
  split
  · dsimp only
    split
    · refine ⟨[.defaultLevel], ⟨h.counted, h.distinct, h.issued, h.narrow, h.heard⟩, rfl, rfl, ?_⟩
      intro signal hsignal
      rw [List.mem_singleton.mp hsignal]
      trivial
    · exact ⟨[], DBusLogCore.Journal.refl h⟩
  · exact ⟨[], DBusLogCore.Journal.refl h⟩

theorem setBacklog_journal
    (ringSetMaxSize : BoundedRing DBusLogMessage → Int32 → BoundedRing DBusLogMessage)
    {c : DBusLogCore} (h : c.Catalogue n) (backlog : Int32) :
    ∃ log, DBusLogCore.Journal n c (c.setBacklog ringSetMaxSize backlog) log := by
  obtain ⟨hlast, hcategories, hheard, _⟩ :=
    DBusLogCore.setBacklog_tables ringSetMaxSize c backlog
  obtain ⟨log, hlog, hsignals⟩ := DBusLogCore.setBacklog_emits c ringSetMaxSize backlog
  have hquiet : log.flatMap CoreSignal.changes = [] := by
    refine List.flatMap_eq_nil_iff.mpr fun signal hsignal => ?_
    rw [hsignals signal hsignal]
    rfl
  refine ⟨log, ⟨?_, ?_, ?_, ?_, ?_⟩, hlog, ?_, fun signal hsignal => ?_⟩
  · rw [hlast]
    exact h.counted
  · rw [hcategories]
    exact h.distinct
  · rw [hcategories]
    exact h.issued
  · rw [hcategories]
    exact h.narrow
  · rw [hheard]
    exact h.heard
  · rw [hquiet]
    unfold DBusLogCore.entryAt
    rw [hcategories]
    rfl
  · rw [hsignals signal hsignal]
    trivial

/-- Step lemma. -/
theorem adjust_told (lib : Libraries Cred Policy) (klass : DBusLogServerClass β)
    (h : s.core.Catalogue n) (op : SettingOp) (hroom : n + s.issues op < 2 ^ 32) :
    ∃ signals, Told klass (n + s.issues op) s (s.adjust lib klass op) signals := by
  cases op with
  | category op => exact operate_told lib klass h op hroom
  | setDefaultLevel level => exact Told.of_journal klass (setDefaultLevel_journal h level)
  | callSetDefaultLevel sender level =>
    change ∃ signals, Told klass n s (s.callSetDefaultLevel lib klass sender level).2 signals
    rw [callSetDefaultLevel_snd]
    split
    · exact Told.of_journal klass (setDefaultLevel_journal h level)
    · exact ⟨[], Told.refl h⟩
  | callSetBacklog sender backlog =>
    change ∃ signals, Told klass n s (s.callSetBacklog lib klass sender backlog).2 signals
    rw [callSetBacklog_snd]
    split
    · exact Told.of_journal klass (setBacklog_journal lib.ringSetMaxSize h backlog)
    · exact ⟨[], Told.refl h⟩

/-- Run lemma. -/
theorem adjustAll_told (lib : Libraries Cred Policy) (klass : DBusLogServerClass β)
    (h : s.core.Catalogue n) (ops : List SettingOp)
    (hroom : n + s.issued lib klass ops < 2 ^ 32) :
    ∃ signals, Told klass (n + s.issued lib klass ops) s (s.adjustAll lib klass ops) signals := by
  induction ops generalizing s n with
  | nil => exact ⟨[], Told.refl h⟩
  | cons op ops ih =>
    have hsum : n + s.issued lib klass (op :: ops) =
        n + s.issues op + (s.adjust lib klass op).issued lib klass ops :=
      (Nat.add_assoc _ _ _).symm
    rw [hsum] at hroom ⊢
    obtain ⟨signals, hone⟩ := adjust_told lib klass h op (by omega)
    obtain ⟨signals', hrest⟩ := ih hone.catalogue hroom
    exact ⟨signals ++ signals', hone.trans hrest⟩

end Told

/-! ## The chronicle -/

/-- The back end sends nothing but what it is told to send. -/
structure Relays (klass : DBusLogServerClass β) : Prop where
  defaultLevelChanged : ∀ b level, klass.emitDefaultLevelChanged b level ⊆
    [.defaultLevelChanged level.toInt32]
  categoryLevelChanged : ∀ b id level, klass.emitCategoryLevelChanged b id level ⊆
    [.categoryLevelChanged id level.toInt32]
  categoryAdded : ∀ b name id flags, klass.emitCategoryAdded b name id flags ⊆
    [.categoryAdded name id flags]
  categoryRemoved : ∀ b id, klass.emitCategoryRemoved b id ⊆ [.categoryRemoved id]
  categoryFlagsChanged : ∀ b id flags, klass.emitCategoryFlagsChanged b id flags ⊆
    [.categoryFlagsChanged id flags]
  backlogChanged : ∀ b backlog, klass.emitBacklogChanged b backlog ⊆ [.backlogChanged backlog]

theorem relays_dbus : Relays DBusLogServerDbus.klass where
  defaultLevelChanged _ _ := List.Subset.refl _
  categoryLevelChanged _ _ _ := List.Subset.refl _
  categoryAdded _ _ _ _ := List.Subset.refl _
  categoryRemoved _ _ := List.Subset.refl _
  categoryFlagsChanged _ _ _ := List.Subset.refl _
  backlogChanged _ _ := List.Subset.refl _

theorem relays_gio : Relays DBusLogServerGio.klass := by
  have hemit : ∀ (b : DBusLogServerGio) signal, b.emit signal ⊆ [signal] := by
    intro b signal
    unfold DBusLogServerGio.emit
    split
    · exact List.Subset.refl _
    · exact List.nil_subset _
  exact ⟨fun b _ => hemit b _, fun b _ _ => hemit b _, fun b _ _ _ => hemit b _,
    fun b _ => hemit b _, fun b _ _ => hemit b _, fun b _ => hemit b _⟩

/-- The server `s` has become `s'`, its chronicle has grown from `names` to `names'`, and what it has
sent agrees with it. -/
structure Recorded (names : List String) (s : DBusLogServer Policy β) (names' : List String)
    (s' : DBusLogServer Policy β) : Prop where
  grown : names <+: names'
  chronicled : s'.core.Chronicled names'
  sent : ∃ sent, s'.sent = s.sent ++ sent ∧ ∀ signal ∈ sent, signal.Issued names names'

section Recorded

variable {klass : DBusLogServerClass β} {s s' s'' : DBusLogServer Policy β}
  {names names' names'' : List String}

/-- The same tables, and nothing sent. -/
theorem Recorded.of_settings (h : s.core.Chronicled names)
    (hsettings : s'.core.settings = s.core.settings) (hsent : s'.sent = s.sent) :
    Recorded names s names s' :=
  ⟨List.prefix_rfl, h.of_settings hsettings, [], hsent.trans (List.append_nil _).symm,
    fun _ hsignal => (nomatch hsignal)⟩

theorem Recorded.refl (h : s.core.Chronicled names) : Recorded names s names s :=
  .of_settings h rfl rfl

theorem Recorded.trans (h : Recorded names s names' s') (h' : Recorded names' s' names'' s'') :
    Recorded names s names'' s'' := by
  obtain ⟨sent, hsent, hissued⟩ := h.sent
  obtain ⟨sent', hsent', hissued'⟩ := h'.sent
  refine ⟨h.grown.trans h'.grown, h'.chronicled, sent ++ sent', ?_, fun signal hsignal => ?_⟩
  · rw [hsent', hsent, List.append_assoc]
  · obtain hleft | hright := List.mem_append.mp hsignal
    · exact (hissued signal hleft).mono List.prefix_rfl h'.grown
    · exact (hissued' signal hright).mono h.grown List.prefix_rfl

/-- A signal of the core reaches the bus as it is, or not at all. -/
theorem coreSignal_relayed (hrelays : Relays klass) (s : DBusLogServer Policy β)
    (signal : CoreSignal) : ∃ notified sent,
      coreSignal klass s signal = { s with notified := notified, sent := s.sent ++ sent } ∧
      sent ⊆ [signal.onBus s.core] := by
  have hnone : s.sent = s.sent ++ [] := (List.append_nil _).symm
  have hnothing : ([] : List BusSignal) ⊆ [signal.onBus s.core] := List.nil_subset _
  cases signal with
  | backlog =>
    simp only [coreSignal]
    split
    · exact ⟨_, _, rfl, hrelays.backlogChanged _ _⟩
    · exact ⟨s.notified, [], by rw [← hnone], hnothing⟩
  | defaultLevel =>
    simp only [coreSignal]
    split
    · exact ⟨_, _, rfl, hrelays.defaultLevelChanged _ _⟩
    · exact ⟨_, [], by rw [← hnone], hnothing⟩
  | categoryAdded cat =>
    simp only [coreSignal]
    split
    · exact ⟨_, _, rfl, hrelays.categoryAdded _ _ _ _⟩
    · exact ⟨s.notified, [], by rw [← hnone], hnothing⟩
  | categoryRemoved cat =>
    simp only [coreSignal]
    split
    · exact ⟨_, _, rfl, hrelays.categoryRemoved _ _⟩
    · exact ⟨s.notified, [], by rw [← hnone], hnothing⟩
  | categoryFlags cat mask =>
    simp only [coreSignal]
    by_cases hmask : mask &&& CategoryFlag.enabled ≠ 0
    · simp only [if_pos hmask]
      split
      · exact ⟨_, _, rfl, hrelays.categoryFlagsChanged _ _ _⟩
      · exact ⟨_, [], by rw [← hnone], hnothing⟩
    · simp only [if_neg hmask]
      split
      · exact ⟨_, _, rfl, hrelays.categoryFlagsChanged _ _ _⟩
      · exact ⟨s.notified, [], by rw [← hnone], hnothing⟩
  | categoryLevel cat =>
    simp only [coreSignal]
    split
    · exact ⟨_, _, rfl, hrelays.categoryLevelChanged _ _ _⟩
    · exact ⟨_, [], by rw [← hnone], hnothing⟩

/-- An operation of the core reaches the bus. -/
theorem Recorded.of_continued (hrelays : Relays klass) {core : DBusLogCore}
    (h : DBusLogCore.Continued names s.core names' core) :
    Recorded names s names' (s.coreChanged klass core) := by
  obtain ⟨log, hlog, hissued⟩ := h.signals
  refine ⟨h.grown, ?_, ?_⟩
  · rw [coreChanged_core]
    exact h.chronicled
  · unfold coreChanged
    rw [hlog, List.drop_left]
    generalize ht : { s with core := core } = t
    have hsent : s.sent = t.sent := by rw [← ht]
    rw [hsent]
    clear ht hlog hsent
    -- the handlers of the server run for one signal of the core after another
    induction log generalizing t with
    | nil => exact ⟨[], (List.append_nil _).symm, fun _ hsignal => (nomatch hsignal)⟩
    | cons signal log ih =>
      obtain ⟨notified, sent, he, hsub⟩ := coreSignal_relayed hrelays t signal
      obtain ⟨sent', hsent', hrest⟩ := ih (fun other hother =>
        hissued other (List.mem_cons_of_mem signal hother))
        { t with notified := notified, sent := t.sent ++ sent }
      refine ⟨sent ++ sent', ?_, fun bus hbus => ?_⟩
      · rw [List.foldl_cons, he, hsent', List.append_assoc]
      · obtain hleft | hright := List.mem_append.mp hbus
        · rw [List.mem_singleton.mp (hsub hleft)]
          exact (hissued signal List.mem_cons_self).onBus t.core
        · exact hrest bus hright

theorem setEach_recorded (hrelays : Relays klass) (h : s.core.Chronicled names)
    (targets : List String) (enable : Bool) :
    Recorded names s names (s.setEach klass targets enable) := by
  unfold setEach
  induction targets generalizing s with
  | nil => exact Recorded.refl h
  | cons name targets ih =>
    have hone := Recorded.of_continued hrelays
      (DBusLogCore.setCategoryEnabled_continued h name enable)
    exact hone.trans (ih hone.chronicled)

theorem operate_recorded (hrelays : Relays klass) (lib : Libraries Cred Policy)
    (h : s.core.Chronicled names) (op : CategoryOp) (hroom : names.length + s.creates op < 2 ^ 32) :
    ∃ names', names'.length = names.length + s.creates op ∧
      Recorded names s names' (s.operate lib klass op) := by
  have hsame : s.creates op = 0 → Recorded names s names (s.operate lib klass op) →
      ∃ names', names'.length = names.length + s.creates op ∧
        Recorded names s names' (s.operate lib klass op) := by
    intro hzero hrecorded
    rw [hzero]
    exact ⟨names, rfl, hrecorded⟩
  cases op with
  | addCategory name level flags =>
    cases hname : s.core.categories.lookup name with
    | none =>
      have hone : s.creates (.addCategory name level flags) = 1 := if_pos (by rw [hname]; rfl)
      rw [hone] at hroom ⊢
      exact ⟨names ++ [name], List.length_append,
        .of_continued hrelays (DBusLogCore.newCategory_continued h hroom hname level flags)⟩
    | some cat =>
      have hzero : s.creates (.addCategory name level flags) = 0 :=
        if_neg (by rw [hname]; exact Bool.false_ne_true)
      refine hsame hzero (.of_continued hrelays (DBusLogCore.newCategory_old h ?_ level flags))
      rw [hname]
      rfl
  | removeCategory name =>
    exact hsame rfl (.of_continued hrelays (DBusLogCore.removeCategory_continued h name))
  | removeAllCategories =>
    exact hsame rfl (.of_continued hrelays (DBusLogCore.removeAllCategories_continued h))
  | setCategoryLevel name level =>
    exact hsame rfl (.of_continued hrelays (DBusLogCore.setCategoryLevel_continued h name level))
  | callSetCategoryLevel sender name level =>
    apply hsame rfl
    change Recorded names s names (s.callSetCategoryLevel lib klass sender name level).2
    rw [callSetCategoryLevel_snd]
    split
    · exact .of_continued hrelays (DBusLogCore.setCategoryLevel_continued h name level)
    · exact Recorded.refl h
  | callSetNamesEnabled sender targets enable =>
    apply hsame rfl
    change Recorded names s names (s.callSetNamesEnabled lib klass sender targets enable).2
    unfold callSetNamesEnabled
    split
    · exact Recorded.refl h
    · exact setEach_recorded hrelays h targets enable
  | callSetPatternEnabled sender pattern enable =>
    apply hsame rfl
    change Recorded names s names (s.callSetPatternEnabled lib klass sender pattern enable).2
    unfold callSetPatternEnabled
    split
    · exact Recorded.refl h
    · exact setEach_recorded hrelays h _ enable

/-- Step lemma. -/
theorem adjust_recorded (hrelays : Relays klass) (lib : Libraries Cred Policy)
    (h : s.core.Chronicled names) (op : SettingOp) (hroom : names.length + s.issues op < 2 ^ 32) :
    ∃ names', names'.length = names.length + s.issues op ∧
      Recorded names s names' (s.adjust lib klass op) := by
  cases op with
  | category op => exact operate_recorded hrelays lib h op hroom
  | setDefaultLevel level =>
    exact ⟨names, rfl, .of_continued hrelays (DBusLogCore.setDefaultLevel_continued h level)⟩
  | callSetDefaultLevel sender level =>
    refine ⟨names, rfl, ?_⟩
    change Recorded names s names (s.callSetDefaultLevel lib klass sender level).2
    rw [callSetDefaultLevel_snd]
    split
    · exact .of_continued hrelays (DBusLogCore.setDefaultLevel_continued h level)
    · exact Recorded.refl h
  | callSetBacklog sender backlog =>
    refine ⟨names, rfl, ?_⟩
    change Recorded names s names (s.callSetBacklog lib klass sender backlog).2
    rw [callSetBacklog_snd]
    split
    · exact .of_continued hrelays (DBusLogCore.setBacklog_continued lib.ringSetMaxSize h backlog)
    · exact Recorded.refl h

/-- Run lemma. -/
theorem adjustAll_recorded (hrelays : Relays klass) (lib : Libraries Cred Policy)
    (h : s.core.Chronicled names) (ops : List SettingOp)
    (hroom : names.length + s.issued lib klass ops < 2 ^ 32) :
    ∃ names', names'.length = names.length + s.issued lib klass ops ∧
      Recorded names s names' (s.adjustAll lib klass ops) := by
  induction ops generalizing s names with
  | nil => exact ⟨names, rfl, Recorded.refl h⟩
  | cons op ops ih =>
    have hsum : names.length + s.issued lib klass (op :: ops) =
        names.length + s.issues op + (s.adjust lib klass op).issued lib klass ops :=
      (Nat.add_assoc _ _ _).symm
    rw [hsum] at hroom ⊢
    obtain ⟨names₁, hlength, hone⟩ := adjust_recorded hrelays lib h op (by omega)
    rw [← hlength] at hroom ⊢
    obtain ⟨names₂, hlength', hrest⟩ := ih hone.chronicled hroom
    exact ⟨names₂, hlength', hone.trans hrest⟩

end Recorded

/-! ## The levels and the backlog -/

section SameSettings

open DBusLogCore

variable {lib : Libraries Cred Policy} {klass : DBusLogServerClass β} {s : DBusLogServer Policy β}
  {c₀ : DBusLogCore} {names₀ names : List String}

theorem setEach_sameSettings (h : SameSettings c₀ s.core) (targets : List String) (enable : Bool) :
    SameSettings c₀ (s.setEach klass targets enable).core := by
  unfold setEach
  induction targets generalizing s with
  | nil => exact h
  | cons name targets ih =>
    apply ih
    rw [coreChanged_core]
    exact h.setCategoryEnabled name enable

/-- A call that is allowed shows if and only if the operation does. -/
theorem sameSettings_ite {allowed : Bool} {core : DBusLogCore} {keeps : Prop}
    (h : SameSettings c₀ s.core) (hiff : SameSettings c₀ core ↔ keeps) :
    SameSettings c₀ (if allowed = true then s.coreChanged klass core else s).core ↔
      (allowed = true → keeps) := by
  cases allowed with
  | false => exact iff_of_true h fun habsurd => (nomatch habsurd)
  | true =>
    rw [if_pos rfl, coreChanged_core, hiff]
    exact ⟨fun hkeeps _ => hkeeps, fun himp => himp rfl⟩

/-- An id that is new now was not in use then. -/
theorem newCategory_fresh (h₀ : c₀.Chronicled names₀) (hle : names₀ <+: names)
    (h : s.core.Chronicled names) (hroom : names.length + 1 < 2 ^ 32) {name : String}
    (hname : s.core.categories.lookup name = none) (level : Level) (flags : UInt64) :
    c₀.levelOf (s.core.newCategory name level flags).1.id = Level.undefined := by
  apply levelOf_of_fresh
  intro cat hcat heq
  have hold : cat.id.toNat ≤ names₀.length := toNat_le_of_nameOf (h₀.named cat hcat)
  have hnew := (newCategory_continued h hroom hname level flags).chronicled.counted
  rw [← (newCategory_created hname level flags).2, ← heq, List.length_append] at hnew
  have hlength := hle.length_le
  change cat.id.toNat = names.length + 1 at hnew
  omega

/-- The signals that follow a change of the core are not about its tables. -/
theorem coreChanged_sameSettings (klass : DBusLogServerClass β) (s : DBusLogServer Policy β)
    {core : DBusLogCore} :
    SameSettings c₀ (s.coreChanged klass core).core ↔ SameSettings c₀ core := by
  rw [coreChanged_core]

/-- What an operation does to the levels and the backlog depends on the state before it. -/
theorem adjust_sameSettings_iff (klass : DBusLogServerClass β) (h : SameSettings c₀ s.core)
    (h₀ : c₀.Chronicled names₀) (hle : names₀ <+: names) (hc : s.core.Chronicled names)
    (op : SettingOp) (hroom : names.length + 1 < 2 ^ 32) :
    SameSettings c₀ (s.adjust lib klass op).core ↔ s.KeepsSettings lib op := by
  cases op with
  | category op =>
    cases op with
    | addCategory name level flags =>
      exact (coreChanged_sameSettings klass s).trans (h.newCategory_iff name level flags
        fun hname => newCategory_fresh h₀ hle hc hroom hname level flags)
    | removeCategory name =>
      exact (coreChanged_sameSettings klass s).trans (iff_of_true (h.removeCategory name) trivial)
    | removeAllCategories =>
      exact (coreChanged_sameSettings klass s).trans (iff_of_true h.removeAllCategories trivial)
    | setCategoryLevel name level =>
      exact (coreChanged_sameSettings klass s).trans (h.setCategoryLevel_iff name level)
    | callSetCategoryLevel sender name level =>
      change SameSettings c₀ (s.callSetCategoryLevel lib klass sender name level).2.core ↔ _
      rw [callSetCategoryLevel_snd]
      exact sameSettings_ite h (h.setCategoryLevel_iff name level)
    | callSetNamesEnabled sender targets enable =>
      change SameSettings c₀ (s.callSetNamesEnabled lib klass sender targets enable).2.core ↔ _
      refine iff_of_true ?_ trivial
      unfold callSetNamesEnabled
      split
      · exact h
      · exact setEach_sameSettings h targets enable
    | callSetPatternEnabled sender pattern enable =>
      change SameSettings c₀ (s.callSetPatternEnabled lib klass sender pattern enable).2.core ↔ _
      refine iff_of_true ?_ trivial
      unfold callSetPatternEnabled
      split
      · exact h
      · exact setEach_sameSettings h _ enable
  | setDefaultLevel level =>
    exact (coreChanged_sameSettings klass s).trans (h.setDefaultLevel_iff level)
  | callSetDefaultLevel sender level =>
    change SameSettings c₀ (s.callSetDefaultLevel lib klass sender level).2.core ↔ _
    rw [callSetDefaultLevel_snd]
    exact sameSettings_ite h (h.setDefaultLevel_iff level)
  | callSetBacklog sender backlog =>
    change SameSettings c₀ (s.callSetBacklog lib klass sender backlog).2.core ↔ _
    rw [callSetBacklog_snd]
    exact sameSettings_ite h (h.setBacklog_iff lib.ringSetMaxSize backlog)

/-- In a run of operations the levels and the backlog are always what they were, if and only if each
operation meets its condition. -/
theorem adjustAll_sameSettings_iff (hrelays : Relays klass) (h : SameSettings c₀ s.core)
    (h₀ : c₀.Chronicled names₀) (hle : names₀ <+: names) (hc : s.core.Chronicled names)
    (ops : List SettingOp) (hroom : names.length + s.issued lib klass ops + 1 < 2 ^ 32) :
    (∀ first, first <+: ops → SameSettings c₀ (s.adjustAll lib klass first).core) ↔
      ∀ before op after, before ++ op :: after = ops →
        (s.adjustAll lib klass before).KeepsSettings lib op := by
  have hrecorded : ∀ first, first <+: ops → ∃ names',
      names'.length ≤ names.length + s.issued lib klass ops ∧
        Recorded names s names' (s.adjustAll lib klass first) := by
    rintro first ⟨rest, rfl⟩
    rw [issued_append] at hroom ⊢
    obtain ⟨names', hlength, hfirst⟩ := adjustAll_recorded hrelays lib hc first (by omega)
    exact ⟨names', by omega, hfirst⟩
  constructor
  · intro hall before op after hops
    -- the operation is the last one of a longer beginning of the run
    have hbefore : before <+: ops := ⟨op :: after, hops⟩
    have hnext : before ++ [op] <+: ops := ⟨after, by rw [← hops, List.append_assoc]; rfl⟩
    obtain ⟨names', hlength, hrec⟩ := hrecorded before hbefore
    refine (adjust_sameSettings_iff klass (hall before hbefore) h₀
      (hle.trans hrec.grown) hrec.chronicled op (by omega)).mp ?_
    have hlast := hall (before ++ [op]) hnext
    rw [adjustAll_append] at hlast
    exact hlast
  · intro hkeeps first hfirst
    induction first using List.reverseRecOn with
    | nil => exact h
    | append_singleton before op ih =>
      have hbefore : before <+: ops := (List.prefix_append before [op]).trans hfirst
      obtain ⟨after, hafter⟩ := hfirst
      obtain ⟨names', hlength, hrec⟩ := hrecorded before hbefore
      rw [adjustAll_append]
      refine (adjust_sameSettings_iff klass (ih hbefore) h₀ (hle.trans hrec.grown) hrec.chronicled op
        (by omega)).mpr (hkeeps before op after ?_)
      rw [← hafter, List.append_assoc]
      rfl

end SameSettings

/-! ## Sessions -/

section Sessions

variable {lib : Libraries Cred Policy} {klass : DBusLogServerClass β} {handsOver : Bool}
  {s s' : DBusLogServer Policy β}

theorem callLogOpen_silent (lib : Libraries Cred Policy) (klass : DBusLogServerClass β)
    (ctx : ServerContext) (s : DBusLogServer Policy β) (name : String) :
    (s.callLogOpen lib klass ctx name).2.core.settings = s.core.settings ∧
      (s.callLogOpen lib klass ctx name).2.sent = s.sent := by
  unfold callLogOpen
  split
  · exact ⟨rfl, rfl⟩
  · obtain ⟨hsettings, _⟩ := DBusLogCore.newSender_settings s.core name ctx.pipe
    cases hnew : s.core.newSender name ctx.pipe with
    | mk sender core =>
      rw [hnew] at hsettings
      cases sender with
      | none => exact ⟨hsettings, rfl⟩
      | some sender =>
        dsimp only
        obtain ⟨hreplaced, _⟩ := replacePeer_frame klass ctx { s with
          core := core
          backend := (klass.watchName s.backend name).2 }
          ⟨name, (klass.watchName s.backend name).1, sender⟩
        refine ⟨hreplaced.trans hsettings, ?_⟩
        unfold replacePeer
        split
        · rfl
        · rfl

theorem removePeer_silent (klass : DBusLogServerClass β) (ctx : ServerContext)
    (s : DBusLogServer Policy β) (name : String) :
    (s.removePeer klass ctx name).core.settings = s.core.settings ∧
      (s.removePeer klass ctx name).sent = s.sent := by
  refine ⟨(removePeer_frame klass ctx s name).1, ?_⟩
  unfold removePeer
  split
  · rfl
  · rfl

/-- Sessions and log calls show nowhere on the bus. -/
theorem sessionStep_silent {op : SessionOp} (h : s.sessionStep lib klass handsOver op = some s') :
    s'.core.settings = s.core.settings ∧ s'.sent = s.sent := by
  cases op with
  | logOpen ctx name =>
    cases h
    obtain ⟨hsettings, hsent⟩ := callLogOpen_silent lib klass ctx s name
    unfold openLog
    dsimp only
    split
    · obtain ⟨core, he, hcore⟩ := stealReadfd_frame (s.callLogOpen lib klass ctx name).2 name
        (s.callLogOpen lib klass ctx name).1
      rw [he]
      exact ⟨hcore.trans hsettings, hsent⟩
    · exact ⟨hsettings, hsent⟩
  | logClose ctx name cookie =>
    cases h
    exact removePeer_silent klass ctx s name
  | vanished ctx name =>
    cases h
    exact removePeer_silent klass ctx s name
  | log ctx level cname message =>
    cases h
    exact ⟨(DBusLogCore.log_hands s.core ctx level cname message).settings, rfl⟩
  | logv ctx level cname formatted =>
    cases h
    exact ⟨(DBusLogCore.logv_hands s.core ctx level cname formatted).settings, rfl⟩
  | sender sender a =>
    obtain ⟨core, hcore, rfl⟩ := Option.map_eq_some_iff.mp h
    refine ⟨?_, rfl⟩
    obtain ⟨_, _, _, _, _, rfl⟩ := DBusLogCore.step_callback hcore
    exact (DBusLogCore.runSender_settings s.core sender _).1

/-- A log call puts the id of its category on the message. -/
theorem sessionStep_hands {op : SessionOp} {cname : Option String} (hcname : op.cname? = some cname)
    (h : s.sessionStep lib klass handsOver op = some s') :
    DBusLogCore.Hands (s.core.categoryId cname) s.core s'.core := by
  cases op with
  | log ctx level called message =>
    cases hcname
    cases h
    exact DBusLogCore.log_hands s.core ctx level cname message
  | logv ctx level called formatted =>
    cases hcname
    cases h
    exact DBusLogCore.logv_hands s.core ctx level cname formatted
  | _ => cases hcname

end Sessions

end DBusLogServer

end DBusLog

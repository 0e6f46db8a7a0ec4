import DBusLog.Core.Categories
import DBusLog.Server.Agreement

/-!
# The signals of a server about its categories

The category operations of a server. Whatever they do to the table by ids, the signals on the bus
say the same, for every back end that sends what it is told to send.
-/

namespace DBusLog

open ChangeLog

/-- What a signal of the interface says about the table by ids. -/
def BusSignal.changes : BusSignal → List (Change UInt32 (String × UInt64))
  | .categoryAdded name id flags => [.put id (name, flags.toUInt64)]
  | .categoryRemoved id => [.drop id]
  | .categoryFlagsChanged id flags => [.modify id fun e => (e.1, flags.toUInt64)]
  | .defaultLevelChanged _ | .categoryLevelChanged _ _ | .backlogChanged _ => []

/-- The signal is not about the id 0. -/
def BusSignal.Proper : BusSignal → Prop
  | .categoryAdded _ id _ | .categoryRemoved id | .categoryFlagsChanged id _ => id ≠ 0
  | .defaultLevelChanged _ | .categoryLevelChanged _ _ | .backlogChanged _ => True

/-- The signal of the interface for a signal of the core `c`. -/
def CoreSignal.onBus (c : DBusLogCore) : CoreSignal → BusSignal
  | .backlog => .backlogChanged c.backlog
  | .defaultLevel => .defaultLevelChanged c.defaultLevel.toInt32
  | .categoryAdded cat => .categoryAdded cat.name cat.id cat.flags.toUInt32
  | .categoryRemoved cat => .categoryRemoved cat.id
  | .categoryFlags cat _ => .categoryFlagsChanged cat.id cat.flags.toUInt32
  | .categoryLevel cat => .categoryLevelChanged cat.id cat.level.toInt32

/-- The signals to the application for a signal of the core `c`. -/
def CoreSignal.noticed (c : DBusLogCore) : CoreSignal → List ServerSignal
  | .defaultLevel => [.defaultLevel c.defaultLevel]
  | .categoryFlags cat mask =>
    if mask &&& CategoryFlag.enabled ≠ 0 then
      [if cat.enabled then .categoryEnabled cat.name else .categoryDisabled cat.name]
    else []
  | .categoryLevel cat => [.categoryLevel cat.name cat.level]
  | .backlog | .categoryAdded _ | .categoryRemoved _ => []

/-- Flags that fit into 32 bits come out of a signal as they went in. -/
theorem toUInt64_toUInt32 {flags : UInt64} (h : flags.toNat < 2 ^ 32) :
    flags.toUInt32.toUInt64 = flags := by
  apply UInt64.toNat_inj.mp
  rw [UInt32.toNat_toUInt64, UInt64.toNat_toUInt32]
  exact Nat.mod_eq_of_lt h

/-- The bus says about the table what the core says. -/
theorem CoreSignal.Proper.onBus {c : DBusLogCore} {signal : CoreSignal} (h : signal.Proper) :
    (signal.onBus c).changes = signal.changes ∧ (signal.onBus c).Proper := by
  cases signal with
  | categoryAdded cat =>
    refine ⟨?_, h.1⟩
    simp only [CoreSignal.onBus, BusSignal.changes, CoreSignal.changes, toUInt64_toUInt32 h.2]
  | categoryFlags cat mask =>
    refine ⟨?_, h.1⟩
    simp only [CoreSignal.onBus, BusSignal.changes, CoreSignal.changes, toUInt64_toUInt32 h.2]
  | categoryRemoved cat => exact ⟨rfl, h⟩
  | backlog => exact ⟨rfl, trivial⟩
  | defaultLevel => exact ⟨rfl, trivial⟩
  | categoryLevel cat => exact ⟨rfl, trivial⟩

theorem changes_onBus {c : DBusLogCore} {log : List CoreSignal} (h : ∀ signal ∈ log, signal.Proper) :
    (log.map (·.onBus c)).flatMap BusSignal.changes = log.flatMap CoreSignal.changes := by
  induction log with
  | nil => rfl
  | cons signal log ih =>
    rw [List.map_cons, List.flatMap_cons, List.flatMap_cons,
      ih fun other hother => h other (List.mem_cons_of_mem signal hother),
      (h signal List.mem_cons_self).onBus.1]

namespace DBusLogServer

variable {Cred Policy β : Type}

/-- The back end sends what it is told to send. -/
structure Sends (klass : DBusLogServerClass β) (b : β) : Prop where
  defaultLevelChanged : ∀ level,
    klass.emitDefaultLevelChanged b level = [.defaultLevelChanged level.toInt32]
  categoryLevelChanged : ∀ id level,
    klass.emitCategoryLevelChanged b id level = [.categoryLevelChanged id level.toInt32]
  categoryAdded : ∀ name id flags,
    klass.emitCategoryAdded b name id flags = [.categoryAdded name id flags]
  categoryRemoved : ∀ id, klass.emitCategoryRemoved b id = [.categoryRemoved id]
  categoryFlagsChanged : ∀ id flags,
    klass.emitCategoryFlagsChanged b id flags = [.categoryFlagsChanged id flags]
  backlogChanged : ∀ backlog, klass.emitBacklogChanged b backlog = [.backlogChanged backlog]

theorem sends_dbus (b : DBusLogServerDbus) : Sends DBusLogServerDbus.klass b :=
  ⟨fun _ => rfl, fun _ _ => rfl, fun _ _ _ => rfl, fun _ => rfl, fun _ _ => rfl, fun _ => rfl⟩

theorem sends_gio {b : DBusLogServerGio} (h : b.skeletonExported = true) :
    Sends DBusLogServerGio.klass b :=
  ⟨fun _ => if_pos h, fun _ _ => if_pos h, fun _ _ _ => if_pos h, fun _ => if_pos h,
    fun _ _ => if_pos h, fun _ => if_pos h⟩

section Signals

variable {klass : DBusLogServerClass β} {s s' s'' : DBusLogServer Policy β}

theorem coreSignal_told (hstarted : s.started = true) (hsends : Sends klass s.backend)
    (signal : CoreSignal) : coreSignal klass s signal =
      { s with
        notified := s.notified ++ signal.noticed s.core
        sent := s.sent ++ [signal.onBus s.core] } := by
  cases signal with
  | backlog =>
    simp only [coreSignal, if_pos hstarted, hsends.backlogChanged, CoreSignal.noticed,
      CoreSignal.onBus, List.append_nil]
  | defaultLevel =>
    simp only [coreSignal, if_pos hstarted, hsends.defaultLevelChanged, CoreSignal.noticed,
      CoreSignal.onBus]
  | categoryAdded cat =>
    simp only [coreSignal, if_pos hstarted, hsends.categoryAdded, CoreSignal.noticed,
      CoreSignal.onBus, List.append_nil]
  | categoryRemoved cat =>
    simp only [coreSignal, if_pos hstarted, hsends.categoryRemoved, CoreSignal.noticed,
      CoreSignal.onBus, List.append_nil]
  | categoryFlags cat mask =>
    by_cases hmask : mask &&& CategoryFlag.enabled ≠ 0
    · simp only [coreSignal, if_pos hmask, if_pos hstarted, hsends.categoryFlagsChanged,
        CoreSignal.noticed, CoreSignal.onBus]
    · simp only [coreSignal, if_neg hmask, if_pos hstarted, hsends.categoryFlagsChanged,
        CoreSignal.noticed, CoreSignal.onBus, List.append_nil]
  | categoryLevel cat =>
    simp only [coreSignal, if_pos hstarted, hsends.categoryLevelChanged, CoreSignal.noticed,
      CoreSignal.onBus]

/-- A started server passes on what its core says. -/
theorem coreChanged_told (hstarted : s.started = true) (hsends : Sends klass s.backend)
    {core : DBusLogCore} {log : List CoreSignal} (hlog : core.signals = s.core.signals ++ log) :
    s.coreChanged klass core = { s with
      core := core
      notified := s.notified ++ log.flatMap (·.noticed core)
      sent := s.sent ++ log.map (·.onBus core) } := by
  unfold coreChanged
  rw [hlog, List.drop_left]
  clear hlog
  induction log generalizing s with
  | nil => simp
  | cons signal log ih =>
    rw [List.foldl_cons, coreSignal_told (s := { s with core := core }) hstarted hsends]
    have hrest := ih (s := { s with
      notified := s.notified ++ signal.noticed core
      sent := s.sent ++ [signal.onBus core] }) hstarted hsends
    refine hrest.trans ?_
    simp

theorem coreChanged_sent (hstarted : s.started) (hsends : Sends klass s.backend)
    {core : DBusLogCore} {log : List CoreSignal} (hlog : core.signals = s.core.signals ++ log) :
    (s.coreChanged klass core).sent = s.sent ++ log.map (·.onBus core) := by
  rw [coreChanged_told hstarted hsends hlog]

/-- The server `s` has become `s'` and has told so: `n` categories have been created by now, and
the table by ids has changed as `signals` say. -/
structure Told (klass : DBusLogServerClass β) (n : Nat) (s s' : DBusLogServer Policy β)
    (signals : List BusSignal) : Prop where
  catalogue : s'.core.Catalogue n
  started : s'.started = s.started
  backend : s'.backend = s.backend
  sent : s.started → Sends klass s.backend → s'.sent = s.sent ++ signals
  entries : s'.core.entryAt = replay s.core.entryAt (signals.flatMap BusSignal.changes)
  proper : ∀ signal ∈ signals, signal.Proper

theorem Told.refl {n : Nat} (h : s.core.Catalogue n) : Told klass n s s [] :=
  ⟨h, rfl, rfl, fun _ _ => (List.append_nil _).symm, rfl, fun _ hsignal => (nomatch hsignal)⟩

theorem Told.trans {m n : Nat} {signals signals' : List BusSignal} (h : Told klass m s s' signals)
    (h' : Told klass n s' s'' signals') : Told klass n s s'' (signals ++ signals') where
  catalogue := h'.catalogue
  started := h'.started.trans h.started
  backend := h'.backend.trans h.backend
  sent hstarted hsends := by
    have hstarted' : s'.started := h.started.trans hstarted
    have hsends' : Sends klass s'.backend := by
      rw [h.backend]
      exact hsends
    rw [h'.sent hstarted' hsends', h.sent hstarted hsends, List.append_assoc]
  entries := by rw [h'.entries, h.entries, List.flatMap_append, replay_append]
  proper signal hsignal := by
    obtain hleft | hright := List.mem_append.mp hsignal
    · exact h.proper signal hleft
    · exact h'.proper signal hright

/-- Which signals these are can be seen on the bus. -/
theorem Told.unique {m n : Nat} {signals signals' : List BusSignal}
    (h : Told klass m s s' signals) (hstarted : s.started) (hsends : Sends klass s.backend)
    (h' : Told klass n s s' signals') : signals = signals' := by
  have hsent := h'.sent hstarted hsends
  rw [h.sent hstarted hsends] at hsent
  exact List.append_cancel_left hsent

/-- An operation of the core reaches the bus. -/
theorem Told.of_journal (klass : DBusLogServerClass β) {n : Nat} {core : DBusLogCore}
    (h : ∃ log, DBusLogCore.Journal n s.core core log) :
    ∃ signals, Told klass n s (s.coreChanged klass core) signals := by
  obtain ⟨log, hlog⟩ := h
  refine ⟨log.map (·.onBus core), ?_⟩
  obtain ⟨notified, sent, he⟩ := coreChanged_frame klass s core
  refine ⟨?_, ?_, ?_, ?_, ?_, ?_⟩
  · rw [he]
    exact hlog.catalogue
  · rw [he]
  · rw [he]
  · intro hstarted hsends
    exact coreChanged_sent hstarted hsends hlog.signals
  · rw [he, changes_onBus hlog.proper]
    exact hlog.entries
  · intro signal hsignal
    obtain ⟨own, hown, rfl⟩ := List.mem_map.mp hsignal
    exact (hlog.proper own hown).onBus.2

theorem setEach_told {n : Nat} (h : s.core.Catalogue n) (names : List String) (enable : Bool) :
    ∃ signals, Told klass n s (s.setEach klass names enable) signals := by
  unfold setEach
  induction names generalizing s with
  | nil => exact ⟨[], Told.refl h⟩
  | cons name names ih =>
    obtain ⟨signals, hone⟩ := Told.of_journal klass
      (DBusLogCore.setCategoryEnabled_journal h name enable)
    obtain ⟨signals', hrest⟩ := ih hone.catalogue
    exact ⟨signals ++ signals', hone.trans hrest⟩

end Signals

/-! ## Category operations -/

end DBusLogServer

/-- An operation on the categories of a server, by its application or by a D-Bus call. -/
inductive CategoryOp
  | addCategory (name : String) (level : Level) (flags : UInt64)
  | removeCategory (name : String)
  | removeAllCategories
  | setCategoryLevel (name : String) (level : Level)
  | callSetCategoryLevel (sender name : String) (level : Level)
  | callSetNamesEnabled (sender : String) (names : List String) (enable : Bool)
  | callSetPatternEnabled (sender : String) (pattern : Option String) (enable : Bool)
  deriving DecidableEq

namespace DBusLogServer

section Operations

variable {Cred Policy β : Type} (lib : Libraries Cred Policy) (klass : DBusLogServerClass β)

/-- The server after an operation. -/
def operate (s : DBusLogServer Policy β) : CategoryOp → DBusLogServer Policy β
  | .addCategory name level flags => s.addCategory klass name level flags
  | .removeCategory name => (s.removeCategory klass name).2
  | .removeAllCategories => s.removeAllCategories klass
  | .setCategoryLevel name level => (s.setCategoryLevel klass name level).2
  | .callSetCategoryLevel sender name level => (s.callSetCategoryLevel lib klass sender name level).2
  | .callSetNamesEnabled sender names enable =>
    (s.callSetNamesEnabled lib klass sender names enable).2
  | .callSetPatternEnabled sender pattern enable =>
    (s.callSetPatternEnabled lib klass sender pattern enable).2

/-- The server after operations. -/
def operateAll (s : DBusLogServer Policy β) (ops : List CategoryOp) : DBusLogServer Policy β :=
  ops.foldl (operate lib klass) s

/-- How many categories an operation creates. -/
def creates (s : DBusLogServer Policy β) : CategoryOp → Nat
  | .addCategory name _ _ => if (s.core.categories.lookup name).isNone then 1 else 0
  | _ => 0

/-- How many categories operations create, one after another. -/
def created (s : DBusLogServer Policy β) : List CategoryOp → Nat
  | [] => 0
  | op :: ops => s.creates op + created (s.operate lib klass op) ops

variable {s : DBusLogServer Policy β}

theorem operateAll_append (ops ops' : List CategoryOp) :
    s.operateAll lib klass (ops ++ ops') = (s.operateAll lib klass ops).operateAll lib klass ops' :=
  List.foldl_append

theorem created_append (ops ops' : List CategoryOp) :
    s.created lib klass (ops ++ ops') =
      s.created lib klass ops + (s.operateAll lib klass ops).created lib klass ops' := by
  induction ops generalizing s with
  | nil => exact (Nat.zero_add _).symm
  | cons op ops ih =>
    change s.creates op + (s.operate lib klass op).created lib klass (ops ++ ops') = _
    rw [ih, ← Nat.add_assoc]
    rfl

/-- Step lemma. -/
theorem operate_told {n : Nat} (h : s.core.Catalogue n) (op : CategoryOp)
    (hroom : n + s.creates op < 2 ^ 32) :
    ∃ signals, Told klass (n + s.creates op) s (s.operate lib klass op) signals := by
  cases op with
  | addCategory name level flags =>
    apply Told.of_journal
    by_cases hname : (s.core.categories.lookup name).isNone
    · have hone : s.creates (.addCategory name level flags) = 1 := if_pos hname
      rw [hone] at hroom ⊢
      exact DBusLogCore.newCategory_journal h hroom (Option.isNone_iff_eq_none.mp hname) level flags
    · have hzero : s.creates (.addCategory name level flags) = 0 := if_neg hname
      rw [hzero]
      refine DBusLogCore.newCategory_known h (Option.isSome_iff_ne_none.mpr fun hnone => ?_) level
        flags
      exact hname (Option.isNone_iff_eq_none.mpr hnone)
  | removeCategory name => exact Told.of_journal klass (DBusLogCore.removeCategory_journal h name)
  | removeAllCategories => exact Told.of_journal klass (DBusLogCore.removeAllCategories_journal h)
  | setCategoryLevel name level =>
    exact Told.of_journal klass (DBusLogCore.setCategoryLevel_journal h name level)
  | callSetCategoryLevel sender name level =>
    change ∃ signals, Told klass n s (s.callSetCategoryLevel lib klass sender name level).2 signals
    unfold callSetCategoryLevel
    split
    · exact ⟨[], Told.refl h⟩
    · exact Told.of_journal klass (DBusLogCore.setCategoryLevel_journal h name level)
  | callSetNamesEnabled sender names enable =>
    change ∃ signals, Told klass n s (s.callSetNamesEnabled lib klass sender names enable).2 signals
    unfold callSetNamesEnabled
    split
    · exact ⟨[], Told.refl h⟩
    · exact setEach_told h names enable
  | callSetPatternEnabled sender pattern enable =>
    change ∃ signals,
      Told klass n s (s.callSetPatternEnabled lib klass sender pattern enable).2 signals
    unfold callSetPatternEnabled
    split
    · exact ⟨[], Told.refl h⟩
    · exact setEach_told h _ enable

/-- Run lemma. -/
theorem operateAll_told {n : Nat} (h : s.core.Catalogue n) (ops : List CategoryOp)
    (hroom : n + s.created lib klass ops < 2 ^ 32) :
    ∃ signals, Told klass (n + s.created lib klass ops) s (s.operateAll lib klass ops) signals := by
  induction ops generalizing s n with
  | nil => exact ⟨[], Told.refl h⟩
  | cons op ops ih =>
    have hsum : n + s.created lib klass (op :: ops) =
        n + s.creates op + (s.operate lib klass op).created lib klass ops :=
      (Nat.add_assoc _ _ _).symm
    rw [hsum] at hroom ⊢
    obtain ⟨signals, hone⟩ := operate_told lib klass h op (by omega)
    obtain ⟨signals', hrest⟩ := ih hone.catalogue hroom
    exact ⟨signals ++ signals', hone.trans hrest⟩

/-- The signals of the first operations come first. -/
theorem operateAll_told_append {n : Nat} (h : s.core.Catalogue n) (ops ops' : List CategoryOp)
    (hroom : n + s.created lib klass (ops ++ ops') < 2 ^ 32) :
    ∃ first rest m, Told klass m s (s.operateAll lib klass ops) first ∧
      Told klass (n + s.created lib klass (ops ++ ops')) s (s.operateAll lib klass (ops ++ ops'))
        (first ++ rest) := by
  rw [created_append, ← Nat.add_assoc] at hroom ⊢
  obtain ⟨first, hfirst⟩ := operateAll_told lib klass h ops (by omega)
  obtain ⟨rest, hrest⟩ := operateAll_told lib klass hfirst.catalogue ops' hroom
  refine ⟨first, rest, _, hfirst, ?_⟩
  rw [operateAll_append]
  exact hfirst.trans hrest

end Operations

end DBusLogServer

end DBusLog

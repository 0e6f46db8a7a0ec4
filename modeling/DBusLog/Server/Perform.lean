import DBusLog.Server.Dbus
import DBusLog.Server.Gio

/-!
# What a method call does

`perform` is the server that the interface describes: it decodes nothing and knows no bus. Both
back ends refine it. The libdbus one takes a SetCategoryLevel call for something else than what
has been sent, see `understood`; the GIO one hands the descriptor of a new pipe over.
-/

namespace DBusLog

namespace DBusLogServer

variable {Cred Policy β : Type}

/-- The reply for a negative error code. -/
def errorReply (err : Int) : Reply :=
  if err = -eacces then .error .accessDenied "Access denied"
  else if err = -einval then .error .invalidArgs "Invalid argument(s)"
  else .error .failed "Internal error"

theorem errorReply_eq (err : Int) : ∃ type text, errorReply err = .error type text := by
  unfold errorReply
  split
  · exact ⟨_, _, rfl⟩
  · split
    · exact ⟨_, _, rfl⟩
    · exact ⟨_, _, rfl⟩

/-- The reply of a method without values. -/
def finish (r : Int × DBusLogServer Policy β) : Reply × DBusLogServer Policy β :=
  (if r.1 < 0 then errorReply r.1 else .methodReturn [], r.2)

/-- The reply of `LogOpen`. -/
def finishOpen (r : Int × DBusLogServer Policy β) : Reply × DBusLogServer Policy β :=
  (if r.1 < 0 then errorReply r.1 else .methodReturn [.unixFd r.1, .uint32 logCookie], r.2)

/-- The effect and the reply of a method. -/
def perform (lib : Libraries Cred Policy) (klass : DBusLogServerClass β) (ctx : ServerContext)
    (s : DBusLogServer Policy β) (sender : String) : LoggerCall → Reply × DBusLogServer Policy β
  | .getInterfaceVersion => (.methodReturn [.int32 interfaceVersion], s)
  | .getAll => (.methodReturn [.int32 interfaceVersion, .int32 s.core.defaultLevel.toInt32,
      .categories s.core.categoryEntries], s)
  | .getAll2 => (.methodReturn [.int32 interfaceVersion, .int32 s.core.defaultLevel.toInt32,
      .categories s.core.categoryEntries, .int32 s.core.backlog], s)
  | .setDefaultLevel level => finish (s.callSetDefaultLevel lib klass sender level.toUInt32)
  | .setCategoryLevel name level =>
    finish (s.callSetCategoryLevel lib klass sender name level.toUInt32)
  | .logOpen => finishOpen (s.callLogOpen lib klass ctx sender)
  | .logClose cookie => (.methodReturn [], s.callLogClose klass ctx sender cookie)
  | .categoryEnable names => finish (s.callSetNamesEnabled lib klass sender names true)
  | .categoryEnablePattern pattern =>
    finish (s.callSetPatternEnabled lib klass sender (some pattern) true)
  | .categoryDisable names => finish (s.callSetNamesEnabled lib klass sender names false)
  | .categoryDisablePattern pattern =>
    finish (s.callSetPatternEnabled lib klass sender (some pattern) false)
  | .setBacklog backlog => finish (s.callSetBacklog lib klass sender backlog)

/-! ## Access checks -/

/-- The result of a helper that checks the access of `sender`. -/
structure Checked (lib : Libraries Cred Policy) (s : DBusLogServer Policy β) (sender : String)
    (action : DBusLogAction) (r : Int × DBusLogServer Policy β) : Prop where
  denied : s.accessAllowed lib sender action = false → r = (-eacces, s)
  allowed : s.accessAllowed lib sender action = true → r.1 ≠ -eacces

/-- The helpers other than that of `LogOpen` return an error code or 0. -/
structure CheckedSetter (lib : Libraries Cred Policy) (s : DBusLogServer Policy β)
    (sender : String) (action : DBusLogAction) (r : Int × DBusLogServer Policy β) : Prop
    extends Checked lib s sender action r where
  nonpos : r.1 ≤ 0

section Checked

variable {lib : Libraries Cred Policy} {klass : DBusLogServerClass β} {ctx : ServerContext}
  {s : DBusLogServer Policy β} {sender : String} {action : DBusLogAction}

/-- The shape of the helpers: the check comes first. -/
theorem checked_ite {r : Int × DBusLogServer Policy β} (h : r.1 ≠ -eacces) :
    Checked lib s sender action
      (if ¬s.accessAllowed lib sender action then (-eacces, s) else r) where
  denied hdenied := if_pos (by simp [hdenied])
  allowed hallowed := by
    rw [if_neg (not_not.mpr hallowed)]
    exact h

theorem checkedSetter_ite {r : Int × DBusLogServer Policy β} (h : r.1 = 0 ∨ r.1 = -einval) :
    CheckedSetter lib s sender action
      (if ¬s.accessAllowed lib sender action then (-eacces, s) else r) where
  toChecked := checked_ite (by
    unfold eacces einval at *
    omega)
  nonpos := by
    unfold eacces einval at *
    split
    · change (-13 : Int) ≤ 0
      omega
    · omega

theorem callSetDefaultLevel_checked (level : Level) :
    CheckedSetter lib s sender .setDefaultLevel
      (s.callSetDefaultLevel lib klass sender level) := by
  refine checkedSetter_ite ?_
  cases s.core.setDefaultLevel level with
  | mk accepted core =>
    cases accepted with
    | false => exact .inr rfl
    | true => exact .inl rfl

theorem callSetCategoryLevel_checked (name : String) (level : Level) :
    CheckedSetter lib s sender .setCategoryLevel
      (s.callSetCategoryLevel lib klass sender name level) :=
  checkedSetter_ite (.inl rfl)

theorem callSetNamesEnabled_checked (names : List String) (enable : Bool) :
    CheckedSetter lib s sender (enableAction enable)
      (s.callSetNamesEnabled lib klass sender names enable) :=
  checkedSetter_ite (.inl rfl)

theorem callSetPatternEnabled_checked (pattern : Option String) (enable : Bool) :
    CheckedSetter lib s sender (enableAction enable)
      (s.callSetPatternEnabled lib klass sender pattern enable) :=
  checkedSetter_ite (.inl rfl)

theorem callSetBacklog_checked (backlog : Int32) :
    CheckedSetter lib s sender .setBacklog (s.callSetBacklog lib klass sender backlog) :=
  checkedSetter_ite (.inl rfl)

theorem neg_one_le_readfd (core : DBusLogCore) (i : Nat) : -1 ≤ readfd core i := by
  unfold readfd
  split
  · omega
  · exact le_rfl

theorem callLogOpen_checked :
    Checked lib s sender .logOpen (s.callLogOpen lib klass ctx sender) := by
  refine checked_ite ?_
  unfold eacces eio
  cases s.core.newSender sender ctx.pipe with
  | mk opened core =>
    cases opened with
    | none =>
      change (-5 : Int) ≠ -13
      omega
    | some i =>
      have hfd := neg_one_le_readfd core i
      change readfd core i ≠ -13
      omega

/-- An access that is denied is answered so, and nothing else is. -/
theorem errorReply_denied {err : Int} :
    errorReply err = .error .accessDenied "Access denied" ↔ err = -eacces := by
  unfold errorReply
  by_cases hacces : err = -eacces
  · rw [if_pos hacces]
    exact ⟨fun _ => hacces, fun _ => rfl⟩
  · rw [if_neg hacces]
    by_cases hinval : err = -einval
    · rw [if_pos hinval]
      exact ⟨fun h => (by cases h), fun h => absurd h hacces⟩
    · rw [if_neg hinval]
      exact ⟨fun h => (by cases h), fun h => absurd h hacces⟩

end Checked

end DBusLogServer

/-! ## The libdbus back end -/

namespace DBusLogServerDbus

open DBusLogServer

variable {Cred Policy : Type} {lib : Libraries Cred Policy} {ctx : ServerContext}
  {s : DBusLogServer Policy DBusLogServerDbus} {sender : String}

/-- What the libdbus back end takes a call for: who makes it, and what it is. For SetCategoryLevel
the sender and the name of the category change places. -/
def understood (sender : String) : LoggerCall → String × LoggerCall
  | .setCategoryLevel name level => (name, .setCategoryLevel sender level)
  | call => (sender, call)

/-- The table of methods and the decoding of arguments. -/
theorem deliver_eq (hstarted : s.started) (hfiltering : s.backend.filtering) (call : LoggerCall) :
    deliver lib ctx s sender call =
      some (perform lib klass ctx s (understood sender call).1 (understood sender call).2) := by
  unfold deliver filter
  rw [if_pos hfiltering]
  have hcall : (message s.path sender call).type = .methodCall := by cases call <;> rfl
  have hinterface : (message s.path sender call).interface = loggerInterface := by
    cases call <;> rfl
  simp only [hcall, hstarted, hinterface, and_self, if_true]
  cases call with
  | logOpen =>
    change some (handleLogOpen lib ctx s (message s.path sender .logOpen)) =
      some (finishOpen (s.callLogOpen lib klass ctx sender))
    unfold handleLogOpen finishOpen
    change some (if (s.callLogOpen lib klass ctx sender).1 ≥ 0 then _ else _) = _
    by_cases hfd : (s.callLogOpen lib klass ctx sender).1 < 0
    · rw [if_pos hfd, if_neg (not_le.mpr hfd)]
      rfl
    · rw [if_neg hfd, if_pos (not_lt.mp hfd)]
      rfl
  | _ => rfl

end DBusLogServerDbus

/-! ## The GIO back end -/

namespace DBusLogServerGio

open DBusLogServer

variable {Cred Policy : Type} {lib : Libraries Cred Policy} {ctx : ServerContext}
  {s : DBusLogServer Policy DBusLogServerGio} {sender : String}

theorem complete_eq {r : Int × DBusLogServer Policy DBusLogServerGio} (h : r.1 ≤ 0) :
    (complete r.1 [], r.2) = finish r := by
  unfold complete finish
  by_cases hneg : r.1 < 0
  · rw [if_pos hneg, if_pos (ne_of_lt hneg)]
    rfl
  · rw [if_neg hneg, if_neg (not_not.mpr (le_antisymm h (not_lt.mp hneg)))]

/-- After `LogOpen` the back end has handed the descriptor over. -/
def handedOver (sender : String) (call : LoggerCall)
    (r : Reply × DBusLogServer Policy DBusLogServerGio) :
    Reply × DBusLogServer Policy DBusLogServerGio :=
  match call, r.1 with
  | .logOpen, .methodReturn (.unixFd fd :: _) => (r.1, (r.2.stealReadfd sender fd).2)
  | _, _ => r

/-- The handlers of the skeleton. -/
theorem deliver_eq (hexported : s.backend.skeletonExported) (call : LoggerCall) :
    deliver lib ctx s sender call =
      some (handedOver sender call (perform lib klass ctx s sender call)) := by
  unfold deliver
  rw [if_pos hexported]
  apply congrArg some
  cases call with
  | logOpen =>
    change handleOpen lib ctx s sender =
      handedOver sender .logOpen (finishOpen (s.callLogOpen lib klass ctx sender))
    unfold handleOpen finishOpen
    rw [if_pos (s.backend.connected hexported)]
    change (if (s.callLogOpen lib klass ctx sender).1 ≥ 0 then _ else _) = _
    by_cases hfd : (s.callLogOpen lib klass ctx sender).1 < 0
    · rw [if_pos hfd, if_neg (not_le.mpr hfd)]
      obtain ⟨type, text, he⟩ := errorReply_eq (s.callLogOpen lib klass ctx sender).1
      unfold handedOver
      rw [he]
      exact congrArg (fun reply => (reply, (s.callLogOpen lib klass ctx sender).2)) he
    · rw [if_neg hfd, if_pos (not_lt.mp hfd)]
      rfl
  | setDefaultLevel level => exact complete_eq (callSetDefaultLevel_checked _).nonpos
  | setCategoryLevel name level => exact complete_eq (callSetCategoryLevel_checked _ _).nonpos
  | categoryEnable names => exact complete_eq (callSetNamesEnabled_checked _ _).nonpos
  | categoryEnablePattern pattern => exact complete_eq (callSetPatternEnabled_checked _ _).nonpos
  | categoryDisable names => exact complete_eq (callSetNamesEnabled_checked _ _).nonpos
  | categoryDisablePattern pattern => exact complete_eq (callSetPatternEnabled_checked _ _).nonpos
  | setBacklog backlog => exact complete_eq (callSetBacklog_checked _).nonpos
  | _ => rfl

end DBusLogServerGio

end DBusLog

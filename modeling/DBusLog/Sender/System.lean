import DBusLog.Lib.Runs
import DBusLog.Sender.Recursion

/-!
# The calls of a sender and its runs

The public functions of `dbuslog_sender.c` and the callbacks of the main loop, and the step
relation in which each of them is atomic. A call of `dbus_log_sender_send` from a worker thread
is its locked section; the write callback that it schedules runs as a step of its own.
-/

namespace DBusLog

namespace DBusLogSender

/-! ## The public functions -/

/-- Put a message into the ring, after dropping the newer half of a full one. -/
def queueMessage (s : DBusLogSender) (msg : DBusLogMessage) : DBusLogSender :=
  let buffer := if s.buffer.canPut 1 then s.buffer else s.buffer.dropLast (s.buffer.size / 2)
  { s with buffer := (buffer.put? msg).getD buffer }

/-- The locked section of `dbus_log_sender_send`. The flag tells whether the message has become
the current one, in which case `dbus_log_sender_schedule_write` is to be invoked. -/
def sendLocked (s : DBusLogSender) (msg : DBusLogMessage) : Bool × DBusLogSender :=
  if s.done then (false, s)
  else if s.packetSize = s.packetWritten then
    (true, { s with currentMessage := some msg }.prepareCurrentMessage)
  else (false, s.queueMessage msg)

/-- `dbus_log_sender_send` on the main thread, where the invoked function runs at once. -/
def send (s : DBusLogSender) (msg : DBusLogMessage) : DBusLogSender :=
  match s.sendLocked msg with
  | (true, s) => s.scheduleWrite
  | (false, s) => s

/-- `dbus_log_sender_send` on another thread, where the invoked function is only scheduled. -/
def sendFromWorker (s : DBusLogSender) (msg : DBusLogMessage) : DBusLogSender :=
  match s.sendLocked msg with
  | (true, s) => { s with pending := s.pending + 1 }
  | (false, s) => s

/-- `dbus_log_sender_ping` goes ahead only if nothing is pending. -/
def canPing (s : DBusLogSender) : Bool :=
  !s.done && s.currentMessage.isNone && s.buffer.items.isEmpty

/-- `dbus_log_sender_ping` -/
def ping (s : DBusLogSender) : Bool × DBusLogSender :=
  if s.canPing then (true, (s.fillHeader 0 .ping).scheduleWrite) else (false, s)

/-- The locked section of `dbus_log_sender_close`, with the same flag as `sendLocked`. -/
def closeLocked (s : DBusLogSender) : Bool × DBusLogSender :=
  if s.done then (false, s)
  else if s.packetSize = s.packetWritten ∧ s.buffer.items = [] then
    (true, { s with done := true }.prepareBye)
  else (false, { s with done := true, bye := true })

/-- `dbus_log_sender_close`. The source never looks at its second parameter. -/
def close (s : DBusLogSender) (_bye : Bool) : DBusLogSender :=
  match s.closeLocked with
  | (true, s) => s.scheduleWrite
  | (false, s) => s

/-- `dbus_log_sender_write_callback` for the watch `id`; `out` tells whether the condition has
`G_IO_OUT`. The source is removed unless the callback asks to continue. -/
def writeCallback (s : DBusLogSender) (id : Nat) (out : Bool) : DBusLogSender :=
  if out then
    match s.write with
    | (true, s) => s
    | (false, s) => s.removeSource id
  else ({ s with writeWatchId := 0 }.shutdown false).removeSource id

/-- `dbus_log_sender_schedule_write_in_context`, run by the main loop for a worker's send. -/
def scheduleWriteInContext (s : DBusLogSender) : DBusLogSender :=
  { s with pending := s.pending - 1 }.scheduleWrite

/-- No packet is in flight. -/
def Idle (s : DBusLogSender) : Prop := s.packetSize = s.packetWritten

instance (s : DBusLogSender) : Decidable s.Idle :=
  inferInstanceAs (Decidable (_ = _))

theorem canPing_iff (s : DBusLogSender) :
    s.canPing = true ↔ s.done = false ∧ s.currentMessage = none ∧ s.buffer.items = [] := by
  simp [canPing, and_assoc]

/-- What `dbus_log_sender_ping` does. -/
theorem ping_cases (s : DBusLogSender) :
    (s.canPing = true ∧ s.ping = (true, (s.fillHeader 0 .ping).scheduleWrite)) ∨
    (s.canPing = false ∧ s.ping = (false, s)) := by
  cases hc : s.canPing with
  | true => exact .inl ⟨rfl, if_pos hc⟩
  | false => exact .inr ⟨rfl, if_neg (by simp [hc])⟩

/-- What the locked section of `dbus_log_sender_send` does. -/
theorem sendLocked_cases (s : DBusLogSender) (msg : DBusLogMessage) :
    (s.done = true ∧ s.sendLocked msg = (false, s)) ∨
    (s.done = false ∧ s.Idle ∧ s.sendLocked msg =
      (true, { s with currentMessage := some msg }.prepareCurrentMessage)) ∨
    (s.done = false ∧ ¬s.Idle ∧ s.sendLocked msg = (false, s.queueMessage msg)) := by
  unfold sendLocked
  by_cases hdone : s.done = true
  · exact .inl ⟨hdone, if_pos hdone⟩
  · have hopen : s.done = false := by simpa using hdone
    rw [if_neg hdone]
    by_cases hidle : s.packetSize = s.packetWritten
    · exact .inr (.inl ⟨hopen, hidle, if_pos hidle⟩)
    · exact .inr (.inr ⟨hopen, hidle, if_neg hidle⟩)

/-- What the locked section of `dbus_log_sender_close` does. -/
theorem closeLocked_cases (s : DBusLogSender) :
    (s.done = true ∧ s.closeLocked = (false, s)) ∨
    (s.done = false ∧ s.Idle ∧ s.buffer.items = [] ∧ s.closeLocked =
      (true, { s with done := true }.prepareBye)) ∨
    (s.done = false ∧ ¬(s.Idle ∧ s.buffer.items = []) ∧ s.closeLocked =
      (false, { s with done := true, bye := true })) := by
  unfold closeLocked
  by_cases hdone : s.done = true
  · exact .inl ⟨hdone, if_pos hdone⟩
  · have hopen : s.done = false := by simpa using hdone
    rw [if_neg hdone]
    by_cases hidle : s.packetSize = s.packetWritten ∧ s.buffer.items = []
    · exact .inr (.inl ⟨hopen, hidle.1, hidle.2, if_pos hidle⟩)
    · exact .inr (.inr ⟨hopen, hidle, if_neg hidle⟩)

end DBusLogSender

/-! ## Runs -/

/-- One atomic step. The answers are those of the channel writes made in the step. -/
inductive SenderStep
  | workerSend (msg : DBusLogMessage)
  | send (msg : DBusLogMessage) (answers : List WriteAnswer)
  | ping (answers : List WriteAnswer)
  | close (bye : Bool) (answers : List WriteAnswer)
  | shutdown (flush : Bool)
  | callback (answers : List WriteAnswer)
  | watch (id : Nat) (out : Bool) (answers : List WriteAnswer)
  deriving DecidableEq

namespace SenderStep

/-- The message that a step passes to `dbus_log_sender_send`. -/
def message? : SenderStep → Option DBusLogMessage
  | .workerSend msg | .send msg _ => some msg
  | _ => none

/-- The steps of the main thread alone: no worker sends, and nothing that they schedule. -/
def OnMainThread : SenderStep → Prop
  | .workerSend _ | .callback _ => False
  | _ => True

instance : DecidablePred OnMainThread
  | .workerSend _ | .callback _ => isFalse id
  | .send _ _ | .ping _ | .close _ _ | .shutdown _ | .watch _ _ _ => isTrue trivial

/-- No channel write of the step fails, and it does not shut the sender down from outside. -/
def Clean : SenderStep → Prop
  | .workerSend _ => True
  | .shutdown _ => False
  | .send _ answers | .ping answers | .close _ answers | .callback answers => .error ∉ answers
  | .watch _ out answers => out = true ∧ .error ∉ answers

instance : DecidablePred Clean
  | .workerSend _ => isTrue trivial
  | .shutdown _ => isFalse id
  | .send _ _ | .ping _ | .close _ _ | .callback _ => inferInstanceAs (Decidable (_ ∉ _))
  | .watch _ _ _ => inferInstanceAs (Decidable (_ ∧ _ ∉ _))

end SenderStep

namespace DBusLogSender

/-- A step; `none` when it is not enabled: a ping with a packet in flight, a callback that is
not scheduled, or a watch that is not live. -/
def step (s : DBusLogSender) : SenderStep → Option DBusLogSender
  | .workerSend msg => some (s.sendFromWorker msg)
  | .send msg answers => some ({ s with answers := answers }.send msg)
  | .ping answers => if s.Idle then some ({ s with answers := answers }.ping).2 else none
  | .close bye answers => some ({ s with answers := answers }.close bye)
  | .shutdown flush => some (s.shutdown flush)
  | .callback answers =>
    if 0 < s.pending then some { s with answers := answers }.scheduleWriteInContext else none
  | .watch id out answers =>
    if id ∈ s.watches then some ({ s with answers := answers }.writeCallback id out) else none

/-- A run of atomic steps. -/
abbrev run (s : DBusLogSender) (steps : List SenderStep) : Option DBusLogSender :=
  Runs.run step s steps

end DBusLogSender

end DBusLog

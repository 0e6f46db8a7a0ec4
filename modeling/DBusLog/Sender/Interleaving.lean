import DBusLog.Sender.Ledger
import DBusLog.Sender.Packet

/-!
# Worker sends between the two halves of `write`

Here `dbus_log_sender_write` is two atomic steps of the main thread: the unlocked I/O, and the
locked section that releases the sent message and prepares the next packet. Worker threads can
send between them. A `Thread` is the sender together with the place where the main thread is;
the callers of a running `write` are kept on a stack.
-/

namespace DBusLog

/-- Who has called `dbus_log_sender_write`. -/
inductive Caller
  | scheduleWrite
  | watch (id : Nat)
  deriving DecidableEq

/-- Where the main thread is. -/
inductive Control
  /-- Outside of the sender. -/
  | idle
  /-- Before the I/O of `write`. -/
  | writing (callers : List Caller)
  /-- Behind the I/O of `write`, which has got the packet of `finished` out, and before its locked
  section. -/
  | between (callers : List Caller) (finished : Option DBusLogMessage)
  deriving DecidableEq

/-- The main thread is between the halves of `write`. -/
def Control.isBetween : Control → Bool
  | .between _ _ => true
  | _ => false

structure Thread where
  sender : DBusLogSender
  control : Control
  deriving DecidableEq

/-- An atomic step: a worker's send, a call of the main thread, or a half of `write`. -/
inductive Action
  | workerSend (msg : DBusLogMessage)
  | send (msg : DBusLogMessage)
  | ping
  | close (bye : Bool)
  | shutdown (flush : Bool)
  | callback
  | watch (id : Nat) (out : Bool)
  | io (answers : List WriteAnswer)
  | locked
  deriving DecidableEq

namespace Thread

open DBusLogSender

/-- `write` returns to its callers. A `schedule_write` among them returns to the `write` that
called it, which then returns TRUE. -/
def returnFrom : Bool → DBusLogSender → List Caller → DBusLogSender
  | _, s, [] => s
  | more, s, .watch id :: callers =>
    returnFrom true (if more then s else s.removeSource id) callers
  | more, s, .scheduleWrite :: callers => returnFrom true (if more then s.addWatch else s) callers

/-- `dbus_log_sender_schedule_write` is entered. -/
def enterScheduleWrite (s : DBusLogSender) (callers : List Caller) : Thread :=
  if s.io.isSome ∧ s.writeWatchId = 0 then ⟨s, .writing (.scheduleWrite :: callers)⟩
  else ⟨returnFrom true s callers, .idle⟩

/-- The locked section of a main-thread call, and `schedule_write` if it asks for it. -/
def enterLocked : Bool × DBusLogSender → Thread
  | (true, s) => enterScheduleWrite s []
  | (false, s) => ⟨s, .idle⟩

/-- The unlocked half of `write`. -/
def io (s : DBusLogSender) (callers : List Caller) : Thread :=
  match s.writePacket with
  | (.wait, t) => ⟨returnFrom true t callers, .idle⟩
  | (.failed, t) => ⟨returnFrom false t.fail callers, .idle⟩
  | (.sent, t) => ⟨t, .between callers t.currentMessage⟩

/-- The locked half of `write`. -/
def locked (s : DBusLogSender) (callers : List Caller) : Thread :=
  match s.nextPacket with
  | (true, u) => enterScheduleWrite u callers
  | (false, u) => ⟨returnFrom false u.finish callers, .idle⟩

/-- A step; `none` when it is not enabled. Calls of the main thread start when it is idle. -/
def step (c : Thread) (a : Action) : Option Thread :=
  match c.control, a with
  | _, .workerSend msg => some { c with sender := c.sender.sendFromWorker msg }
  | .idle, .send msg => some (enterLocked (c.sender.sendLocked msg))
  | .idle, .ping =>
    if c.sender.Idle then
      some (if c.sender.canPing then enterScheduleWrite (c.sender.fillHeader 0 .ping) [] else c)
    else none
  | .idle, .close _ => some (enterLocked c.sender.closeLocked)
  | .idle, .shutdown flush => some ⟨c.sender.shutdown flush, .idle⟩
  | .idle, .callback =>
    if 0 < c.sender.pending then
      some (enterScheduleWrite { c.sender with pending := c.sender.pending - 1 } [])
    else none
  | .idle, .watch id out =>
    if id ∈ c.sender.watches then
      some (if out then ⟨c.sender, .writing [.watch id]⟩
        else ⟨({ c.sender with writeWatchId := 0 }.shutdown false).removeSource id, .idle⟩)
    else none
  | .writing callers, .io answers => some (io { c.sender with answers := answers } callers)
  | .between callers _, .locked => some (locked c.sender callers)
  | _, _ => none

abbrev run (c : Thread) (actions : List Action) : Option Thread := Runs.run step c actions

/-- A fresh sender, and the main thread elsewhere. -/
def new (name : String) (backlog : Int32) (readfd writefd : Nat) : Thread :=
  ⟨DBusLogSender.new name backlog readfd writefd, .idle⟩

/-! ## The messages that a sender holds -/

/-- The messages stored by send and not released. -/
def held (s : DBusLogSender) : List DBusLogMessage := s.currentMessage.toList ++ s.buffer.items

/-- A send stores its message behind the others, except that a full ring loses its newest ones. -/
def Stores (s t : DBusLogSender) (msg : DBusLogMessage) : Prop :=
  ∃ stay gone, held s = stay ++ gone ∧ (s.buffer.canPut 1 = true → gone = []) ∧
    (held t = stay ++ [msg] ∨ s.buffer.canPut 1 = false ∧ held t = stay)

/-- What a step may do to the messages held by a sender that stays open. The locked half of
`write` releases the message whose packet the unlocked half has just finished. -/
def Keeps (c c' : Thread) (a : Action) : Prop :=
  c'.sender.io.isSome →
    match a with
    | .workerSend msg | .send msg =>
      if c.sender.done then held c'.sender = held c.sender else Stores c.sender c'.sender msg
    | .locked => ∃ callers, c.control = .between callers c.sender.currentMessage ∧
        held c.sender = c.sender.currentMessage.toList ++ held c'.sender ∧
        ∀ m ∈ c.sender.currentMessage,
          (WirePacket.message m).encode <:+ c.sender.accepted
    | _ => held c'.sender = held c.sender

/-- A message fits when a packet is prepared for it, at once by a send or later by the locked half of
`write`, and no worker's message is taken between the halves. -/
def Undisturbed (c : Thread) : Action → Prop
  | .workerSend msg =>
    c.sender.done = false → c.control.isBetween = false ∧ (c.sender.Idle → msg.Fits)
  | .send msg => c.sender.done = false → c.sender.Idle → msg.Fits
  | .locked => ∀ m ∈ c.sender.buffer.items.head?, m.Fits
  | _ => True

instance (c : Thread) : DecidablePred (Undisturbed c)
  | .workerSend _ => inferInstanceAs (Decidable (_ = _ → _ = _ ∧ (_ → _)))
  | .send _ => inferInstanceAs (Decidable (_ = _ → _ → _))
  | .locked => inferInstanceAs (Decidable (∀ m ∈ _, _))
  | .ping | .close _ | .shutdown _ | .callback | .watch _ _ | .io _ => isTrue trivial

/-! ## The invariant -/

/-- Nothing is in flight and nothing is held. -/
structure AtRest (s : DBusLogSender) : Prop where
  idle : s.Idle
  message : s.currentMessage = none
  buffer : s.buffer.items = []

/-- The packet `p` is in flight, and its message is the current one. -/
structure Sends (s : DBusLogSender) (out : List UInt8) (p : WirePacket) : Prop
    extends Sending out p s where
  unfinished : s.packetWritten < s.packetSize
  message : s.currentMessage = p.message?

/-- An open sender outside of the two halves of `write`. -/
def Settled (s : DBusLogSender) : Prop := AtRest s ∨ ∃ out p, Sends s out p

/-- Between the halves the finished message is still the current one. -/
def ThreadInv (c : Thread) : Prop :=
  c.sender.io.isSome →
    match c.control with
    | .between _ finished => finished = c.sender.currentMessage ∧
        ∀ m ∈ c.sender.currentMessage, (WirePacket.message m).encode <:+ c.sender.accepted
    | _ => Settled c.sender

/-- What does not matter to the messages: the watches and the count of scheduled callbacks. -/
def SameOutput (s t : DBusLogSender) : Prop :=
  ∃ watches last id null pending answers, t = { s with
    watches := watches, lastWatchId := last, writeWatchId := id, nullWatches := null
    pending := pending, answers := answers }

theorem SameOutput.refl (s : DBusLogSender) : SameOutput s s := ⟨_, _, _, _, _, _, rfl⟩

theorem SameOutput.trans {s t u : DBusLogSender} (h : SameOutput s t) (h' : SameOutput t u) :
    SameOutput s u := by
  obtain ⟨_, _, _, _, _, _, rfl⟩ := h
  obtain ⟨_, _, _, _, _, _, rfl⟩ := h'
  exact ⟨_, _, _, _, _, _, rfl⟩

theorem SameOutput.held {s t : DBusLogSender} (h : SameOutput s t) : held t = held s := by
  obtain ⟨_, _, _, _, _, _, rfl⟩ := h
  rfl

theorem SameOutput.io {s t : DBusLogSender} (h : SameOutput s t) : t.io = s.io := by
  obtain ⟨_, _, _, _, _, _, rfl⟩ := h
  rfl

theorem SameOutput.settled {s t : DBusLogSender} (h : SameOutput s t) (hs : Settled s) :
    Settled t := by
  obtain ⟨_, _, _, _, _, _, rfl⟩ := h
  obtain hrest | ⟨out, p, hsends⟩ := hs
  · exact .inl ⟨hrest.idle, hrest.message, hrest.buffer⟩
  · refine .inr ⟨out, p, ?_, hsends.unfinished, hsends.message⟩
    exact ⟨⟨hsends.size, hsends.fixed, hsends.bytes⟩, hsends.written, hsends.accepted⟩

theorem returnFrom_sameOutput (more : Bool) (s : DBusLogSender) (callers : List Caller) :
    SameOutput s (returnFrom more s callers) := by
  induction callers generalizing more s with
  | nil => exact SameOutput.refl s
  | cons caller callers ih =>
    cases caller with
    | scheduleWrite =>
      refine SameOutput.trans ?_ (ih true _)
      cases more with
      | true =>
        obtain ⟨_, _, _, _, h⟩ := addWatch_frame s
        exact ⟨_, _, _, _, _, _, h⟩
      | false => exact SameOutput.refl s
    | watch id =>
      refine SameOutput.trans ?_ (ih true _)
      cases more with
      | true => exact SameOutput.refl s
      | false => exact ⟨_, _, _, _, _, _, rfl⟩

theorem enterScheduleWrite_sameOutput (s : DBusLogSender) (callers : List Caller) :
    SameOutput s (enterScheduleWrite s callers).sender := by
  unfold enterScheduleWrite
  split
  · exact SameOutput.refl s
  · exact returnFrom_sameOutput true s callers

theorem enterScheduleWrite_inv {s : DBusLogSender} (callers : List Caller) (h : Settled s) :
    ThreadInv (enterScheduleWrite s callers) := by
  have hsettled := (enterScheduleWrite_sameOutput s callers).settled h
  unfold enterScheduleWrite at hsettled ⊢
  split at hsettled
  next hc =>
    rw [if_pos hc]
    exact fun _ => hsettled
  next hc =>
    rw [if_neg hc]
    exact fun _ => hsettled

/-! ## The locked section of a send -/

theorem Settled.atRest {s : DBusLogSender} (h : Settled s) (hidle : s.Idle) : AtRest s := by
  obtain hrest | ⟨out, p, hsends⟩ := h
  · exact hrest
  · exact absurd hidle (Nat.ne_of_gt hsends.unfinished)

theorem sendLocked_io (s : DBusLogSender) (msg : DBusLogMessage) :
    (s.sendLocked msg).2.io = s.io := by
  rcases sendLocked_cases s msg with ⟨_, he⟩ | ⟨_, _, he⟩ | ⟨_, _, he⟩
  · rw [he]
  · rw [he]
    exact prepareCurrentMessage_io _
  · rw [he]
    rfl

/-- A packet that has just been prepared in a sender at rest. -/
theorem Settled.prepared {s : DBusLogSender} {p : WirePacket} (hf : InFlight s p)
    (hw : s.packetWritten = 0) (hm : s.currentMessage = p.message?) : Settled s := by
  refine .inr ⟨s.accepted, p, ⟨⟨hf, ?_, ?_⟩, ?_, hm⟩⟩
  · omega
  · rw [hw, List.take_zero, List.append_nil]
  · rw [hw]
    exact hf.size_pos

theorem sendLocked_keeps {s : DBusLogSender} {msg : DBusLogMessage} (h : Settled s)
    (hdone : s.done = false) (hfits : s.Idle → msg.Fits) :
    Stores s (s.sendLocked msg).2 msg ∧ Settled (s.sendLocked msg).2 := by
  rcases sendLocked_cases s msg with ⟨hdone', _⟩ | ⟨_, hidle, he⟩ | ⟨_, hidle, he⟩
  · cases hdone.symm.trans hdone'
  · have hrest := h.atRest hidle
    obtain ⟨packet, hframe⟩ := prepareCurrentMessage_frame
      (s := { s with currentMessage := some msg }) rfl
    rw [he]
    refine ⟨⟨[], [], ?_, fun _ => rfl, .inl ?_⟩, ?_⟩
    · simp [held, hrest.message, hrest.buffer]
    · simp only [hframe]
      simp [held, hrest.buffer]
    · have hf := inFlight_message (s := { s with currentMessage := some msg }) rfl (hfits hidle)
      refine Settled.prepared hf ?_ ?_
      all_goals rw [hframe]
      · rfl
  · rw [he]
    obtain ⟨stay, gone, hitems, hgone, hcase⟩ := busySend_cases hdone hidle msg Ledger.empty
    have hfull : s.buffer.canPut 1 = true → gone = [] :=
      fun hput => hgone.trans (overflow_of_canPut hput)
    have hheld : held s = (s.currentMessage.toList ++ stay) ++ gone := by
      rw [held, hitems, List.append_assoc]
    refine ⟨⟨_, gone, hheld, hfull, ?_⟩, ?_⟩
    · rcases hcase with ⟨hring, _⟩ | ⟨⟨hput, _⟩, hring, _⟩
      · refine .inl ?_
        rw [held, hring, List.append_assoc]
        rfl
      · refine .inr ⟨hput, ?_⟩
        rw [held, hring]
        rfl
    · obtain hrest | ⟨out, p, hsends⟩ := h
      · exact absurd hrest.idle hidle
      · refine .inr ⟨out, p, ?_, hsends.unfinished, hsends.message⟩
        exact ⟨⟨hsends.size, hsends.fixed, hsends.bytes⟩, hsends.written, hsends.accepted⟩

/-! ## Steps -/

/-- What a step from an open sender has to establish. -/
def Good (c : Thread) (a : Action) (c' : Thread) : Prop := Keeps c c' a ∧ ThreadInv c'

section Steps

variable {s t : DBusLogSender}

/-- A main-thread call that changes no message. -/
theorem good_enterScheduleWrite {c : Thread} {a : Action} {s : DBusLogSender}
    (callers : List Caller) (hs : Settled s) (hheld : held s = held c.sender)
    (ha : ∀ c' : Thread, held c'.sender = held c.sender → Keeps c c' a) :
    Good c a (enterScheduleWrite s callers) :=
  ⟨ha _ ((enterScheduleWrite_sameOutput s callers).held.trans hheld),
    enterScheduleWrite_inv callers hs⟩

/-- A send of the main thread. -/
theorem good_send (hs : Settled s) {msg : DBusLogMessage}
    (hfits : s.done = false → s.Idle → msg.Fits) :
    Good ⟨s, .idle⟩ (.send msg) (enterLocked (s.sendLocked msg)) := by
  by_cases hdone : s.done = true
  · have he : s.sendLocked msg = (false, s) := if_pos hdone
    rw [he]
    refine ⟨fun _ => ?_, fun _ => hs⟩
    simp only [if_pos hdone]
    rfl
  · have hopen : s.done = false := by simpa using hdone
    obtain ⟨⟨stay, gone, hheld, hfull, hstored⟩, hsettled⟩ :=
      sendLocked_keeps hs hopen (hfits hopen)
    cases hl : s.sendLocked msg with
    | mk more t =>
      rw [hl] at hstored hsettled
      cases more with
      | true =>
        have hsame := enterScheduleWrite_sameOutput t []
        refine ⟨fun _ => ?_, enterScheduleWrite_inv [] hsettled⟩
        simp only [if_neg hdone]
        refine ⟨stay, gone, hheld, hfull, ?_⟩
        change held (enterScheduleWrite t []).sender = _ ∨ _ ∧
          held (enterScheduleWrite t []).sender = _
        rw [hsame.held]
        exact hstored
      | false =>
        refine ⟨fun _ => ?_, fun _ => hsettled⟩
        simp only [if_neg hdone]
        exact ⟨stay, gone, hheld, hfull, hstored⟩

theorem good_ping (hs : Settled s) (hidle : s.Idle) :
    Good ⟨s, .idle⟩ .ping
      (if s.canPing then enterScheduleWrite (s.fillHeader 0 .ping) [] else ⟨s, .idle⟩) := by
  have hrest := hs.atRest hidle
  by_cases hc : s.canPing = true
  · rw [if_pos hc]
    refine good_enterScheduleWrite [] ?_ rfl fun _ h _ => h
    exact Settled.prepared (inFlight_ping hrest.message) rfl hrest.message
  · rw [if_neg hc]
    exact ⟨fun _ => rfl, fun _ => hs⟩

theorem good_close (hs : Settled s) (bye : Bool) :
    Good ⟨s, .idle⟩ (.close bye) (enterLocked s.closeLocked) := by
  rcases closeLocked_cases s with ⟨_, he⟩ | ⟨_, hidle, _, he⟩ | ⟨_, _, he⟩
  · rw [he]
    exact ⟨fun _ => rfl, fun _ => hs⟩
  · have hrest := hs.atRest hidle
    rw [he]
    refine good_enterScheduleWrite [] ?_ rfl fun _ h _ => h
    exact Settled.prepared (inFlight_bye (s := { s with done := true }) hrest.message) rfl
      hrest.message
  · rw [he]
    refine ⟨fun _ => rfl, fun _ => ?_⟩
    obtain hrest | ⟨out, p, hsends⟩ := hs
    · exact .inl ⟨hrest.idle, hrest.message, hrest.buffer⟩
    · refine .inr ⟨out, p, ?_, hsends.unfinished, hsends.message⟩
      exact ⟨⟨hsends.size, hsends.fixed, hsends.bytes⟩, hsends.written, hsends.accepted⟩

/-- The unlocked half of `write`. -/
theorem good_io (hs : Settled s) (callers : List Caller) (answers : List WriteAnswer) :
    Good ⟨s, .writing callers⟩ (.io answers) (io { s with answers := answers } callers) := by
  have hs' : Settled { s with answers := answers } :=
    SameOutput.settled ⟨_, _, _, _, _, _, rfl⟩ hs
  unfold io
  cases hp : { s with answers := answers }.writePacket with
  | mk r t =>
    obtain ⟨answers', accepted, written, hframe⟩ := writePacket_frame hp
    have hheld : held t = held s := by rw [hframe]; rfl
    cases r with
    | wait =>
      have hsame := returnFrom_sameOutput true t callers
      refine ⟨fun _ => hsame.held.trans hheld, fun _ => hsame.settled ?_⟩
      obtain hrest | ⟨out, p, hsends⟩ := hs'
      · have hsent : { s with answers := answers }.writePacket = (.sent, _) :=
          if_neg (by rw [hrest.idle]; exact lt_irrefl _)
        cases hsent.symm.trans hp
      · have hmoved := writePacket_moved hsends.toSending hp
        rw [hframe] at hmoved ⊢
        refine .inr ⟨out, p, ?_, hmoved.wait rfl, hsends.message⟩
        exact ⟨⟨hsends.size, hsends.fixed, hsends.bytes⟩, hmoved.written, hmoved.accepted⟩
    | failed =>
      have hsame := returnFrom_sameOutput false t.fail callers
      have hnone : (returnFrom false t.fail callers).io = none := hsame.io
      refine ⟨fun hopen => ?_, fun hopen => ?_⟩
      all_goals
        simp only [hnone] at hopen
        cases hopen
    | sent =>
      refine ⟨fun _ => hheld, fun _ => ⟨rfl, ?_⟩⟩
      intro m hm
      obtain hrest | ⟨out, p, hsends⟩ := hs'
      · rw [hframe] at hm
        cases hrest.message.symm.trans hm
      · have hmoved := writePacket_moved hsends.toSending hp
        have hp : p = .message m := by
          rw [hframe] at hm
          have hmsg := hsends.message.symm.trans hm
          cases p with
          | message m' => cases hmsg; rfl
          | _ => cases hmsg
        rw [hmoved.accepted, hmoved.sent rfl, hsends.size, List.take_length, hp]
        exact List.suffix_append _ _

/-- A shut down sender owes nothing. -/
theorem good_of_closed {c c' : Thread} {a : Action} (h : c'.sender.io = none) : Good c a c' := by
  refine ⟨fun hopen => ?_, fun hopen => ?_⟩
  all_goals
    rw [h] at hopen
    cases hopen

/-- The locked half of `write` releases the current message, whose bytes are out, and prepares
the head of the ring. -/
theorem good_locked {callers : List Caller} (hfits : ∀ m ∈ s.buffer.items.head?, m.Fits)
    (hout : ∀ m ∈ s.currentMessage, (WirePacket.message m).encode <:+ s.accepted) :
    Good ⟨s, .between callers s.currentMessage⟩ .locked (locked s callers) := by
  have hkeeps : ∀ c' : Thread, held c'.sender = s.buffer.items →
      Keeps ⟨s, .between callers s.currentMessage⟩ c' .locked :=
    fun c' hheld _ => ⟨callers, rfl, by rw [hheld]; rfl, hout⟩
  unfold locked
  rcases nextPacket_cases s with ⟨m, rest, hb, he⟩ | ⟨hb, hbye, he⟩ | ⟨hb, hbye, he⟩
  · have hm : m.Fits := hfits m (by rw [hb]; rfl)
    have hf := inFlight_message
      (s := { s with currentMessage := some m, buffer := s.buffer.get.2 }) rfl hm
    obtain ⟨packet, hframe⟩ := prepareCurrentMessage_frame
      (s := { s with currentMessage := some m, buffer := s.buffer.get.2 }) rfl
    rw [he]
    have hsame := enterScheduleWrite_sameOutput
      { s with currentMessage := some m, buffer := s.buffer.get.2 }.prepareCurrentMessage callers
    refine ⟨hkeeps _ (hsame.held.trans ?_), enterScheduleWrite_inv callers (.inr ?_)⟩
    · rw [hframe]
      simp [held, hb]
    · refine ⟨s.accepted, .message m, ⟨⟨hf, ?_, ?_⟩, ?_, ?_⟩⟩
      · rw [hframe]
        exact Nat.zero_le _
      · rw [hframe]
        exact (List.append_nil _).symm
      · have hpos := hf.size_pos
        rw [hframe] at hpos ⊢
        exact hpos
      · rw [hframe]
        rfl
  · have hnil : s.buffer.get.2.items = [] := by simp [hb]
    rw [he]
    have hsame := enterScheduleWrite_sameOutput
      { s with currentMessage := none, buffer := s.buffer.get.2 }.prepareBye callers
    refine ⟨hkeeps _ (hsame.held.trans ?_), enterScheduleWrite_inv callers ?_⟩
    · rw [hb]
      exact hnil
    · exact Settled.prepared (inFlight_bye rfl) rfl rfl
  · rw [he]
    have hsame := returnFrom_sameOutput false
      { s with currentMessage := none, buffer := s.buffer.get.2, packetWritten := 0,
               packetSize := 0, packetFixedPart := 0 }.finish callers
    by_cases hdone : s.done = true
    · refine good_of_closed (hsame.io.trans ?_)
      unfold finish
      simp only [if_pos hdone]
      rfl
    · have hnil : s.buffer.get.2.items = [] := by simp [hb]
      have hrest : AtRest { s with
          currentMessage := none, buffer := s.buffer.get.2, packetWritten := 0,
          packetSize := 0, packetFixedPart := 0 }.finish := by
        unfold finish
        simp only [if_neg hdone]
        exact ⟨rfl, rfl, hnil⟩
      refine ⟨hkeeps _ (hsame.held.trans ?_), fun _ => hsame.settled (.inl hrest)⟩
      rw [held, hrest.message, hrest.buffer, hb]
      rfl

end Steps

/-- A worker's send, wherever the main thread is. -/
theorem good_workerSend {c : Thread} (h : ThreadInv c) {msg : DBusLogMessage}
    (hcond : Undisturbed c (.workerSend msg)) :
    Good c (.workerSend msg) { c with sender := c.sender.sendFromWorker msg } := by
  have hsame : SameOutput (c.sender.sendLocked msg).2 (c.sender.sendFromWorker msg) := by
    unfold sendFromWorker
    split
    next he =>
      rw [he]
      exact ⟨_, _, _, _, _, _, rfl⟩
    next he =>
      rw [he]
      exact SameOutput.refl _
  by_cases hio : c.sender.io.isSome
  · by_cases hdone : c.sender.done = true
    · -- refused
      have he : c.sender.sendLocked msg = (false, c.sender) := if_pos hdone
      have heq : c.sender.sendFromWorker msg = c.sender := by
        unfold sendFromWorker
        rw [he]
      rw [heq]
      refine ⟨fun _ => ?_, h⟩
      simp only [if_pos hdone]
    · have hopen : c.sender.done = false := by simpa using hdone
      obtain ⟨hcontrol, hfits⟩ := hcond hopen
      have hs : Settled c.sender := by
        have hinv := h hio
        cases hc : c.control with
        | between callers finished =>
          rw [hc] at hcontrol
          cases hcontrol
        | idle =>
          rw [hc] at hinv
          exact hinv
        | writing callers =>
          rw [hc] at hinv
          exact hinv
      obtain ⟨⟨stay, gone, hheld, hfull, hstored⟩, hsettled⟩ := sendLocked_keeps hs hopen hfits
      refine ⟨fun _ => ?_, fun _ => ?_⟩
      · simp only [if_neg hdone]
        refine ⟨stay, gone, hheld, hfull, ?_⟩
        rw [hsame.held]
        exact hstored
      · have hsettled' := hsame.settled hsettled
        cases hc : c.control with
        | between callers finished =>
          rw [hc] at hcontrol
          cases hcontrol
        | idle => exact hsettled'
        | writing callers => exact hsettled'
  · refine good_of_closed ?_
    rw [hsame.io, sendLocked_io]
    simpa using hio

theorem enterLocked_io (r : Bool × DBusLogSender) : (enterLocked r).sender.io = r.2.io := by
  obtain ⟨more, s⟩ := r
  cases more with
  | true => exact (enterScheduleWrite_sameOutput s []).io
  | false => rfl

theorem closeLocked_io (s : DBusLogSender) : s.closeLocked.2.io = s.io := by
  rcases closeLocked_cases s with ⟨_, he⟩ | ⟨_, _, _, he⟩ | ⟨_, _, he⟩
  · rw [he]
  · rw [he]
    rfl
  · rw [he]

theorem sendFromWorker_io (s : DBusLogSender) (msg : DBusLogMessage) :
    (s.sendFromWorker msg).io = s.io := by
  have h := sendLocked_io s msg
  unfold sendFromWorker
  split
  all_goals
    next he =>
      rw [he] at h
      exact h

/-- A closed channel stays closed. -/
theorem step_closed {c c' : Thread} {a : Action} (h : c.sender.io = none)
    (ht : step c a = some c') : c'.sender.io = none := by
  unfold step at ht
  split at ht
  · cases ht
    exact (sendFromWorker_io _ _).trans h
  · cases ht
    exact (enterLocked_io _).trans ((sendLocked_io _ _).trans h)
  · obtain ⟨_, he⟩ := Option.ite_none_right_eq_some.mp ht
    cases he
    split
    · exact (enterScheduleWrite_sameOutput _ []).io.trans h
    · exact h
  · cases ht
    exact (enterLocked_io _).trans ((closeLocked_io _).trans h)
  · cases ht
    rfl
  · obtain ⟨_, he⟩ := Option.ite_none_right_eq_some.mp ht
    cases he
    exact (enterScheduleWrite_sameOutput _ []).io.trans h
  · obtain ⟨_, he⟩ := Option.ite_none_right_eq_some.mp ht
    cases he
    split
    · exact h
    · rfl
  · next callers answers _ =>
    cases ht
    unfold io
    split
    · next t hp =>
      obtain ⟨_, _, _, rfl⟩ := writePacket_frame hp
      exact (returnFrom_sameOutput true _ callers).io.trans h
    · next t hp => exact (returnFrom_sameOutput false _ callers).io
    · next t hp =>
      obtain ⟨_, _, _, rfl⟩ := writePacket_frame hp
      exact h
  · next callers _ _ =>
    cases ht
    unfold locked
    split
    · next u hn =>
      obtain ⟨_, _, _, _, rfl⟩ := nextPacket_frame hn
      exact (enterScheduleWrite_sameOutput _ callers).io.trans h
    · next u hn =>
      obtain ⟨_, _, _, _, rfl⟩ := nextPacket_frame hn
      exact (returnFrom_sameOutput false _ callers).io.trans (finish_closed h)
  · cases ht

/-- Every undisturbed step keeps the messages and the invariant. -/
theorem step_good {c c' : Thread} {a : Action} (h : ThreadInv c) (hcond : Undisturbed c a)
    (ht : step c a = some c') : Good c a c' := by
  by_cases hio : c.sender.io.isSome
  · have hinv := h hio
    obtain ⟨s, control⟩ := c
    cases a with
    | workerSend msg =>
      have he : c' = { sender := s.sendFromWorker msg, control := control } := by
        cases control <;> exact (Option.some.inj ht).symm
      rw [he]
      exact good_workerSend h hcond
    | io answers =>
      cases control with
      | writing callers =>
        cases ht
        exact good_io hinv callers answers
      | _ => cases ht
    | locked =>
      cases control with
      | between callers finished =>
        cases ht
        obtain ⟨hfinished, hout⟩ := hinv
        have hcurrent : finished = s.currentMessage := hfinished
        subst hcurrent
        exact good_locked hcond hout
      | _ => cases ht
    | send msg =>
      cases control with
      | idle =>
        cases ht
        exact good_send hinv hcond
      | _ => cases ht
    | ping =>
      cases control with
      | idle =>
        obtain ⟨hidle, he⟩ := Option.ite_none_right_eq_some.mp ht
        cases he
        exact good_ping hinv hidle
      | _ => cases ht
    | close bye =>
      cases control with
      | idle =>
        cases ht
        exact good_close hinv bye
      | _ => cases ht
    | shutdown flush =>
      cases control with
      | idle =>
        cases ht
        exact good_of_closed rfl
      | _ => cases ht
    | callback =>
      cases control with
      | idle =>
        obtain ⟨_, he⟩ := Option.ite_none_right_eq_some.mp ht
        cases he
        refine good_enterScheduleWrite [] (SameOutput.settled ⟨_, _, _, _, _, _, rfl⟩ hinv) rfl ?_
        exact fun _ h _ => h
      | _ => cases ht
    | watch id out =>
      cases control with
      | idle =>
        obtain ⟨_, he⟩ := Option.ite_none_right_eq_some.mp ht
        cases he
        by_cases hout : out = true
        · rw [if_pos hout]
          exact ⟨fun _ => rfl, fun _ => hinv⟩
        · rw [if_neg hout]
          exact good_of_closed rfl
      | _ => cases ht
  · exact good_of_closed (step_closed (by simpa using hio) ht)

/-! ## The atomic steps are runs of this model -/

/-- The steps inside of `write`. -/
def Action.InWrite : Action → Prop
  | .io _ | .locked => True
  | _ => False

theorem run_writeFuel {fuel : Nat} {s : DBusLogSender} {r : Bool × DBusLogSender}
    (h : writeFuel fuel s = some r) (callers : List Caller) :
    ∃ actions, (∀ a ∈ actions, Action.InWrite a) ∧
      run ⟨s, .writing callers⟩ actions = some ⟨returnFrom r.1 r.2 callers, .idle⟩ := by
  induction fuel generalizing s r callers with
  | zero => cases h
  | succ fuel ih =>
    have hio : step ⟨s, .writing callers⟩ (.io s.answers) = some (io s callers) := rfl
    unfold io at hio
    unfold writeFuel at h
    split at h
    next t hp =>
      cases h
      rw [hp] at hio
      exact ⟨[.io s.answers], by simp [Action.InWrite], Runs.run_cons_iff.mpr ⟨_, hio, rfl⟩⟩
    next t hp =>
      cases h
      rw [hp] at hio
      exact ⟨[.io s.answers], by simp [Action.InWrite], Runs.run_cons_iff.mpr ⟨_, hio, rfl⟩⟩
    next t hp =>
      have hlocked : step ⟨t, .between callers t.currentMessage⟩ .locked =
          some (locked t callers) := rfl
      unfold locked at hlocked
      rw [hp] at hio
      split at h
      next u hn =>
        rw [hn] at hlocked
        simp only [enterScheduleWrite] at hlocked
        unfold scheduleWriteWith at h
        by_cases hc : u.io.isSome ∧ u.writeWatchId = 0
        · rw [if_pos hc] at h hlocked
          simp only [Option.map_map, Option.map_eq_some_iff] at h
          obtain ⟨⟨more, v⟩, hv, rfl⟩ := h
          obtain ⟨actions, hin, hrun⟩ := ih hv (.scheduleWrite :: callers)
          refine ⟨.io s.answers :: .locked :: actions, ?_, ?_⟩
          · simpa [Action.InWrite] using hin
          · refine Runs.run_cons_iff.mpr ⟨_, hio, Runs.run_cons_iff.mpr ⟨_, hlocked, ?_⟩⟩
            cases more <;> exact hrun
        · rw [if_neg hc] at h hlocked
          cases h
          exact ⟨[.io s.answers, .locked], by simp [Action.InWrite],
            Runs.run_cons_iff.mpr ⟨_, hio, Runs.run_cons_iff.mpr ⟨_, hlocked, rfl⟩⟩⟩
      next u hn =>
        cases h
        rw [hn] at hlocked
        exact ⟨[.io s.answers, .locked], by simp [Action.InWrite],
          Runs.run_cons_iff.mpr ⟨_, hio, Runs.run_cons_iff.mpr ⟨_, hlocked, rfl⟩⟩⟩

/-- Without a worker in between, the halves of `write` and of its nested calls are `write`. -/
theorem run_write (s : DBusLogSender) (callers : List Caller) :
    ∃ actions, (∀ a ∈ actions, Action.InWrite a) ∧
      run ⟨s, .writing callers⟩ actions = some ⟨returnFrom s.write.1 s.write.2 callers, .idle⟩ :=
  run_writeFuel (writeFuel_write s) callers

theorem run_scheduleWrite (s : DBusLogSender) :
    ∃ actions, (∀ a ∈ actions, Action.InWrite a) ∧
      run (enterScheduleWrite s []) actions = some ⟨s.scheduleWrite, .idle⟩ := by
  rw [scheduleWrite_eq]
  by_cases hc : s.io.isSome ∧ s.writeWatchId = 0
  · obtain ⟨actions, hin, hrun⟩ := run_write s [.scheduleWrite]
    refine ⟨actions, hin, ?_⟩
    rw [enterScheduleWrite, if_pos hc, hrun, if_pos hc]
    rfl
  · refine ⟨[], by simp, ?_⟩
    rw [enterScheduleWrite, if_neg hc, if_neg hc]
    rfl

/-- The call that an atomic step makes. -/
def Action.of : SenderStep → Action
  | .workerSend msg => .workerSend msg
  | .send msg _ => .send msg
  | .ping _ => .ping
  | .close bye _ => .close bye
  | .shutdown flush => .shutdown flush
  | .callback _ => .callback
  | .watch id out _ => .watch id out

/-- The sender with the answers of an atomic step. -/
def withAnswers (s : DBusLogSender) : SenderStep → DBusLogSender
  | .workerSend _ | .shutdown _ => s
  | .send _ answers | .ping answers | .close _ answers | .callback answers
  | .watch _ _ answers => { s with answers := answers }

/-- An atomic step is the same call here, followed by the halves of `write`. -/
theorem step_refines {s t : DBusLogSender} {a : SenderStep} (ht : s.step a = some t) :
    ∃ actions, (∀ b ∈ actions, Action.InWrite b) ∧
      run ⟨withAnswers s a, .idle⟩ (Action.of a :: actions) = some ⟨t, .idle⟩ := by
  have hnone : ∀ c t, step c (Action.of a) = some ⟨t, .idle⟩ →
      ∃ actions, (∀ b ∈ actions, Action.InWrite b) ∧
        run c (Action.of a :: actions) = some ⟨t, .idle⟩ := fun c t h =>
    ⟨[], by simp, Runs.run_cons_iff.mpr ⟨_, h, rfl⟩⟩
  have hschedule : ∀ c s, step c (Action.of a) = some (enterScheduleWrite s []) →
      ∃ actions, (∀ b ∈ actions, Action.InWrite b) ∧
        run c (Action.of a :: actions) = some ⟨s.scheduleWrite, .idle⟩ := by
    intro c s h
    obtain ⟨actions, hin, hrun⟩ := run_scheduleWrite s
    exact ⟨actions, hin, Runs.run_cons_iff.mpr ⟨_, h, hrun⟩⟩
  cases a with
  | workerSend msg =>
    cases ht
    exact hnone _ _ rfl
  | send msg answers =>
    cases ht
    unfold DBusLogSender.send
    cases hl : { s with answers := answers }.sendLocked msg with
    | mk more u =>
      have hstep : step ⟨{ s with answers := answers }, .idle⟩ (.send msg) =
          some (enterLocked ({ s with answers := answers }.sendLocked msg)) := rfl
      rw [hl] at hstep
      cases more with
      | true => exact hschedule _ _ hstep
      | false => exact hnone _ _ hstep
  | ping answers =>
    obtain ⟨hidle, he⟩ := Option.ite_none_right_eq_some.mp ht
    cases he
    have hstep : step ⟨{ s with answers := answers }, .idle⟩ .ping = some
        (if { s with answers := answers }.canPing then
          enterScheduleWrite ({ s with answers := answers }.fillHeader 0 .ping) []
        else ⟨{ s with answers := answers }, .idle⟩) := if_pos hidle
    rcases ping_cases { s with answers := answers } with ⟨hc, he⟩ | ⟨hc, he⟩
    · rw [he]
      rw [hc] at hstep
      exact hschedule _ _ hstep
    · rw [he]
      rw [hc] at hstep
      exact hnone _ _ hstep
  | close bye answers =>
    cases ht
    unfold DBusLogSender.close
    cases hl : { s with answers := answers }.closeLocked with
    | mk more u =>
      have hstep : step ⟨{ s with answers := answers }, .idle⟩ (.close bye) =
          some (enterLocked { s with answers := answers }.closeLocked) := rfl
      rw [hl] at hstep
      cases more with
      | true => exact hschedule _ _ hstep
      | false => exact hnone _ _ hstep
  | shutdown flush =>
    cases ht
    exact hnone _ _ rfl
  | callback answers =>
    obtain ⟨hpending, he⟩ := Option.ite_none_right_eq_some.mp ht
    cases he
    exact hschedule _ { s with answers := answers, pending := s.pending - 1 } (if_pos hpending)
  | watch id out answers =>
    obtain ⟨hid, he⟩ := Option.ite_none_right_eq_some.mp ht
    cases he
    unfold DBusLogSender.writeCallback
    by_cases hout : out = true
    · obtain ⟨actions, hin, hrun⟩ := run_write { s with answers := answers } [.watch id]
      have hstep : step ⟨{ s with answers := answers }, .idle⟩ (.watch id out) =
          some ⟨{ s with answers := answers }, .writing [.watch id]⟩ := by
        rw [hout]
        exact if_pos hid
      refine ⟨actions, hin, Runs.run_cons_iff.mpr ⟨_, hstep, hrun.trans ?_⟩⟩
      rw [if_pos hout]
      cases { s with answers := answers }.write with
      | mk more u => cases more <;> rfl
    · rw [if_neg hout]
      refine hnone _ _ ?_
      have hfalse : out = false := by simpa using hout
      rw [hfalse]
      exact if_pos hid

/-! ## Runs -/

/-- In every undisturbed run of a fresh sender every step keeps the messages: what send has
stored is released only when its bytes are out, or dropped by a later send to a full ring, or
left to a shutdown. -/
theorem messagesKept (name : String) (backlog : Int32) (readfd writefd : Nat)
    {actions : List Action} {a : Action} {c c' : Thread}
    (hcond : Runs.Meets step Undisturbed (new name backlog readfd writefd) (actions ++ [a]))
    (hrun : run (new name backlog readfd writefd) actions = some c) (hstep : step c a = some c') :
    Keeps c c' a := by
  have hinv : ThreadInv c := by
    refine Runs.invariant_of_meets (fun c a c' h hc hs => (step_good h hc hs).2)
      (Runs.meets_prefix hcond) hrun fun _ => ?_
    exact Or.inl ⟨rfl, rfl, rfl⟩
  exact (step_good hinv (Runs.meets_append hcond hrun).1 hstep).1

/-- A worker's message that waits for the packet in flight. -/
theorem messagesKept_run : ∃ c c',
    run (new "peer" 0 3 4) [.send (.new (some [104])), .workerSend (.new (some [105])),
      .io [.accept 22, .accept 1]] = some c ∧ step c .locked = some c' ∧ Keeps c c' .locked := by
  obtain ⟨c, hc, hlocked⟩ := Option.map_eq_some_iff.mp (by decide : (run (new "peer" 0 3 4)
    [.send (.new (some [104])), .workerSend (.new (some [105])),
      .io [.accept 22, .accept 1]]).map (fun c => (step c .locked).isSome) = some true)
  obtain ⟨c', hc'⟩ := Option.isSome_iff_exists.mp hlocked
  exact ⟨c, c', hc, hc', messagesKept "peer" 0 3 4 (by decide) hc hc'⟩

/-- A worker's message that is sent between the halves of `write` becomes the current one, and
the locked half releases it: it is gone, and none of its bytes has been written. -/
theorem workerSend_lostBetweenHalves : ∃ c c',
    run (new "peer" 0 3 4) [.send (.new (some [104])), .io [.accept 22, .accept 1],
      .workerSend (.new (some [105]))] = some c ∧
    held c.sender = [.new (some [105])] ∧ step c .locked = some c' ∧
    c'.sender.io.isSome = true ∧ held c'.sender = [] ∧
    c'.sender.accepted = (WirePacket.message (.new (some [104]))).encode ∧
    ¬Keeps c c' .locked := by
  obtain ⟨c, hc, he⟩ := Option.map_eq_some_iff.mp (by decide : (run (new "peer" 0 3 4)
    [.send (.new (some [104])), .io [.accept 22, .accept 1],
      .workerSend (.new (some [105]))]).map (fun c => (held c.sender, c.control)) =
      some ([.new (some [105])], .between [.scheduleWrite] (some (.new (some [104])))))
  obtain ⟨c', hc', he'⟩ := Option.map_eq_some_iff.mp (by decide : (run (new "peer" 0 3 4)
    ([.send (.new (some [104])), .io [.accept 22, .accept 1],
      .workerSend (.new (some [105]))] ++ [.locked])).map (fun c' =>
        (c'.sender.io.isSome, held c'.sender, c'.sender.accepted)) =
      some (true, [], (WirePacket.message (.new (some [104]))).encode))
  obtain ⟨_, hc2, hstep⟩ := Runs.run_concat_iff.mp hc'
  cases hc.symm.trans hc2
  simp only [Prod.mk.injEq] at he he'
  obtain ⟨hheld, hcontrol⟩ := he
  obtain ⟨hio, hheld', hacc⟩ := he'
  refine ⟨c, c', hc, hheld, hstep, hio, hheld', hacc, ?_⟩
  intro hkeeps
  -- the finished message is not the one that is released
  obtain ⟨callers, hfinished, hrel, _⟩ := hkeeps hio
  rw [hheld, hheld', List.append_nil] at hrel
  rw [hcontrol] at hfinished
  cases hcur : c.sender.currentMessage with
  | none =>
    rw [hcur] at hrel
    cases hrel
  | some m =>
    rw [hcur] at hrel hfinished
    cases hrel
    cases hfinished

end Thread

end DBusLog

import DBusLog.Sender.Progress
import DBusLog.Sender.Stream

/-!
# Pings at any time

`callStep` is `step` with a ping that may come at any time, also with a packet in flight. A run of
such calls on the main thread keeps its sender in one of two states as long as it is not done:
`Resting`, with nothing to send and no watch, or `Working`, with a watch that will go on with the
packet of the current message or with a PING.
-/

namespace DBusLog

namespace DBusLogSender

/-- A step, and `dbus_log_sender_ping` in every state. -/
def callStep (s : DBusLogSender) : SenderStep → Option DBusLogSender
  | .ping answers => some ({ s with answers := answers }.ping).2
  | a => s.step a

/-- A run of calls. -/
abbrev calls (s : DBusLogSender) (steps : List SenderStep) : Option DBusLogSender :=
  Runs.run callStep s steps

/-- Only a ping with a packet in flight is not a step. -/
theorem callStep_cases {s t : DBusLogSender} {a : SenderStep} (h : s.callStep a = some t) :
    s.step a = some t ∨
      ¬s.Idle ∧ ∃ answers, a = .ping answers ∧ t = { s with answers := answers }.ping.2 := by
  cases a with
  | ping answers =>
    cases h
    by_cases hidle : s.Idle
    · exact .inl (if_pos hidle)
    · exact .inr ⟨hidle, answers, rfl, rfl⟩
  | _ => exact .inl h

/-- The type in the header of the packet. -/
def packetType (s : DBusLogSender) : UInt8 := s.packet.get packetTypeOffset

theorem fillHeader_packetType (s : DBusLogSender) (payload : Nat) (type : PacketType) :
    (s.fillHeader payload type).packetType = type.toByte := by
  have hheader := fillHeader_packet s payload type
  exact PacketArray.get_of_prefix hheader (by simp [packetTypeOffset])

theorem prepareCurrentMessage_packetType {s : DBusLogSender} {m : DBusLogMessage}
    (hm : s.currentMessage = some m) :
    s.prepareCurrentMessage.packetType = PacketType.message.toByte := by
  have hbytes := prepareCurrentMessage_packet hm
  have hheader : WirePacket.header (messagePrefixSize + m.length) .message <+:
      s.prepareCurrentMessage.packet.bytes := by
    rw [hbytes]
    exact List.prefix_append _ _
  exact PacketArray.get_of_prefix hheader (by simp [packetTypeOffset])

/-! ## The two states of an open sender -/

/-- What a sender that is not done can be busy with. -/
inductive Carries (s : DBusLogSender) : Prop
  | message (current : s.currentMessage.isSome)
      (type : s.packetType = PacketType.message.toByte)
  | ping (current : s.currentMessage = none) (unfinished : s.packetWritten < s.packetSize)
      (type : s.packetType = PacketType.ping.toByte)

/-- Nothing to send and no watch. -/
structure Resting (s : DBusLogSender) : Prop where
  forgotten : s.writeWatchId = 0
  idle : s.Idle
  message : s.currentMessage = none
  buffer : s.buffer.items = []

/-- A watch will go on with the packet. -/
structure Working (s : DBusLogSender) : Prop where
  recorded : s.writeWatchId ≠ 0
  carries : Carries s

/-- A sender that can take messages. -/
structure Ready (s : DBusLogSender) : Prop where
  io : s.io.isSome
  bye : s.bye = false
  fixed : s.packetFixedPart ≤ s.packetSize
  state : Resting s ∨ Working s

/-- The invariant of a run of calls. -/
structure Orderly (s : DBusLogSender) : Prop extends WatchInv s where
  ready : s.done = false → Ready s

theorem Orderly.new (name : String) (backlog : Int32) (readfd writefd : Nat) :
    Orderly (new name backlog readfd writefd) where
  toWatchInv := WatchInv.new name backlog readfd writefd
  ready _ := ⟨rfl, rfl, le_rfl, .inl ⟨rfl, rfl, rfl, rfl⟩⟩

section Ready

variable {s t : DBusLogSender}

theorem Ready.resting (h : Ready s) (h0 : s.writeWatchId = 0) : Resting s :=
  h.state.resolve_right fun hwork => hwork.recorded h0

theorem Ready.working (h : Ready s) (hw : s.writeWatchId ≠ 0) : Working s :=
  h.state.resolve_left fun hrest => hw hrest.forgotten

theorem Ready.working_of_busy (h : Ready s) (hbusy : ¬s.Idle) : Working s :=
  h.state.resolve_left fun hrest => hbusy hrest.idle

/-- The packet stays, and is still not written to its end if it was not before. -/
theorem Carries.of_frame (h : Carries s) (hm : t.currentMessage = s.currentMessage)
    (hp : t.packet = s.packet)
    (hlt : s.packetWritten < s.packetSize → t.packetWritten < t.packetSize) : Carries t := by
  have htype' : t.packetType = s.packetType := by rw [packetType, packetType, hp]
  cases h with
  | message hcurrent htype =>
    refine .message ?_ (htype'.trans htype)
    rw [hm]
    exact hcurrent
  | ping hcurrent hbusy htype => exact .ping (hm.trans hcurrent) (hlt hbusy) (htype'.trans htype)

theorem Ready.queueMessage (h : Ready s) (hbusy : ¬s.Idle) (msg : DBusLogMessage) :
    Ready (s.queueMessage msg) := by
  have hwork := h.working_of_busy hbusy
  exact ⟨h.io, h.bye, h.fixed, .inr ⟨hwork.recorded, hwork.carries.of_frame rfl rfl id⟩⟩

/-- A packet has just been prepared; behind it there is nothing unless a watch is at work. -/
structure Prepared (s : DBusLogSender) : Prop where
  io : s.io.isSome
  bye : s.bye = false
  fixed : s.packetFixedPart ≤ s.packetSize
  carries : Carries s
  drained : s.writeWatchId = 0 → s.buffer.items = []

/-- The last packet is out. -/
theorem ready_finish {u : DBusLogSender} (hn : t.nextPacket = (false, u)) (hio : t.io.isSome)
    (hbye : t.bye = false) (hopen : u.finish.done = false) : Ready u.finish := by
  rcases nextPacket_cases t with ⟨_, _, _, he⟩ | ⟨_, _, he⟩ | ⟨hb, _, he⟩
  · cases he.symm.trans hn
  · cases he.symm.trans hn
  · cases he.symm.trans hn
    unfold finish at hopen ⊢
    by_cases hdone : t.done = true
    · simp only [if_pos hdone] at hopen
      cases hopen
    · simp only [if_neg hdone]
      exact ⟨hio, hbye, le_rfl, .inl ⟨rfl, rfl, rfl, by simp [hb]⟩⟩

/-- The next message follows. -/
theorem ready_next {u : DBusLogSender} (hn : t.nextPacket = (true, u)) (hio : t.io.isSome)
    (hbye : t.bye = false) (hw : t.writeWatchId ≠ 0) : Ready u ∧ u.writeWatchId ≠ 0 := by
  rcases nextPacket_cases t with ⟨m, rest, _, he⟩ | ⟨_, htrue, _⟩ | ⟨_, _, he⟩
  · cases he.symm.trans hn
    have htype := prepareCurrentMessage_packetType
      (s := { t with currentMessage := some m, buffer := t.buffer.get.2 }) rfl
    obtain ⟨packet, hu⟩ := prepareCurrentMessage_frame
      (s := { t with currentMessage := some m, buffer := t.buffer.get.2 }) rfl
    rw [hu] at htype ⊢
    exact ⟨⟨hio, hbye, Nat.min_le_right _ _, .inr ⟨hw, .message rfl htype⟩⟩, hw⟩
  · cases htrue.symm.trans hbye
  · cases he.symm.trans hn

/-- The surroundings of the sender do not matter. -/
theorem Ready.of_world (h : Ready s) (world : SenderWorld) :
    Ready { s with toSenderWorld := world } := by
  refine ⟨h.io, h.bye, h.fixed, ?_⟩
  obtain hrest | hwork := h.state
  · exact .inl ⟨hrest.forgotten, hrest.idle, hrest.message, hrest.buffer⟩
  · exact .inr ⟨hwork.recorded, hwork.carries.of_frame rfl rfl id⟩

theorem Ready.removeSource (h : Ready s) (id : Nat) : Ready (s.removeSource id) := h.of_world _

theorem Ready.answers (h : Ready s) (answers : List WriteAnswer) :
    Ready { s with answers := answers } := h.of_world _

theorem Prepared.scheduleWrite (h : Prepared s) (hopen : s.scheduleWrite.done = false) :
    Ready s.scheduleWrite := by
  by_cases hw : s.writeWatchId = 0
  · have hc : s.io.isSome ∧ s.writeWatchId = 0 := ⟨h.io, hw⟩
    cases hp : s.writePacket with
    | mk r t =>
      obtain ⟨_, _, _, ht⟩ := writePacket_frame hp
      have htio : t.io.isSome := by rw [ht]; exact h.io
      have htbye : t.bye = false := by rw [ht]; exact h.bye
      cases r with
      | wait =>
        have hlt := writePacket_wait h.fixed hp
        have htfixed : t.packetFixedPart ≤ t.packetSize := by rw [ht]; exact h.fixed
        have hcarries : Carries t := h.carries.of_frame (by rw [ht]) (by rw [ht]) fun _ => hlt
        rw [scheduleWrite_wait hc hp, addWatch_of_open htio]
        exact ⟨htio, htbye, htfixed, .inr ⟨Nat.succ_ne_zero _, hcarries.of_frame rfl rfl id⟩⟩
      | failed =>
        rw [scheduleWrite_failed hc hp] at hopen
        cases hopen
      | sent =>
        rcases nextPacket_cases t with ⟨m, rest, hb, _⟩ | ⟨_, hbye, _⟩ | ⟨_, _, he⟩
        · -- the ring was empty before the write, too
          rw [ht] at hb
          cases hb.symm.trans (h.drained hw)
        · cases hbye.symm.trans htbye
        · rw [scheduleWrite_stop hc hp he] at hopen ⊢
          exact ready_finish he htio htbye hopen
  · rw [scheduleWrite_of_watch hw]
    exact ⟨h.io, h.bye, h.fixed, .inr ⟨hw, h.carries⟩⟩

/-! ## What a call preserves -/

theorem Ready.send (h : Ready s) (hdone : s.done = false) (msg : DBusLogMessage)
    (hopen : (s.send msg).done = false) : Ready (s.send msg) := by
  unfold DBusLogSender.send at hopen ⊢
  rcases sendLocked_cases s msg with ⟨htrue, _⟩ | ⟨_, hidle, he⟩ | ⟨_, hbusy, he⟩
  · cases hdone.symm.trans htrue
  · rw [he] at hopen ⊢
    refine Prepared.scheduleWrite ?_ hopen
    have htype := prepareCurrentMessage_packetType (s := { s with currentMessage := some msg }) rfl
    obtain ⟨packet, hp⟩ := prepareCurrentMessage_frame
      (s := { s with currentMessage := some msg }) rfl
    rw [hp] at htype ⊢
    exact ⟨h.io, h.bye, Nat.min_le_right _ _, .message rfl htype, fun h0 => (h.resting h0).buffer⟩
  · rw [he]
    exact h.queueMessage hbusy msg

theorem Ready.ping (h : Ready s) (hopen : s.ping.2.done = false) : Ready s.ping.2 := by
  rcases ping_cases s with ⟨hc, he⟩ | ⟨_, he⟩
  · rw [he] at hopen ⊢
    obtain ⟨_, hm, hb⟩ := s.canPing_iff.mp hc
    refine Prepared.scheduleWrite ⟨h.io, h.bye, Nat.min_le_right _ _, ?_, fun _ => hb⟩ hopen
    exact .ping hm (Nat.zero_lt_succ 4) (fillHeader_packetType s 0 .ping)
  · rw [he]
    exact h

/-- The watch goes on with the packet, takes the next message or ends. -/
theorem Ready.writeCallback (h : Ready s) (hw : s.writeWatchId ≠ 0) (id : Nat) (out : Bool)
    (hopen : (s.writeCallback id out).done = false) : Ready (s.writeCallback id out) := by
  unfold DBusLogSender.writeCallback at hopen ⊢
  cases out with
  | false => cases hopen
  | true =>
    rw [if_pos rfl] at hopen ⊢
    cases hp : s.writePacket with
    | mk r t =>
      obtain ⟨_, _, _, ht⟩ := writePacket_frame hp
      have htio : t.io.isSome := by rw [ht]; exact h.io
      have htbye : t.bye = false := by rw [ht]; exact h.bye
      have htw : t.writeWatchId ≠ 0 := by rw [ht]; exact hw
      cases r with
      | wait =>
        have hlt := writePacket_wait h.fixed hp
        have htfixed : t.packetFixedPart ≤ t.packetSize := by rw [ht]; exact h.fixed
        have hcarries : Carries t :=
          (h.working hw).carries.of_frame (by rw [ht]) (by rw [ht]) fun _ => hlt
        rw [write_wait hp]
        exact ⟨htio, htbye, htfixed, .inr ⟨htw, hcarries⟩⟩
      | failed =>
        rw [write_failed hp] at hopen
        cases hopen
      | sent =>
        cases hn : t.nextPacket with
        | mk more u =>
          cases more with
          | true =>
            obtain ⟨hready, hrec⟩ := ready_next hn htio htbye htw
            -- the nested call finds the recorded watch
            rw [write_next hp hn, scheduleWrite_of_watch hrec]
            exact hready
          | false =>
            rw [write_stop hp hn] at hopen ⊢
            exact (ready_finish hn htio htbye hopen).removeSource id

end Ready

/-! ## Steps and runs -/

section Steps

variable {s t : DBusLogSender} {a : SenderStep}

/-- A ping with a packet in flight finds the watch of that packet. -/
theorem WatchInv.busyPing (h : WatchInv s) (hw : s.writeWatchId ≠ 0) : WatchInv s.ping.2 := by
  rcases ping_cases s with ⟨_, he⟩ | ⟨_, he⟩
  · rw [he]
    exact h.scheduleWrite_of_frame rfl rfl rfl rfl fun _ h0 => absurd h0 hw
  · rw [he]
    exact h

theorem callStep_done (h : s.done = true) (ht : s.callStep a = some t) : t.done = true := by
  obtain hstep | ⟨_, answers, _, rfl⟩ := callStep_cases ht
  · exact step_done h hstep
  · exact (ping_later { s with answers := answers }).done h

theorem Orderly.watchInv (h : Orderly s) (hmain : a.OnMainThread) (ht : s.callStep a = some t) :
    WatchInv t := by
  obtain hstep | ⟨hbusy, answers, _, rfl⟩ := callStep_cases ht
  · exact h.toWatchInv.step (CallbackSafe.of_onMainThread hmain s) hstep
  · have hanswers := h.toWatchInv.answers answers
    rcases ping_cases { s with answers := answers } with ⟨hc, _⟩ | ⟨_, he⟩
    · have hready := h.ready (canPing_iff _ |>.mp hc).1
      exact hanswers.busyPing (hready.working_of_busy hbusy).recorded
    · rw [he]
      exact hanswers

/-- Step lemma. -/
theorem Orderly.callStep (h : Orderly s) (hmain : a.OnMainThread)
    (ht : s.callStep a = some t) : Orderly t := by
  refine ⟨h.watchInv hmain ht, fun hopen' => ?_⟩
  -- a sender that is open after the call was open before it
  have hopen : s.done = false := by
    by_contra hnot
    cases hopen'.symm.trans (callStep_done (by simpa using hnot) ht)
  have hready := h.ready hopen
  cases a with
  | workerSend msg => cases hmain
  | callback answers => cases hmain
  | send msg answers =>
    cases ht
    exact (hready.answers answers).send hopen msg hopen'
  | ping answers =>
    cases ht
    exact (hready.answers answers).ping hopen'
  | close bye answers =>
    cases ht
    cases hopen'.symm.trans (done_of_close _ bye)
  | shutdown flush =>
    cases ht
    cases hopen'
  | watch id out answers =>
    obtain ⟨hid, he⟩ := Option.ite_none_right_eq_some.mp ht
    cases he
    exact (hready.answers answers).writeCallback (h.live hid).2 id out hopen'

/-- The bound of the ring stays. -/
theorem callStep_maxSize {m : Option Nat} (h : s.buffer.maxSize = m)
    (ht : s.callStep a = some t) : t.buffer.maxSize = m := by
  obtain hstep | ⟨_, answers, _, rfl⟩ := callStep_cases ht
  · exact step_maxSize h hstep
  · exact ping_ring (s := { s with answers := answers }) (P := fun b => b.maxSize = m)
      (fun _ h => h) h

end Steps

/-- Run lemma. -/
theorem calls_orderly {name : String} {backlog : Int32} {readfd writefd : Nat}
    {steps : List SenderStep} {s : DBusLogSender} (hmain : ∀ a ∈ steps, a.OnMainThread)
    (hrun : calls (new name backlog readfd writefd) steps = some s) :
    Orderly s ∧ s.buffer.maxSize = ringMaxSize (normalizeBacklog backlog) := by
  refine Runs.invariant_of_forall (C := SenderStep.OnMainThread)
    (P := fun s => Orderly s ∧ s.buffer.maxSize = ringMaxSize (normalizeBacklog backlog))
    ?_ hmain hrun ⟨Orderly.new name backlog readfd writefd, rfl⟩
  rintro s a t ⟨h, hsize⟩ ha ht
  exact ⟨h.callStep ha ht, callStep_maxSize hsize ht⟩

end DBusLogSender

end DBusLog

import DBusLog.Sender.Ledger
import DBusLog.Sender.Packet
import DBusLog.Sender.Watches

/-!
# The byte stream of a sender

`StreamInv` ties the ledger of a run to the state: the accepted bytes are those of the packets
that are out and a part of the packet in flight, and the ring and the `bye` flag hold the rest of
the kept packets. A message has to fit only when a packet is prepared for it: what an overflow takes
from the ring never matters.
-/

namespace DBusLog

namespace DBusLogSender

/-! ## The invariant -/

/-- The packets `out` have been taken from the queue, and the sender holds the rest. -/
structure Queue (s : DBusLogSender) (l : Ledger) (out : List WirePacket) : Prop where
  packets : l.packets =
    out ++ (s.buffer.items.map .message ++ if s.bye then [WirePacket.bye] else [])
  fits : ∀ m ∈ WirePacket.messages out, m.Fits
  closed : s.done = l.closed
  bye : s.bye = true → s.done = true

/-- The messages fit for which a step on the main thread prepares a packet: the one that is sent to
an idle sender, and the head of the ring when a callback gets the packet in flight out. -/
def PreparesFit (s : DBusLogSender) : SenderStep → Prop
  | .workerSend msg | .send msg _ => s.done = false → s.Idle → msg.Fits
  | .watch _ out answers => out = true → { s with answers := answers }.writePacket.1 = .sent →
    ∀ m ∈ s.buffer.items.head?, m.Fits
  | .ping _ | .close _ _ | .shutdown _ | .callback _ => True

instance (s : DBusLogSender) : DecidablePred s.PreparesFit
  | .workerSend _ | .send _ _ => inferInstanceAs (Decidable (_ = _ → _ → _))
  | .watch _ _ _ => inferInstanceAs (Decidable (_ = _ → _ = _ → ∀ m ∈ _, _))
  | .ping _ | .close _ _ | .shutdown _ | .callback _ => isTrue trivial

theorem preparesFit_of {s : DBusLogSender} {a : SenderStep} (h : ∀ m ∈ s.buffer.items, m.Fits)
    (hfits : ∀ m ∈ a.message?, m.Fits) : s.PreparesFit a := by
  cases a with
  | workerSend msg => exact fun _ _ => hfits msg rfl
  | send msg _ => exact fun _ _ => hfits msg rfl
  | watch _ _ _ => exact fun _ _ m hm => h m (List.mem_of_mem_head? hm)
  | _ => trivial

/-- Everything is out. -/
structure Quiet (s : DBusLogSender) (l : Ledger) : Prop where
  accepted : s.accepted = WirePacket.encodeAll l.packets
  idle : s.Idle
  message : s.currentMessage = none
  buffer : s.buffer.items = []
  bye : s.bye = false
  done : s.done = false
  closed : l.closed = false
  fits : ∀ m ∈ WirePacket.messages l.packets, m.Fits

/-- The packet `p` is partly out, behind the packets `out`. -/
structure Busy (s : DBusLogSender) (l : Ledger) (out : List WirePacket) (p : WirePacket) : Prop
    extends Queue s l (out ++ [p]), Sending (WirePacket.encodeAll out) p s where
  unfinished : s.packetWritten < s.packetSize

/-- The channel has been closed. In a clean run that was after BYE. -/
structure Closed (clean : Prop) (s : DBusLogSender) (l : Ledger) : Prop where
  io : s.io = none
  done : s.done = true
  accepted : s.accepted <+: WirePacket.encodeAll l.packets
  signals : s.closedSignals = 1
  finished : clean → l.closed = true ∧ s.accepted = WirePacket.encodeAll l.packets
  fits : clean → ∀ m ∈ WirePacket.messages l.packets, m.Fits

/-- The state of the sender and the ledger agree. -/
inductive StreamInv (clean : Prop) (s : DBusLogSender) (l : Ledger) : Prop
  | quiet (hio : s.io.isSome) (hsig : s.closedSignals = 0) (h : Quiet s l)
  | busy (hio : s.io.isSome) (hsig : s.closedSignals = 0) (out : List WirePacket) (p : WirePacket)
      (h : Busy s l out p)
  | closed (h : Closed clean s l)

/-- Between two packets: all that has been taken from the queue is out. -/
structure Between (s : DBusLogSender) (l : Ledger) (out : List WirePacket) : Prop
    extends Queue s l out where
  accepted : s.accepted = WirePacket.encodeAll out

theorem Quiet.queue {s : DBusLogSender} {l : Ledger} (h : Quiet s l) : Between s l l.packets where
  packets := by simp [h.buffer, h.bye]
  fits := h.fits
  closed := h.done.trans h.closed.symm
  bye hbye := by cases h.bye.symm.trans hbye
  accepted := h.accepted

/-- The ways in which an open sender can be found. -/
def Open (s : DBusLogSender) (l : Ledger) : Prop :=
  s.io.isSome ∧ s.closedSignals = 0 ∧ (Quiet s l ∨ ∃ out p, Busy s l out p)

theorem Open.inv {clean : Prop} {s : DBusLogSender} {l : Ledger} (h : Open s l) :
    StreamInv clean s l := by
  obtain ⟨hio, hsig, hquiet | ⟨out, p, hbusy⟩⟩ := h
  · exact .quiet hio hsig hquiet
  · exact .busy hio hsig out p hbusy

theorem StreamInv.opened {clean : Prop} {s : DBusLogSender} {l : Ledger} (h : StreamInv clean s l)
    (hio : s.io.isSome) : Open s l := by
  cases h with
  | quiet _ hsig h => exact ⟨hio, hsig, .inl h⟩
  | busy _ hsig out p h => exact ⟨hio, hsig, .inr ⟨out, p, h⟩⟩
  | closed h =>
    rw [h.io] at hio
    cases hio

/-- In a clean run the ledger knows whether the sender has been closed. -/
theorem StreamInv.done {s : DBusLogSender} {l : Ledger} (h : StreamInv True s l) :
    s.done = l.closed := by
  cases h with
  | quiet _ _ h => exact h.done.trans h.closed.symm
  | busy _ _ out p h => exact h.closed
  | closed h => exact h.done.trans (h.finished trivial).1.symm

/-- A sender that has been closed and has nothing in flight has sent all that it has kept, and then
BYE. -/
theorem StreamInv.drained {s : DBusLogSender} {l : Ledger} (h : StreamInv True s l)
    (hdone : s.done = true) (hidle : s.Idle) :
    s.accepted = WirePacket.encodeAll (l.kept ++ [.bye]) ∧
      ∀ m ∈ WirePacket.messages l.kept, m.Fits := by
  cases h with
  | quiet _ _ h => cases h.done.symm.trans hdone
  | busy _ _ out p h => exact absurd hidle (Nat.ne_of_gt h.unfinished)
  | closed h =>
    obtain ⟨hl, haccepted⟩ := h.finished trivial
    have hfits := h.fits trivial
    rw [Ledger.packets, if_pos hl] at haccepted hfits
    refine ⟨haccepted, fun m hm => hfits m ?_⟩
    rw [WirePacket.messages_append]
    exact List.mem_append_left _ hm

/-! ## The I/O part of `write` -/

section Write

variable {s t u : DBusLogSender} {l : Ledger} {clean : Prop}

theorem Quiet.writePacket (h : Quiet s l) : s.writePacket = (.sent, s) :=
  if_neg (by rw [show s.packetWritten = s.packetSize from h.idle.symm]; exact lt_irrefl _)

/-- The queue does not depend on what the I/O part changes. -/
theorem Queue.of_frame {out : List WirePacket} (h : Queue s l out) (hb : t.buffer = s.buffer)
    (hbye : t.bye = s.bye) (hdone : t.done = s.done) : Queue t l out where
  packets := by rw [hb, hbye]; exact h.packets
  fits := h.fits
  closed := hdone.trans h.closed
  bye := by rw [hbye, hdone]; exact h.bye

theorem Open.writePacket_wait (h : Open s l) (hp : s.writePacket = (.wait, t)) : Open t l := by
  obtain ⟨hio, hsig, hquiet | ⟨out, p, hbusy⟩⟩ := h
  · cases hquiet.writePacket.symm.trans hp
  · have hmoved := writePacket_moved hbusy.toSending hp
    obtain ⟨answers, accepted, written, rfl⟩ := writePacket_frame hp
    refine ⟨hio, hsig, .inr ⟨out, p, hbusy.toQueue.of_frame rfl rfl rfl, ?_, hmoved.wait rfl⟩⟩
    exact ⟨⟨hbusy.size, hbusy.fixed, hbusy.bytes⟩, hmoved.written, hmoved.accepted⟩

theorem Open.writePacket_failed (h : Open s l) (hp : s.writePacket = (.failed, t))
    (hclean : clean → .error ∉ s.answers) : Closed clean t.fail l := by
  obtain ⟨hio, hsig, hquiet | ⟨out, p, hbusy⟩⟩ := h
  · cases hquiet.writePacket.symm.trans hp
  · have hmoved := writePacket_moved hbusy.toSending hp
    have hprefix : t.accepted <+: WirePacket.encodeAll l.packets := by
      rw [hmoved.accepted, hbusy.packets]
      simp only [WirePacket.encodeAll_append, WirePacket.encodeAll_cons,
        WirePacket.encodeAll_nil, List.append_nil, List.append_assoc]
      refine (List.prefix_append_right_inj _).mpr ?_
      exact (List.take_prefix _ _).trans (List.prefix_append _ _)
    obtain ⟨answers, accepted, written, ht⟩ := writePacket_frame hp
    have hsig' : t.fail.closedSignals = 1 := by
      rw [ht]
      exact shutdown_closedSignals hio hsig false
    have herror : ¬clean := fun hc => hclean hc (hmoved.failed rfl)
    exact ⟨rfl, rfl, hprefix, hsig', fun hc => absurd hc herror, fun hc => absurd hc herror⟩

theorem Open.writePacket_sent (h : Open s l) (hp : s.writePacket = (.sent, t)) :
    ∃ out, Between t l out ∧ t.io.isSome ∧ t.closedSignals = 0 ∧ t.answers ⊆ s.answers := by
  obtain ⟨hio, hsig, hquiet | ⟨out, p, hbusy⟩⟩ := h
  · cases hquiet.writePacket.symm.trans hp
    exact ⟨l.packets, hquiet.queue, hio, hsig, List.Subset.refl _⟩
  · have hmoved := writePacket_moved hbusy.toSending hp
    have hacc : t.accepted = WirePacket.encodeAll (out ++ [p]) := by
      rw [hmoved.accepted, hmoved.sent rfl, hbusy.size, List.take_length]
      simp only [WirePacket.encodeAll_append, WirePacket.encodeAll_cons,
        WirePacket.encodeAll_nil, List.append_nil]
    obtain ⟨answers, accepted, written, rfl⟩ := writePacket_frame hp
    exact ⟨out ++ [p], ⟨hbusy.toQueue.of_frame rfl rfl rfl, hacc⟩, hio, hsig, hmoved.answers⟩

/-! ## The locked section of `write` -/

theorem Between.stop {out : List WirePacket} (h : Between t l out) (hio : t.io.isSome)
    (hsig : t.closedSignals = 0) (hn : t.nextPacket = (false, u)) :
    StreamInv clean u.finish l := by
  rcases nextPacket_cases t with ⟨_, _, _, he⟩ | ⟨_, _, he⟩ | ⟨hb, hbye, he⟩
  · cases he.symm.trans hn
  · cases he.symm.trans hn
  · cases he.symm.trans hn
    have hpackets : l.packets = out := by
      rw [h.packets, hb, hbye]
      simp
    have hacc : t.accepted = WirePacket.encodeAll l.packets := by rw [hpackets, h.accepted]
    have hfits : ∀ m ∈ WirePacket.messages l.packets, m.Fits := hpackets ▸ h.fits
    unfold finish
    by_cases hdone : t.done = true
    · simp only [if_pos hdone]
      refine .closed ⟨rfl, rfl, ?_, ?_, fun _ => ⟨h.closed.symm.trans hdone, hacc⟩, fun _ => hfits⟩
      · exact hacc ▸ List.prefix_refl _
      · exact shutdown_closedSignals (s := { t with
          writeWatchId := 0, buffer := t.buffer.get.2, packetSize := 0, packetFixedPart := 0,
          packetWritten := 0, currentMessage := none }) hio hsig true
    · simp only [if_neg hdone]
      have hopen : t.done = false := by simpa using hdone
      refine .quiet hio hsig
        ⟨hacc, rfl, rfl, ?_, hbye, hopen, h.closed.symm.trans hopen, hfits⟩
      simp [hb]

/-- One more packet is taken. -/
theorem fits_concat {out : List WirePacket} {p : WirePacket}
    (h : ∀ m ∈ WirePacket.messages out, m.Fits) (hp : ∀ m ∈ p.message?, m.Fits) :
    ∀ m ∈ WirePacket.messages (out ++ [p]), m.Fits := by
  intro m hm
  rw [WirePacket.messages_concat] at hm
  exact (List.mem_append.mp hm).elim (h m) fun hm => hp m (Option.mem_toList.mp hm)

/-- A packet that has just been prepared for the head of the queue. -/
theorem Between.busy {out : List WirePacket} {p : WirePacket} (hq : Queue u l (out ++ [p]))
    (hf : InFlight u p) (hw : u.packetWritten = 0)
    (hacc : u.accepted = WirePacket.encodeAll out) : Busy u l out p where
  toQueue := hq
  toInFlight := hf
  written := by omega
  accepted := by rw [hw, hacc, List.take_zero, List.append_nil]
  unfinished := by rw [hw]; exact hf.size_pos

theorem Between.next {out : List WirePacket} (h : Between t l out) (hio : t.io.isSome)
    (hsig : t.closedSignals = 0) (hfits : ∀ m ∈ t.buffer.items.head?, m.Fits)
    (hn : t.nextPacket = (true, u)) : Open u l := by
  obtain ⟨bye, packet, size, message, hframe⟩ := nextPacket_frame hn
  have huio : u.io.isSome := by rw [hframe]; exact hio
  have husig : u.closedSignals = 0 := by rw [hframe]; exact hsig
  have hwritten : u.packetWritten = 0 := by rw [hframe]
  have hacc : u.accepted = WirePacket.encodeAll out := by rw [hframe]; exact h.accepted
  refine ⟨huio, husig, .inr ?_⟩
  rcases nextPacket_cases t with ⟨m, rest, hb, he⟩ | ⟨hb, hbye, he⟩ | ⟨_, _, he⟩
  · cases he.symm.trans hn
    have hm : m.Fits := hfits m (by rw [hb]; rfl)
    obtain ⟨packet, hu⟩ := prepareCurrentMessage_frame
      (s := { t with currentMessage := some m, buffer := t.buffer.get.2 }) rfl
    refine ⟨out, .message m, Between.busy ⟨?_, ?_, ?_, ?_⟩ (inFlight_message rfl hm) hwritten hacc⟩
    · rw [hu, h.packets, hb]
      simp [hb]
    · refine fits_concat h.fits fun m' hm' => ?_
      cases hm'
      exact hm
    · rw [hu]
      exact h.closed
    · rw [hu]
      exact h.bye
  · cases he.symm.trans hn
    refine ⟨out, .bye, Between.busy ⟨?_, ?_, ?_, ?_⟩ (inFlight_bye rfl) hwritten hacc⟩
    · rw [h.packets, hb, hbye]
      simp [prepareBye, fillHeader, hb]
    · exact fits_concat h.fits fun _ hm => by cases hm
    · exact h.closed
    · intro hbye'
      cases hbye'
  · cases he.symm.trans hn

/-- The invariant says nothing about the watches and the answers. -/
theorem StreamInv.of_frame (h : StreamInv clean s l) (watches : List Nat) (last id null : Nat)
    (answers : List WriteAnswer) :
    StreamInv clean { s with
      watches := watches, lastWatchId := last, writeWatchId := id, nullWatches := null
      answers := answers } l := by
  cases h with
  | quiet hio hsig h => exact .quiet hio hsig ⟨h.1, h.2, h.3, h.4, h.5, h.6, h.7, h.8⟩
  | busy hio hsig out p h =>
    refine .busy hio hsig out p ⟨h.toQueue.of_frame rfl rfl rfl, ?_, h.unfinished⟩
    exact ⟨⟨h.size, h.fixed, h.bytes⟩, h.written, h.accepted⟩
  | closed h => exact .closed ⟨h.1, h.2, h.3, h.4, h.5, h.6⟩

theorem StreamInv.addWatch (h : StreamInv clean s l) : StreamInv clean s.addWatch l := by
  unfold DBusLogSender.addWatch
  split
  · exact h.of_frame s.watches s.lastWatchId 0 (s.nullWatches + 1) s.answers
  · exact h.of_frame _ _ _ s.nullWatches s.answers

/-- A call of `write` by a callback, which takes at most the head of the ring. -/
theorem Open.write (h : Open s l) (hwatch : s.writeWatchId ≠ 0)
    (hfits : s.writePacket.1 = .sent → ∀ m ∈ s.buffer.items.head?, m.Fits)
    (hclean : clean → .error ∉ s.answers) : StreamInv clean s.write.2 l := by
  cases hp : s.writePacket with
  | mk outcome t =>
    obtain ⟨_, _, _, ht⟩ := writePacket_frame hp
    rw [hp] at hfits
    cases outcome with
    | wait =>
      rw [write_wait hp]
      exact (h.writePacket_wait hp).inv
    | failed =>
      rw [write_failed hp]
      exact .closed (h.writePacket_failed hp hclean)
    | sent =>
      obtain ⟨out, hbetween, hio, hsig, _⟩ := h.writePacket_sent hp
      cases hn : t.nextPacket with
      | mk more u =>
        cases more with
        | false =>
          rw [write_stop hp hn]
          exact hbetween.stop hio hsig hn
        | true =>
          obtain ⟨_, _, _, _, hu⟩ := nextPacket_frame hn
          have huw : u.writeWatchId ≠ 0 := by
            rw [hu, ht]
            exact hwatch
          have hhead : ∀ m ∈ t.buffer.items.head?, m.Fits := by
            rw [ht]
            exact hfits rfl
          -- the watch is still there, and so `schedule_write` does nothing
          rw [write_next hp hn, scheduleWrite_of_watch huw]
          exact (hbetween.next hio hsig hhead hn).inv

/-- A call of `write` with nothing in the ring. -/
theorem Open.write_empty (h : Open s l) (hring : s.buffer.items = [])
    (hclean : clean → .error ∉ s.answers) : StreamInv clean s.write.2 l := by
  refine write_rule (P := fun s => Open s l ∧ s.buffer.items = [] ∧ (clean → .error ∉ s.answers))
    (Q := fun _ t => StreamInv clean t l) ?_ ?_ ?_ ?_ s ⟨h, hring, hclean⟩
  · rintro s t ⟨h, _, _⟩ hp
    exact (h.writePacket_wait hp).inv
  · rintro s t ⟨h, _, hclean⟩ hp
    exact .closed (h.writePacket_failed hp hclean)
  · rintro s t u ⟨h, _, _⟩ hp hn
    obtain ⟨out, hbetween, hio, hsig, _⟩ := h.writePacket_sent hp
    exact hbetween.stop hio hsig hn
  · rintro s t u ⟨h, hring, hclean⟩ hp hn
    obtain ⟨out, hbetween, hio, hsig, hanswers⟩ := h.writePacket_sent hp
    obtain ⟨_, _, _, ht⟩ := writePacket_frame hp
    have hempty : t.buffer.items = [] := by
      rw [ht]
      exact hring
    have hu := hbetween.next hio hsig (by simp [hempty]) hn
    obtain ⟨_, _, _, _, hframe⟩ := nextPacket_frame hn
    by_cases hc : u.io.isSome ∧ u.writeWatchId = 0
    · rw [if_pos hc]
      refine ⟨⟨hu, ?_, fun hc herr => hclean hc (hanswers ?_)⟩, fun _ hv => hv.addWatch,
        fun _ hv => hv⟩
      · rw [hframe]
        simp [hempty]
      · rw [hframe] at herr
        exact herr
    · rw [if_neg hc]
      exact hu.inv

theorem Open.scheduleWrite (h : Open s l) (hring : s.buffer.items = [])
    (hclean : clean → .error ∉ s.answers) : StreamInv clean s.scheduleWrite l := by
  have hwrite := h.write_empty hring hclean
  rw [scheduleWrite_eq]
  by_cases hc : s.io.isSome ∧ s.writeWatchId = 0
  · rw [if_pos hc]
    by_cases hmore : s.write.1 = true
    · rw [if_pos hmore]
      exact hwrite.addWatch
    · rw [if_neg hmore]
      exact hwrite
  · rw [if_neg hc]
    exact h.inv

end Write

/-! ## The ledger of a send -/

section Send

variable {s : DBusLogSender} {l : Ledger} {out : List WirePacket}

theorem Queue.open (h : Queue s l out) (hdone : s.done = false) :
    l.closed = false ∧ s.bye = false := by
  refine ⟨h.closed.symm.trans hdone, ?_⟩
  by_contra hnot
  cases hdone.symm.trans (h.bye (by simpa using hnot))

/-- An open queue is the end of what is kept. -/
theorem Queue.kept (h : Queue s l out) (hdone : s.done = false) :
    l.kept = out ++ s.buffer.items.map .message := by
  obtain ⟨hclosed, hbye⟩ := h.open hdone
  rw [← packets_open hclosed, h.packets, hbye]
  simp

theorem Queue.queueMessage {msg : DBusLogMessage} (h : Queue s l out) (hdone : s.done = false)
    (hidle : ¬s.Idle) : Queue (s.queueMessage msg) (s.recordSend msg l) out := by
  obtain ⟨hclosed, hbye⟩ := h.open hdone
  have hkept := h.kept hdone
  have hbye' : (s.queueMessage msg).bye = false := hbye
  obtain ⟨stay, gone, hitems, _, hcase⟩ := busySend_cases hdone hidle msg l
  rw [hitems, List.map_append, ← List.append_assoc] at hkept
  have hbase := discard_kept hkept
  rcases hcase with ⟨hring, hrec⟩ | ⟨_, hring, hrec⟩
  · refine ⟨?_, h.fits, ?_, ?_⟩
    · rw [hring, hrec, packets_open (by exact hclosed), hbye']
      simp [Ledger.issue, hbase]
    · rw [hrec]
      exact h.closed
    · exact h.bye
  · have hundo : (((l.discard gone).issue (.message msg)).discard [msg]).kept =
        out ++ stay.map .message := discard_kept (by simp [Ledger.issue, hbase])
    refine ⟨?_, h.fits, ?_, ?_⟩
    · rw [hring, hrec, packets_open (by exact hclosed), hbye', hundo]
      simp
    · rw [hrec]
      exact h.closed
    · exact h.bye

theorem Accounted.recordSend (h : Accounted l) (hq : s.done = false → ∃ out, Queue s l out)
    (msg : DBusLogMessage) : Accounted (s.recordSend msg l) := by
  by_cases hdone : s.done = true
  · unfold DBusLogSender.recordSend
    rw [if_pos hdone]
    exact h
  · have hopen : s.done = false := by simpa using hdone
    by_cases hidle : s.Idle
    · unfold DBusLogSender.recordSend
      rw [if_neg hdone, if_pos (Or.inl hidle)]
      exact h.issue nofun
    · obtain ⟨out, hq⟩ := hq hopen
      have hkept := hq.kept hopen
      obtain ⟨stay, gone, hitems, _, hcase⟩ := busySend_cases hopen hidle msg l
      rw [hitems, List.map_append, ← List.append_assoc] at hkept
      have hissued := (h.discard hkept).issue (p := .message msg) nofun
      rcases hcase with ⟨_, hrec⟩ | ⟨_, _, hrec⟩
      · rw [hrec]
        exact hissued
      · rw [hrec]
        have hagain : (l.discard gone).kept ++ [.message msg] =
            (l.discard gone).kept ++ [msg].map .message := rfl
        exact hissued.discard hagain

end Send

/-! ## The calls -/

section Calls

variable {s : DBusLogSender} {l : Ledger} {clean : Prop}

theorem StreamInv.queue (h : StreamInv clean s l) (hdone : s.done = false) :
    ∃ out, Queue s l out := by
  cases h with
  | quiet _ _ h => exact ⟨_, h.queue.toQueue⟩
  | busy _ _ out p h => exact ⟨_, h.toQueue⟩
  | closed h => cases hdone.symm.trans h.done

/-- An idle sender that accepts messages has nothing to send. -/
theorem StreamInv.idle (h : StreamInv clean s l) (hdone : s.done = false) (hidle : s.Idle) :
    s.io.isSome ∧ s.closedSignals = 0 ∧ Quiet s l := by
  cases h with
  | quiet hio hsig h => exact ⟨hio, hsig, h⟩
  | busy _ _ out p h => exact absurd hidle (Nat.ne_of_gt h.unfinished)
  | closed h => cases hdone.symm.trans h.done

/-- A packet issued by an idle sender. -/
theorem Quiet.issue {t : DBusLogSender} {p : WirePacket} {l' : Ledger} (h : Quiet s l)
    (hfits : ∀ m ∈ p.message?, m.Fits) (hpackets : l'.packets = l.packets ++ [p])
    (hf : InFlight t p) (hw : t.packetWritten = 0)
    (hacc : t.accepted = s.accepted) (hb : t.buffer = s.buffer) (hbye : t.bye = false)
    (hdone : t.done = l'.closed) : Busy t l' l.packets p := by
  refine Between.busy ⟨?_, fits_concat h.fits hfits, hdone, ?_⟩ hf hw (hacc.trans h.accepted)
  · rw [hpackets, hb, h.buffer, hbye]
    simp
  · intro htrue
    cases hbye.symm.trans htrue

theorem StreamInv.send {msg : DBusLogMessage} (h : StreamInv clean s l)
    (hfits : s.done = false → s.Idle → msg.Fits) (hclean : clean → .error ∉ s.answers) :
    StreamInv clean (s.send msg) (s.recordSend msg l) := by
  unfold DBusLogSender.send
  rcases sendLocked_cases s msg with ⟨hdone, he⟩ | ⟨hdone, hidle, he⟩ | ⟨hdone, hidle, he⟩
  · have hrec : s.recordSend msg l = l := if_pos hdone
    rw [he, hrec]
    exact h
  · obtain ⟨hio, hsig, hquiet⟩ := h.idle hdone hidle
    have hrec : s.recordSend msg l = l.issue (.message msg) := by
      unfold recordSend
      rw [if_neg (by simp [hdone]), if_pos (Or.inl hidle)]
    obtain ⟨packet, hframe⟩ := prepareCurrentMessage_frame
      (s := { s with currentMessage := some msg }) rfl
    have hmsg := hfits hdone hidle
    rw [he, hrec]
    refine Open.scheduleWrite ⟨?_, ?_, .inr ⟨l.packets, .message msg, ?_⟩⟩ ?_ ?_
    · rw [hframe]
      exact hio
    · rw [hframe]
      exact hsig
    · refine hquiet.issue (fun m hm => ?_) ?_ (inFlight_message rfl hmsg) ?_ ?_ ?_ ?_ ?_
      · cases hm
        exact hmsg
      · simp [Ledger.packets, Ledger.issue, hquiet.closed]
      all_goals rw [hframe]
      · exact hquiet.bye
      · exact hdone.trans hquiet.closed.symm
    · rw [hframe]
      exact hquiet.buffer
    · rw [hframe]
      exact hclean
  · rw [he]
    cases h with
    | quiet hio hsig h => exact absurd h.idle hidle
    | busy hio hsig out p h =>
      refine .busy hio hsig out p ⟨h.toQueue.queueMessage hdone hidle, ?_, h.unfinished⟩
      exact ⟨⟨h.size, h.fixed, h.bytes⟩, h.written, h.accepted⟩
    | closed h => cases hdone.symm.trans h.done

theorem StreamInv.ping (h : StreamInv clean s l) (hidle : s.Idle)
    (hclean : clean → .error ∉ s.answers) :
    StreamInv clean s.ping.2 (if s.canPing then l.issue .ping else l) := by
  rcases ping_cases s with ⟨hc, he⟩ | ⟨hc, he⟩
  · rw [he, if_pos hc]
    have hdone := (s.canPing_iff.mp hc).1
    obtain ⟨hio, hsig, hquiet⟩ := h.idle hdone hidle
    refine Open.scheduleWrite ⟨hio, hsig, .inr ⟨l.packets, .ping, ?_⟩⟩ hquiet.buffer hclean
    refine hquiet.issue (fun _ hm => by cases hm) ?_ (inFlight_ping hquiet.message) rfl rfl rfl
      hquiet.bye ?_
    · simp [Ledger.packets, Ledger.issue, hquiet.closed]
    · exact hdone.trans hquiet.closed.symm
  · rw [he, hc]
    exact h

theorem StreamInv.close (h : StreamInv clean s l) (bye : Bool)
    (hclean : clean → .error ∉ s.answers) :
    StreamInv clean (s.close bye) (if s.done then l else { l with closed := true }) := by
  unfold DBusLogSender.close
  rcases closeLocked_cases s with ⟨hdone, he⟩ | ⟨hdone, hidle, _, he⟩ | ⟨hdone, hnot, he⟩
  · rw [he, if_pos hdone]
    exact h
  · obtain ⟨hio, hsig, hquiet⟩ := h.idle hdone hidle
    rw [he, if_neg (by simp [hdone])]
    refine Open.scheduleWrite ⟨hio, hsig, .inr ⟨l.packets, .bye, ?_⟩⟩ hquiet.buffer hclean
    refine hquiet.issue (fun _ hm => by cases hm) ?_
      (inFlight_bye (s := { s with done := true }) hquiet.message) rfl rfl rfl rfl rfl
    simp [Ledger.packets, hquiet.closed]
  · rw [he, if_neg (by simp [hdone])]
    cases h with
    | quiet hio hsig h => exact absurd ⟨h.idle, h.buffer⟩ hnot
    | busy hio hsig out p h =>
      -- BYE goes to the end of the queue
      obtain ⟨hclosed, hbye⟩ := h.toQueue.open hdone
      have hpackets := h.toQueue.kept hdone
      refine .busy hio hsig out p ⟨⟨?_, h.fits, rfl, fun _ => rfl⟩, ?_, h.unfinished⟩
      · simp [Ledger.packets, hpackets]
      · exact ⟨⟨h.size, h.fixed, h.bytes⟩, h.written, h.accepted⟩
    | closed h => cases hdone.symm.trans h.done

/-- What is accepted is a part of the stream in every state. -/
theorem StreamInv.accepted (h : StreamInv clean s l) :
    s.accepted <+: WirePacket.encodeAll l.packets := by
  cases h with
  | quiet _ _ h => exact ⟨[], by rw [h.accepted, List.append_nil]⟩
  | busy _ _ out p h =>
    rw [h.accepted, h.packets]
    simp only [WirePacket.encodeAll_append, WirePacket.encodeAll_cons,
      WirePacket.encodeAll_nil, List.append_nil, List.append_assoc]
    refine (List.prefix_append_right_inj _).mpr ?_
    exact (List.take_prefix _ _).trans (List.prefix_append _ _)
  | closed h => exact h.accepted

theorem StreamInv.shutdown (h : StreamInv clean s l) (flush : Bool) (hclean : ¬clean) :
    StreamInv clean (s.shutdown flush) l := by
  refine .closed
    ⟨rfl, rfl, h.accepted, ?_, fun hc => absurd hc hclean, fun hc => absurd hc hclean⟩
  cases h with
  | quiet hio hsig _ => exact shutdown_closedSignals hio hsig flush
  | busy hio hsig _ _ _ => exact shutdown_closedSignals hio hsig flush
  | closed h =>
    change (if s.io.isSome then s.closedSignals + 1 else s.closedSignals) = 1
    rw [h.io]
    exact h.signals

theorem StreamInv.removeSource (h : StreamInv clean s l) (id : Nat) :
    StreamInv clean (s.removeSource id) l :=
  h.of_frame _ s.lastWatchId s.writeWatchId s.nullWatches s.answers

theorem Open.writeCallback (h : Open s l) (hwatch : s.writeWatchId ≠ 0) (id : Nat) (out : Bool)
    (hfits : out = true → s.writePacket.1 = .sent → ∀ m ∈ s.buffer.items.head?, m.Fits)
    (hclean : clean → out = true ∧ .error ∉ s.answers) :
    StreamInv clean (s.writeCallback id out) l := by
  unfold DBusLogSender.writeCallback
  by_cases hout : out = true
  · rw [if_pos hout]
    have hwrite : StreamInv clean s.write.2 l :=
      h.write hwatch (hfits hout) fun hc => (hclean hc).2
    cases hw : s.write with
    | mk more t =>
      rw [hw] at hwrite
      cases more with
      | true => exact hwrite
      | false => exact hwrite.removeSource id
  · rw [if_neg hout]
    have hforget : StreamInv clean { s with writeWatchId := 0 } l :=
      h.inv.of_frame s.watches s.lastWatchId 0 s.nullWatches s.answers
    exact (hforget.shutdown false fun hc => hout (hclean hc).1).removeSource id

end Calls

/-! ## Steps and runs -/

theorem StreamInv.step {clean : Prop} {s t : DBusLogSender} {l : Ledger} {a : SenderStep}
    (hw : WatchInv s) (h : StreamInv clean s l) (hmain : a.OnMainThread)
    (hfits : s.PreparesFit a) (hclean : clean → a.Clean) (ht : s.step a = some t) :
    StreamInv clean t (s.record a l) := by
  have hanswers : ∀ answers, StreamInv clean { s with answers := answers } l := fun answers =>
    h.of_frame s.watches s.lastWatchId s.writeWatchId s.nullWatches answers
  cases a with
  | workerSend msg => cases hmain
  | send msg answers =>
    cases ht
    exact (hanswers answers).send hfits hclean
  | ping answers =>
    obtain ⟨hidle, he⟩ := Option.ite_none_right_eq_some.mp ht
    cases he
    exact (hanswers answers).ping hidle hclean
  | close bye answers =>
    cases ht
    exact (hanswers answers).close bye hclean
  | shutdown flush =>
    cases ht
    exact h.shutdown flush hclean
  | callback answers => cases hmain
  | watch id out answers =>
    obtain ⟨hid, he⟩ := Option.ite_none_right_eq_some.mp ht
    cases he
    obtain ⟨hio, hrecorded⟩ := hw.live hid
    exact ((hanswers answers).opened hio).writeCallback hrecorded id out hfits hclean

theorem Accounted.record {clean : Prop} {s : DBusLogSender} {l : Ledger} (h : Accounted l)
    (hinv : StreamInv clean s l) (a : SenderStep) : Accounted (s.record a l) := by
  cases a with
  | workerSend msg => exact h.recordSend (fun hdone => hinv.queue hdone) msg
  | send msg _ => exact h.recordSend (fun hdone => hinv.queue hdone) msg
  | ping _ =>
    change Accounted (if s.canPing then l.issue .ping else l)
    by_cases hc : s.canPing = true
    · rw [if_pos hc]
      exact h.issue nofun
    · rw [if_neg hc]
      exact h
  | close _ _ =>
    change Accounted (if s.done then l else { l with closed := true })
    by_cases hdone : s.done = true
    · rw [if_pos hdone]
      exact h
    · rw [if_neg hdone]
      exact ⟨h.noBye, h.sublist, h.perm⟩
  | shutdown _ => exact h
  | callback _ => exact h
  | watch _ _ _ => exact h

theorem CallbackSafe.of_onMainThread {a : SenderStep} (h : a.OnMainThread) (s : DBusLogSender) :
    CallbackSafe s a := by
  cases a with
  | callback _ => cases h
  | _ => trivial

section Run

variable {name : String} {backlog : Int32} {readfd writefd : Nat} {steps : List SenderStep}
  {t : DBusLogSender}

theorem StreamInv.new (clean : Prop) (name : String) (backlog : Int32) (readfd writefd : Nat) :
    StreamInv clean (new name backlog readfd writefd) Ledger.empty :=
  .quiet rfl rfl
    ⟨rfl, rfl, rfl, rfl, rfl, rfl, rfl, fun _ hm => absurd hm List.not_mem_nil⟩

/-- The invariants of a run on the main thread whose messages fit. -/
theorem run_streamInv (clean : Prop)
    (hsteps : ∀ a ∈ steps, a.OnMainThread ∧ (∀ m ∈ a.message?, m.Fits) ∧ (clean → a.Clean))
    (hrun : run (new name backlog readfd writefd) steps = some t) :
    StreamInv clean t (ledger (new name backlog readfd writefd) steps) ∧
      Accounted (ledger (new name backlog readfd writefd) steps) := by
  have hinv := Runs.history_invariant (f := record)
    (P := fun s l => WatchInv s ∧ (∀ m ∈ s.buffer.items, m.Fits) ∧ StreamInv clean s l ∧
      Accounted l)
    (g := Ledger.empty) (fun s a s' l ⟨hw, hring, h, hok⟩ hc hs =>
      ⟨hw.step (CallbackSafe.of_onMainThread hc.1 s) hs, step_fits hring hc.2.1 hs,
        h.step hw hc.1 (preparesFit_of hring hc.2.1) hc.2.2 hs, hok.record h a⟩)
    (Runs.meets_of_forall hsteps _) hrun
    ⟨WatchInv.new name backlog readfd writefd, fun _ hm => absurd hm List.not_mem_nil,
      .new clean name backlog readfd writefd, accounted_empty⟩
  exact hinv.2.2

/-- The contract of the sender: on the main thread, with messages that fit, the pipe has always
taken the beginning of a stream of complete packets, whose messages are some of those passed to
send before close, and in which BYE can only come last. A clean run that has been closed and has
nothing in flight has sent all that was issued and not discarded, in order, and then BYE, and has
emitted CLOSED once. -/
theorem stream_contract (hmain : ∀ a ∈ steps, a.OnMainThread)
    (hfits : ∀ a ∈ steps, ∀ m ∈ a.message?, m.Fits)
    (hrun : run (new name backlog readfd writefd) steps = some t) :
    (∃ body bye, t.accepted <+: WirePacket.encodeAll (body ++ bye) ∧
      (WirePacket.messages body).Sublist (sentBeforeClose steps) ∧
      .bye ∉ body ∧ (bye = [] ∨ bye = [.bye])) ∧
    t.closedSignals ≤ 1 ∧
    ((∃ bye answers, .close bye answers ∈ steps) → (∀ a ∈ steps, a.Clean) → t.Idle →
      ∃ body, t.accepted = WirePacket.encodeAll (body ++ [.bye]) ∧ .bye ∉ body ∧
        body.Sublist (ledger (new name backlog readfd writefd) steps).issued ∧
        (body ++ (ledger (new name backlog readfd writefd) steps).discarded.map
          WirePacket.message).Perm (ledger (new name backlog readfd writefd) steps).issued ∧
        t.io = none ∧ t.closedSignals = 1) := by
  have hsteps : ∀ a ∈ steps, a.OnMainThread ∧ (∀ m ∈ a.message?, m.Fits) ∧
      ((∀ a ∈ steps, a.Clean) → a.Clean) :=
    fun a ha => ⟨hmain a ha, hfits a ha, fun hc => hc a ha⟩
  obtain ⟨hinv, hacc⟩ := run_streamInv (∀ a ∈ steps, a.Clean) hsteps hrun
  refine ⟨?_, ?_, ?_⟩
  · refine ⟨(ledger (new name backlog readfd writefd) steps).kept, _, hinv.accepted, ?_,
      hacc.noBye, ?_⟩
    · obtain ⟨ps, hps, hsub⟩ := ledger_issued Ledger.empty hrun
      refine List.Sublist.trans (hacc.sublist.filterMap _) ?_
      change (WirePacket.messages (Runs.history record step _ steps Ledger.empty).issued).Sublist _
      rw [hps]
      exact hsub
    · split
      · exact .inr rfl
      · exact .inl rfl
  · cases hinv with
    | quiet _ hsig _ => omega
    | busy _ hsig _ _ _ => omega
    | closed h => exact h.signals.le
  · rintro ⟨bye, answers, hclose⟩ hclean hidle
    have hdone := run_done_of_close hclose hrun
    cases hinv with
    | quiet _ _ h => cases h.done.symm.trans hdone
    | busy _ _ out p h => exact absurd hidle (Nat.ne_of_gt h.unfinished)
    | closed h =>
      obtain ⟨hclosed, hall⟩ := h.finished hclean
      refine ⟨_, ?_, hacc.noBye, hacc.sublist, hacc.perm, h.io, h.signals⟩
      rw [hall, Ledger.packets, if_pos hclosed]

/-- A message, a ping and a close. -/
theorem stream_contract_run : ∃ t,
    run (new "peer" 0 3 4) [.send (.new (some [104])) [.accept 22, .accept 1], .ping [.accept 5],
      .close true [.accept 5]] = some t ∧ t.io = none ∧ t.closedSignals = 1 := by
  obtain ⟨t, ht, hidle⟩ := Option.map_eq_some_iff.mp (by decide : (run (new "peer" 0 3 4)
    [.send (.new (some [104])) [.accept 22, .accept 1], .ping [.accept 5],
      .close true [.accept 5]]).map (fun t => decide t.Idle) = some true)
  obtain ⟨_, _, _, _, _, hio, hsig⟩ := (stream_contract (by decide) (by decide) ht).2.2
    ⟨true, [.accept 5], by decide⟩ (by decide) (of_decide_eq_true hidle)
  exact ⟨t, ht, hio, hsig⟩

end Run

/-- Three clean runs that are closed and have nothing in flight, in which nothing is discarded: a
ping behind a message, a message whose packet size wraps to zero, and a message that could not be
formatted. In none of them the stream is that of the pings, then the messages, then BYE. -/
theorem stream_notPingsFirst :
    (∃ t, run (new "peer" 0 3 4) [.send (.new (some [104])) [.accept 22, .accept 1],
        .ping [.accept 5], .close true [.accept 5]] = some t ∧ t.Idle ∧
      t.accepted ≠ WirePacket.encodeAll [.ping, .message (.new (some [104])), .bye]) ∧
    (∃ t, run (new "peer" 0 3 4) [.send hugeMessage [], .close true [.accept 5]] = some t ∧
      t.Idle ∧ t.accepted ≠ WirePacket.encodeAll [.message hugeMessage, .bye]) ∧
    ∃ t, run (new "peer" 0 3 4) [.send (.newVa none) [.accept 21], .close true [.accept 5]] =
        some t ∧ t.Idle ∧ t.accepted ≠ WirePacket.encodeAll [.message (.newVa none), .bye] := by
  refine ⟨?_, ?_, ?_⟩
  · obtain ⟨t, ht, he⟩ := Option.map_eq_some_iff.mp (by decide : (run (new "peer" 0 3 4)
      [.send (.new (some [104])) [.accept 22, .accept 1], .ping [.accept 5],
        .close true [.accept 5]]).map (fun t => (decide t.Idle, decide (t.accepted ≠
          WirePacket.encodeAll [.ping, .message (.new (some [104])), .bye]))) = some (true, true))
    simp only [Prod.mk.injEq, decide_eq_true_eq] at he
    exact ⟨t, ht, he⟩
  · obtain ⟨t, ht, he⟩ := Option.map_eq_some_iff.mp (by decide : (run (new "peer" 0 3 4)
      [.send hugeMessage [], .close true [.accept 5]]).map (fun t =>
        (decide t.Idle, t.accepted.length)) = some (true, 5))
    simp only [Prod.mk.injEq, decide_eq_true_eq] at he
    refine ⟨t, ht, he.1, ?_⟩
    intro heq
    have hlen := he.2
    rw [heq] at hlen
    simp only [WirePacket.encodeAll_cons, List.length_append,
      WirePacket.encode_message_length] at hlen
    omega
  · obtain ⟨t, ht, he⟩ := Option.map_eq_some_iff.mp (by decide : (run (new "peer" 0 3 4)
      [.send (.newVa none) [.accept 21], .close true [.accept 5]]).map (fun t =>
        (decide t.Idle, decide (t.accepted ≠
          WirePacket.encodeAll [.message (.newVa none), .bye]))) = some (true, true))
    simp only [Prod.mk.injEq, decide_eq_true_eq] at he
    exact ⟨t, ht, he⟩

end DBusLogSender

end DBusLog

import DBusLog.Receiver.Truncated
import DBusLog.Sender.Interleaving

/-!
# The pipe under worker sends

A worker's send between the two halves of `write` can make a message disappear. It never spoils the
pipe: in every interleaving the bytes that have been accepted are complete packets and the
beginning of one more, their messages are some of those that were sent, in the order of the sends,
and BYE can only come last.
-/

namespace DBusLog

/-- The message that an action passes to `dbus_log_sender_send`. -/
def Action.message? : Action → Option DBusLogMessage
  | .workerSend msg | .send msg => some msg
  | _ => none

namespace Thread

open DBusLogSender

/-- The messages passed to a sender that is not done, after an action. -/
def recordSent (c : Thread) (a : Action) (sent : List DBusLogMessage) : List DBusLogMessage :=
  if c.sender.done then sent else sent ++ a.message?.toList

/-- The messages that a run has passed to a sender before its close. -/
def sentMessages (c : Thread) (actions : List Action) : List DBusLogMessage :=
  Runs.history recordSent step c actions []

/-- The packets are over after a BYE. -/
def ByeLast (ps : List WirePacket) : Prop := .bye ∉ ps.dropLast

/-! ## The invariant -/

/-- Behind the packets `out` come the messages `rest`, all of them some of those sent. -/
structure Ahead (sent : List DBusLogMessage) (out : List WirePacket)
    (rest : List DBusLogMessage) (s : DBusLogSender) : Prop where
  sublist : (WirePacket.messages out ++ rest).Sublist sent
  fits : ∀ m ∈ sent, m.Fits
  bye : s.bye = true → s.done = true

/-- After BYE there is nothing to come. -/
structure Ending (s : DBusLogSender) : Prop where
  done : s.done = true
  bye : s.bye = false
  buffer : s.buffer.items = []

/-- An open sender when the main thread is not between the halves of `write`. -/
inductive Outside (sent : List DBusLogMessage) (s : DBusLogSender) : Prop
  | rest (out : List WirePacket) (noBye : .bye ∉ out) (h : AtRest s) (opened : s.done = false)
      (accepted : s.accepted = WirePacket.encodeAll out) (ahead : Ahead sent out [] s)
  | sends (out : List WirePacket) (noBye : .bye ∉ out) (p : WirePacket)
      (h : Sends s (WirePacket.encodeAll out) p) (ahead : Ahead sent out (held s) s)
      (ending : p = .bye → Ending s)

/-- An open sender between the halves of `write`. The current message may be the one whose packet
is out, or one that a worker has put in its place; what is certain to come is the ring. -/
structure Inside (sent : List DBusLogMessage) (out : List WirePacket) (s : DBusLogSender) :
    Prop where
  accepted : s.accepted = WirePacket.encodeAll out
  ahead : Ahead sent out s.buffer.items s
  byeLast : ByeLast out
  ending : .bye ∈ out → Ending s

/-- What the pipe has taken is the beginning of some packets. -/
structure Written (sent : List DBusLogMessage) (ps : List WirePacket) (s : DBusLogSender) :
    Prop where
  accepted : s.accepted <+: WirePacket.encodeAll ps
  sublist : (WirePacket.messages ps).Sublist sent
  byeLast : ByeLast ps
  ending : .bye ∈ ps → s.done = true

inductive WireInv (sent : List DBusLogMessage) (c : Thread) : Prop
  | closed (hio : c.sender.io = none) (done : c.sender.done = true) (ps : List WirePacket)
      (h : Written sent ps c.sender)
  | outside (hio : c.sender.io.isSome) (hc : c.control.isBetween = false)
      (h : Outside sent c.sender)
  | inside (hio : c.sender.io.isSome) (hc : c.control.isBetween = true)
      (out : List WirePacket) (h : Inside sent out c.sender)

section Lemmas

variable {sent : List DBusLogMessage} {out : List WirePacket} {rest : List DBusLogMessage}
  {s t : DBusLogSender} {p : WirePacket} {msg : DBusLogMessage}

theorem byeLast_of_not_mem (h : .bye ∉ out) : ByeLast out :=
  fun hmem => h (List.dropLast_subset out hmem)

theorem byeLast_concat (h : .bye ∉ out) (p : WirePacket) : ByeLast (out ++ [p]) := by
  unfold ByeLast
  rw [List.dropLast_concat]
  exact h

theorem Ahead.mono (h : Ahead sent out rest s) {more : List DBusLogMessage}
    (hmore : ∀ m ∈ more, m.Fits) : Ahead (sent ++ more) out rest s where
  sublist := h.sublist.trans (List.sublist_append_left sent more)
  fits m hm := (List.mem_append.mp hm).elim (h.fits m) (hmore m)
  bye := h.bye

theorem Ahead.of_eq (h : Ahead sent out rest s) (hbye : t.bye = s.bye) (hdone : t.done = s.done) :
    Ahead sent out rest t :=
  ⟨h.sublist, h.fits, by rw [hbye, hdone]; exact h.bye⟩

/-- A packet that has just been prepared. -/
theorem Sends.start {accepted : List UInt8} (hf : InFlight s p) (hw : s.packetWritten = 0)
    (hm : s.currentMessage = p.message?) (hacc : s.accepted = accepted) : Sends s accepted p := by
  refine ⟨⟨hf, ?_, ?_⟩, ?_, hm⟩
  · rw [hw]
    exact Nat.zero_le _
  · rw [hw, List.take_zero, List.append_nil, hacc]
  · rw [hw]
    exact hf.size_pos

theorem SameOutput.sends (h : SameOutput s t) {accepted : List UInt8} (hs : Sends s accepted p) :
    Sends t accepted p := by
  obtain ⟨_, _, _, _, _, _, rfl⟩ := h
  exact ⟨⟨⟨hs.size, hs.fixed, hs.bytes⟩, hs.written, hs.accepted⟩, hs.unfinished, hs.message⟩

theorem SameOutput.outside (h : SameOutput s t) (hs : Outside sent s) : Outside sent t := by
  obtain ⟨out, noBye, hrest, hopen, hacc, hahead⟩ | ⟨out, noBye, p, hsends, hahead, hend⟩ := hs
  · obtain ⟨_, _, _, _, _, _, rfl⟩ := h
    exact .rest out noBye ⟨hrest.idle, hrest.message, hrest.buffer⟩ hopen hacc
      (hahead.of_eq rfl rfl)
  · have hsends' := h.sends hsends
    have hheld := h.held
    obtain ⟨_, _, _, _, _, _, rfl⟩ := h
    refine .sends out noBye p hsends' ?_ fun hp => ⟨(hend hp).done, (hend hp).bye, (hend hp).buffer⟩
    rw [hheld]
    exact hahead.of_eq rfl rfl

theorem SameOutput.inside (h : SameOutput s t) (hs : Inside sent out s) : Inside sent out t := by
  obtain ⟨_, _, _, _, _, _, rfl⟩ := h
  exact ⟨hs.accepted, hs.ahead.of_eq rfl rfl, hs.byeLast,
    fun hbye => ⟨(hs.ending hbye).done, (hs.ending hbye).bye, (hs.ending hbye).buffer⟩⟩

theorem Written.mono (h : Written sent out s) (more : List DBusLogMessage) :
    Written (sent ++ more) out s :=
  ⟨h.accepted, h.sublist.trans (List.sublist_append_left _ _), h.byeLast, h.ending⟩

/-- What an open sender has written. -/
theorem Outside.written (h : Outside sent s) : ∃ ps, Written sent ps s := by
  obtain ⟨out, noBye, _, _, hacc, hahead⟩ | ⟨out, noBye, p, hsends, hahead, hend⟩ := h
  · refine ⟨out, hacc ▸ List.prefix_rfl, ?_, byeLast_of_not_mem noBye,
      fun hmem => absurd hmem noBye⟩
    have hsub := hahead.sublist
    rwa [List.append_nil] at hsub
  · refine ⟨out ++ [p], ?_, ?_, byeLast_concat noBye p, fun hmem => ?_⟩
    · rw [hsends.accepted, WirePacket.encodeAll_append, List.prefix_append_right_inj,
        WirePacket.encodeAll_cons, WirePacket.encodeAll_nil, List.append_nil]
      exact List.take_prefix _ _
    · refine List.Sublist.trans ?_ hahead.sublist
      rw [WirePacket.messages_concat, held, hsends.message]
      exact List.Sublist.append_left (List.sublist_append_left _ _) _
    · obtain hmem | hmem := List.mem_append.mp hmem
      · exact absurd hmem noBye
      · exact (hend (List.mem_singleton.mp hmem).symm).done

theorem Inside.written (h : Inside sent out s) : Written sent out s :=
  ⟨h.accepted ▸ List.prefix_rfl, (List.sublist_append_left _ _).trans h.ahead.sublist, h.byeLast,
    fun hmem => (h.ending hmem).done⟩

end Lemmas

/-! ## A send -/

section Send

variable {sent : List DBusLogMessage} {out : List WirePacket} {s : DBusLogSender}
  {msg : DBusLogMessage}

/-- A message that goes to the ring comes behind everything else, or is lost with others. -/
theorem queueMessage_sublist (hdone : s.done = false) (hidle : ¬s.Idle)
    {front : List DBusLogMessage} (h : (front ++ s.buffer.items).Sublist sent) :
    (front ++ (s.queueMessage msg).buffer.items).Sublist (sent ++ [msg]) := by
  obtain ⟨stay, gone, hitems, _, hcase⟩ := busySend_cases hdone hidle msg Ledger.empty
  have hstay : (front ++ stay).Sublist sent := by
    rw [hitems] at h
    refine List.Sublist.trans ?_ h
    exact List.Sublist.append_left (List.sublist_append_left _ _) _
  obtain ⟨hring, _⟩ | ⟨_, hring, _⟩ := hcase
  · rw [hring, ← List.append_assoc]
    exact hstay.append (List.Sublist.refl _)
  · rw [hring]
    exact hstay.trans (List.sublist_append_left _ _)

theorem fits_concat (h : ∀ m ∈ sent, m.Fits) (hfits : msg.Fits) : ∀ m ∈ sent ++ [msg], m.Fits := by
  intro m hm
  obtain hm | hm := List.mem_append.mp hm
  · exact h m hm
  · rw [List.mem_singleton.mp hm]
    exact hfits

theorem Outside.sendLocked (h : Outside sent s) (hdone : s.done = false) (hfits : msg.Fits) :
    Outside (sent ++ [msg]) (s.sendLocked msg).2 := by
  obtain ⟨out, noBye, hrest, _, hacc, hahead⟩ | ⟨out, noBye, p, hsends, hahead, hend⟩ := h
  · have he : s.sendLocked msg = (true, { s with currentMessage := some msg }.prepareCurrentMessage) :=
      (if_neg (by simp [hdone])).trans (if_pos hrest.idle)
    have hflight := inFlight_message (s := { s with currentMessage := some msg }) rfl hfits
    obtain ⟨packet, hframe⟩ := prepareCurrentMessage_frame
      (s := { s with currentMessage := some msg }) rfl
    rw [he]
    refine .sends out noBye (.message msg) (.start hflight ?_ ?_ ?_) ⟨?_, ?_, ?_⟩ nofun
    · rw [hframe]
    · rw [hframe]
      rfl
    · rw [hframe]
      exact hacc
    · have hheld : held { s with currentMessage := some msg }.prepareCurrentMessage = [msg] := by
        rw [hframe]
        simp [held, hrest.buffer]
      have hsub := hahead.sublist
      rw [List.append_nil] at hsub
      rw [hheld]
      exact hsub.append (List.Sublist.refl _)
    · exact fits_concat hahead.fits hfits
    · rw [hframe]
      exact hahead.bye
  · have hidle : ¬s.Idle := Nat.ne_of_gt hsends.unfinished
    have he : s.sendLocked msg = (false, s.queueMessage msg) :=
      (if_neg (by simp [hdone])).trans (if_neg hidle)
    have hsub := hahead.sublist
    rw [held, ← List.append_assoc] at hsub
    rw [he]
    refine .sends out noBye p ?_ ⟨?_, fits_concat hahead.fits hfits, hahead.bye⟩ fun hp => ?_
    · exact ⟨⟨⟨hsends.size, hsends.fixed, hsends.bytes⟩, hsends.written, hsends.accepted⟩,
        hsends.unfinished, hsends.message⟩
    · rw [held, ← List.append_assoc]
      exact queueMessage_sublist hdone hidle hsub
    · cases hdone.symm.trans (hend hp).done

/-- Between the halves a worker's message is put in the place of the finished one, or behind it. -/
theorem Inside.sendLocked (h : Inside sent out s) (hdone : s.done = false) (hfits : msg.Fits) :
    Inside (sent ++ [msg]) out (s.sendLocked msg).2 := by
  have hbye : .bye ∉ out := fun hmem => by cases hdone.symm.trans (h.ending hmem).done
  rcases sendLocked_cases s msg with ⟨hdone', _⟩ | ⟨_, _, he⟩ | ⟨_, hidle, he⟩
  · cases hdone.symm.trans hdone'
  · obtain ⟨packet, hframe⟩ := prepareCurrentMessage_frame
      (s := { s with currentMessage := some msg }) rfl
    rw [he, hframe]
    refine ⟨h.accepted, ⟨?_, fits_concat h.ahead.fits hfits, h.ahead.bye⟩, h.byeLast,
      fun hmem => absurd hmem hbye⟩
    exact h.ahead.sublist.trans (List.sublist_append_left _ _)
  · rw [he]
    refine ⟨h.accepted, ⟨?_, fits_concat h.ahead.fits hfits, h.ahead.bye⟩, h.byeLast,
      fun hmem => absurd hmem hbye⟩
    exact queueMessage_sublist hdone hidle h.ahead.sublist

end Send

/-! ## The other calls -/

section Calls

variable {sent : List DBusLogMessage} {out : List WirePacket} {s : DBusLogSender}

/-- A packet that is started by a sender at rest. -/
theorem Outside.issue {t : DBusLogSender} {p : WirePacket} (h : Outside sent s) (hidle : s.Idle)
    (hflight : s.currentMessage = none → InFlight t p) (hw : t.packetWritten = 0)
    (hm : p.message? = none) (hmessage : t.currentMessage = s.currentMessage)
    (hacc : t.accepted = s.accepted) (hbuffer : t.buffer = s.buffer)
    (hbye : t.bye = true → t.done = true) (hend : p = .bye → t.done = true ∧ t.bye = false) :
    Outside sent t := by
  obtain ⟨out, noBye, hrest, _, hacc', hahead⟩ | ⟨out, noBye, p, hsends, _, _⟩ := h
  · have hnone : t.currentMessage = none := hmessage.trans hrest.message
    have hnil : t.buffer.items = [] := by rw [hbuffer, hrest.buffer]
    refine .sends out noBye p ?_ ⟨?_, hahead.fits, hbye⟩ fun hp => ?_
    · exact .start (hflight hrest.message) hw (hnone.trans hm.symm) (hacc.trans hacc')
    · rw [held, hnone, hnil]
      exact hahead.sublist
    · exact ⟨(hend hp).1, (hend hp).2, hnil⟩
  · exact absurd hidle (Nat.ne_of_gt hsends.unfinished)

theorem Outside.ping (h : Outside sent s) (hidle : s.Idle) :
    Outside sent (s.fillHeader 0 .ping) := by
  have hbye : s.bye = true → s.done = true := by
    obtain ⟨_, _, _, _, _, hahead⟩ | ⟨_, _, _, _, hahead, _⟩ := h
    · exact hahead.bye
    · exact hahead.bye
  exact h.issue (p := .ping) hidle (fun hm => inFlight_ping hm) rfl rfl rfl rfl rfl hbye nofun

theorem Outside.close (h : Outside sent s) : Outside sent s.closeLocked.2 := by
  rcases closeLocked_cases s with ⟨_, he⟩ | ⟨_, hidle, _, he⟩ | ⟨hopen, hbusy, he⟩
  · rw [he]
    exact h
  · rw [he]
    refine h.issue (p := .bye) hidle ?_ rfl rfl rfl rfl rfl (fun _ => rfl) fun _ => ⟨rfl, rfl⟩
    exact fun hm => inFlight_bye (s := { s with done := true }) hm
  · rw [he]
    obtain ⟨_, _, hrest, _, _, _⟩ | ⟨out, noBye, p, hsends, hahead, hend⟩ := h
    · exact absurd ⟨hrest.idle, hrest.buffer⟩ hbusy
    · refine .sends out noBye p ?_ ⟨hahead.sublist, hahead.fits, fun _ => rfl⟩ fun hp => ?_
      · exact ⟨⟨⟨hsends.size, hsends.fixed, hsends.bytes⟩, hsends.written, hsends.accepted⟩,
          hsends.unfinished, hsends.message⟩
      · cases hopen.symm.trans (hend hp).done

theorem enterScheduleWrite_wire (callers : List Caller) (h : Outside sent s)
    (hio : s.io.isSome) : WireInv sent (enterScheduleWrite s callers) := by
  have hsame := enterScheduleWrite_sameOutput s callers
  refine .outside (by rw [hsame.io]; exact hio) ?_ (hsame.outside h)
  unfold enterScheduleWrite
  split
  · rfl
  · rfl

theorem SameOutput.written {t : DBusLogSender} (h : SameOutput s t) {ps : List WirePacket}
    (hw : Written sent ps s) : Written sent ps t := by
  obtain ⟨_, _, _, _, _, _, rfl⟩ := h
  exact ⟨hw.accepted, hw.sublist, hw.byeLast, hw.ending⟩

/-- The unlocked half of `write`. -/
theorem io_wire (h : Outside sent s) (hio : s.io.isSome) (callers : List Caller) :
    WireInv sent (io s callers) := by
  unfold io
  cases hp : s.writePacket with
  | mk r t =>
    obtain ⟨answers, accepted, written, hframe⟩ := writePacket_frame hp
    have htio : t.io.isSome := by rw [hframe]; exact hio
    obtain ⟨out, noBye, hrest, hopen, hacc, hahead⟩ | ⟨out, noBye, p, hsends, hahead, hend⟩ := h
    · have hsent : s.writePacket = (.sent, s) :=
        if_neg (by rw [hrest.idle]; exact lt_irrefl _)
      cases hsent.symm.trans hp
      refine .inside hio rfl out ⟨hacc, ?_, byeLast_of_not_mem noBye,
        fun hmem => absurd hmem noBye⟩
      change Ahead sent out s.buffer.items s
      rw [hrest.buffer]
      exact hahead
    · have hmoved := writePacket_moved hsends.toSending hp
      cases r with
      | wait =>
        have hsame := returnFrom_sameOutput true t callers
        refine .outside (by rw [hsame.io]; exact htio) rfl (hsame.outside ?_)
        rw [hframe] at hmoved ⊢
        refine .sends out noBye p ?_ (hahead.of_eq rfl rfl) fun hp =>
          ⟨(hend hp).done, (hend hp).bye, (hend hp).buffer⟩
        exact ⟨⟨⟨hsends.size, hsends.fixed, hsends.bytes⟩, hmoved.written, hmoved.accepted⟩,
          hmoved.wait rfl, hsends.message⟩
      | failed =>
        have hsame := returnFrom_sameOutput false t.fail callers
        have hwritten : Written sent (out ++ [p]) t.fail := by
          refine ⟨?_, ?_, byeLast_concat noBye p, fun _ => rfl⟩
          · change t.accepted <+: _
            rw [hmoved.accepted, WirePacket.encodeAll_append, List.prefix_append_right_inj,
              WirePacket.encodeAll_cons, WirePacket.encodeAll_nil, List.append_nil]
            exact List.take_prefix _ _
          · refine List.Sublist.trans ?_ hahead.sublist
            rw [WirePacket.messages_concat, held, hsends.message]
            exact List.Sublist.append_left (List.sublist_append_left _ _) _
        refine .closed hsame.io ?_ (out ++ [p]) (hsame.written hwritten)
        obtain ⟨_, _, _, _, _, _, he⟩ := hsame
        change (returnFrom false t.fail callers).done = true
        rw [he]
        rfl
      | sent =>
        refine .inside htio rfl (out ++ [p]) ⟨?_, ⟨?_, hahead.fits, ?_⟩, byeLast_concat noBye p, ?_⟩
        · change t.accepted = _
          rw [hmoved.accepted, hmoved.sent rfl, hsends.size, List.take_length,
            WirePacket.encodeAll_append, WirePacket.encodeAll_cons, WirePacket.encodeAll_nil,
            List.append_nil]
        · have hsub := hahead.sublist
          rw [held, hsends.message, ← List.append_assoc, ← WirePacket.messages_concat] at hsub
          rw [hframe]
          exact hsub
        · rw [hframe]
          exact hahead.bye
        · intro hmem
          obtain hmem | hmem := List.mem_append.mp hmem
          · exact absurd hmem noBye
          · have hlast := hend (List.mem_singleton.mp hmem).symm
            rw [hframe]
            exact ⟨hlast.done, hlast.bye, hlast.buffer⟩

/-- The locked half of `write`. -/
theorem locked_wire (h : Inside sent out s) (hio : s.io.isSome) (callers : List Caller) :
    WireInv sent (locked s callers) := by
  unfold locked
  rcases nextPacket_cases s with ⟨m, rest, hb, he⟩ | ⟨hb, hbye, he⟩ | ⟨hb, hbye, he⟩
  · have noBye : .bye ∉ out := fun hmem => by
      cases hb.symm.trans (h.ending hmem).buffer
    have hm : m.Fits := by
      refine h.ahead.fits m (h.ahead.sublist.subset ?_)
      rw [hb]
      exact List.mem_append_right _ List.mem_cons_self
    have hflight := inFlight_message
      (s := { s with currentMessage := some m, buffer := s.buffer.get.2 }) rfl hm
    obtain ⟨packet, hframe⟩ := prepareCurrentMessage_frame
      (s := { s with currentMessage := some m, buffer := s.buffer.get.2 }) rfl
    have hheld : held { s with currentMessage := some m, buffer := s.buffer.get.2
                        }.prepareCurrentMessage = s.buffer.items := by
      rw [hframe]
      simp [held, hb]
    rw [he]
    refine enterScheduleWrite_wire callers (.sends out noBye (.message m) ?_ ?_ ?_) ?_
    · refine .start hflight ?_ ?_ ?_
      · rw [hframe]
      · rw [hframe]
        rfl
      · rw [hframe]
        exact h.accepted
    · rw [hheld]
      refine h.ahead.of_eq ?_ ?_
      · rw [hframe]
      · rw [hframe]
    · intro hmessage
      cases hmessage
    · rw [hframe]
      exact hio
  · have noBye : .bye ∉ out := fun hmem => by
      cases hbye.symm.trans (h.ending hmem).bye
    have hnil : s.buffer.get.2.items = [] := by simp [hb]
    have hdone : s.done = true := h.ahead.bye hbye
    rw [he]
    refine enterScheduleWrite_wire callers (.sends out noBye .bye ?_ ⟨?_, h.ahead.fits, ?_⟩ ?_) hio
    · exact .start (inFlight_bye rfl) rfl rfl h.accepted
    · have hsub := h.ahead.sublist
      rw [hb] at hsub
      change (WirePacket.messages out ++ ([] ++ s.buffer.get.2.items)).Sublist sent
      rw [hnil]
      exact hsub
    · exact fun _ => hdone
    · exact fun _ => ⟨hdone, rfl, hnil⟩
  · have hnil : s.buffer.get.2.items = [] := by simp [hb]
    rw [he]
    have hsame := returnFrom_sameOutput false
      { s with currentMessage := none, buffer := s.buffer.get.2, packetWritten := 0,
               packetSize := 0, packetFixedPart := 0 }.finish callers
    by_cases hdone : s.done = true
    · -- BYE is out, or the sender was shut down
      have hend : { s with currentMessage := none, buffer := s.buffer.get.2, packetWritten := 0,
                           packetSize := 0, packetFixedPart := 0 }.finish =
          { s with currentMessage := none, buffer := s.buffer.get.2, packetWritten := 0,
                   packetSize := 0, packetFixedPart := 0, writeWatchId := 0 }.shutdown true := by
        unfold finish
        simp only [if_pos hdone]
      rw [hend] at hsame
      refine .closed ?_ ?_ out ?_
      · change (returnFrom false _ callers).io = none
        rw [hend]
        exact hsame.io
      · change (returnFrom false _ callers).done = true
        rw [hend]
        obtain ⟨_, _, _, _, _, _, hlast⟩ := hsame
        rw [hlast]
        rfl
      · change Written sent out (returnFrom false _ callers)
        rw [hend]
        refine hsame.written ⟨?_, h.written.sublist, h.byeLast, fun _ => rfl⟩
        exact h.written.accepted
    · have hopen : s.done = false := by simpa using hdone
      have noBye : .bye ∉ out := fun hmem => hdone (h.ending hmem).done
      have hend : { s with currentMessage := none, buffer := s.buffer.get.2, packetWritten := 0,
                           packetSize := 0, packetFixedPart := 0 }.finish =
          { s with currentMessage := none, buffer := s.buffer.get.2, packetWritten := 0,
                   packetSize := 0, packetFixedPart := 0, writeWatchId := 0 } := by
        unfold finish
        simp only [if_neg hdone]
      rw [hend] at hsame
      refine .outside ?_ rfl ?_
      · change (returnFrom false _ callers).io.isSome
        rw [hend, hsame.io]
        exact hio
      · change Outside sent (returnFrom false _ callers)
        rw [hend]
        refine hsame.outside (.rest out noBye ⟨rfl, rfl, hnil⟩ hopen h.accepted ?_)
        have hsub := h.ahead.sublist
        rw [hb] at hsub
        exact ⟨hsub, h.ahead.fits, h.ahead.bye⟩

end Calls

/-! ## A closed sender -/

section Closed

variable {s t : DBusLogSender}

theorem writeUpTo_closed (h : s.io = none) (limit : Nat) (buf : List UInt8) :
    (s.writeUpTo limit buf).2.accepted = s.accepted ∧ (s.writeUpTo limit buf).2.io = none := by
  unfold writeUpTo writeChars
  rw [h]
  exact ⟨rfl, h⟩

/-- Nothing is written to a closed channel. -/
theorem writePacket_closed {r : WriteOutcome} (h : s.io = none) (hp : s.writePacket = (r, t)) :
    t.accepted = s.accepted := by
  have hdata : ∀ u : DBusLogSender, u.io = none → u.writeMessageData.2.accepted = u.accepted := by
    intro u hu
    unfold writeMessageData
    split
    · exact (writeUpTo_closed hu _ _).1
    · rfl
  have hfixed : s.writeFixedPart.2.accepted = s.accepted ∧ s.writeFixedPart.2.io = none := by
    unfold writeFixedPart
    split
    · exact writeUpTo_closed h _ _
    · exact ⟨rfl, h⟩
  unfold writePacket at hp
  split at hp
  · obtain ⟨haccepted, hio⟩ := hfixed
    split at hp
    all_goals
      next he =>
        rw [he] at haccepted hio
        first
        | cases hp
          exact haccepted
        | have hlast := hdata _ hio
          rw [hp] at hlast
          exact hlast.trans haccepted
  · cases hp
    rfl

theorem SameOutput.same (h : SameOutput s t) : t.accepted = s.accepted ∧ t.done = s.done := by
  obtain ⟨_, _, _, _, _, _, rfl⟩ := h
  exact ⟨rfl, rfl⟩

/-- Once the channel has been closed the pipe takes nothing more. -/
theorem step_silent {c c' : Thread} {a : Action} (h : c.sender.io = none)
    (hdone : c.sender.done = true) (ht : step c a = some c') :
    c'.sender.accepted = c.sender.accepted ∧ c'.sender.done = true := by
  have hsend : ∀ msg, c.sender.sendLocked msg = (false, c.sender) := fun _ => if_pos hdone
  have henter : ∀ (s : DBusLogSender) callers, s.done = true →
      (enterScheduleWrite s callers).sender.accepted = s.accepted ∧
        (enterScheduleWrite s callers).sender.done = true := fun s callers hs => by
    have hsame := (enterScheduleWrite_sameOutput s callers).same
    exact ⟨hsame.1, hsame.2.trans hs⟩
  have hreturn : ∀ more (s : DBusLogSender) callers, s.done = true →
      (returnFrom more s callers).accepted = s.accepted ∧
        (returnFrom more s callers).done = true := fun more s callers hs => by
    have hsame := (returnFrom_sameOutput more s callers).same
    exact ⟨hsame.1, hsame.2.trans hs⟩
  unfold step at ht
  split at ht
  · next msg =>
    cases ht
    have he : c.sender.sendFromWorker msg = c.sender := by
      unfold sendFromWorker
      rw [hsend]
    change (c.sender.sendFromWorker msg).accepted = _ ∧ (c.sender.sendFromWorker msg).done = true
    rw [he]
    exact ⟨rfl, hdone⟩
  · cases ht
    rw [hsend]
    exact ⟨rfl, hdone⟩
  · obtain ⟨_, he⟩ := Option.ite_none_right_eq_some.mp ht
    cases he
    split
    · exact henter _ [] hdone
    · exact ⟨rfl, hdone⟩
  · cases ht
    have he : c.sender.closeLocked = (false, c.sender) := if_pos hdone
    rw [he]
    exact ⟨rfl, hdone⟩
  · cases ht
    exact ⟨rfl, rfl⟩
  · obtain ⟨_, he⟩ := Option.ite_none_right_eq_some.mp ht
    cases he
    exact henter _ [] hdone
  · obtain ⟨_, he⟩ := Option.ite_none_right_eq_some.mp ht
    cases he
    split
    · exact ⟨rfl, hdone⟩
    · exact ⟨rfl, rfl⟩
  · next callers answers _ =>
    cases ht
    unfold io
    split
    all_goals
      next t hp =>
        have haccepted := writePacket_closed (s := { c.sender with answers := answers }) h hp
        obtain ⟨_, _, _, hframe⟩ := writePacket_frame hp
        have htdone : t.done = true := by rw [hframe]; exact hdone
        first
        | exact ⟨haccepted, htdone⟩
        | have hlast := hreturn true t callers htdone
          exact ⟨hlast.1.trans haccepted, hlast.2⟩
        | have hlast := hreturn false t.fail callers rfl
          exact ⟨hlast.1.trans haccepted, hlast.2⟩
  · next callers _ _ =>
    cases ht
    unfold locked
    split
    · next u hn =>
      obtain ⟨_, _, _, _, hframe⟩ := nextPacket_frame hn
      have hlast := henter u callers (by rw [hframe]; exact hdone)
      exact ⟨hlast.1.trans (by rw [hframe]), hlast.2⟩
    · next u hn =>
      obtain ⟨_, _, _, _, hframe⟩ := nextPacket_frame hn
      have hfinish : u.finish.accepted = c.sender.accepted ∧ u.finish.done = true := by
        rw [hframe]
        unfold finish
        simp only [if_pos hdone]
        exact ⟨rfl, rfl⟩
      have hlast := hreturn false u.finish callers hfinish.2
      exact ⟨hlast.1.trans hfinish.1, hlast.2⟩
  · cases ht

end Closed

/-! ## Steps -/

/-- A message that is taken fits its packet. -/
def FitsWhenOpen (c : Thread) (a : Action) : Prop :=
  c.sender.done = false → ∀ m ∈ a.message?, m.Fits

instance (c : Thread) (a : Action) : Decidable (FitsWhenOpen c a) :=
  inferInstanceAs (Decidable (_ → ∀ m ∈ a.message?, m.Fits))

section Steps

variable {sent : List DBusLogMessage} {c c' : Thread}

theorem recordSent_of_none {a : Action} (h : a.message? = none) :
    recordSent c a sent = sent := by
  unfold recordSent
  rw [h]
  split
  · rfl
  · exact List.append_nil _

theorem sendFromWorker_sameOutput (s : DBusLogSender) (msg : DBusLogMessage) :
    SameOutput (s.sendLocked msg).2 (s.sendFromWorker msg) := by
  unfold sendFromWorker
  split
  next he =>
    rw [he]
    exact ⟨_, _, _, _, _, _, rfl⟩
  next he =>
    rw [he]
    exact SameOutput.refl _

/-- A send of the main thread. -/
theorem send_wire {s : DBusLogSender} {msg : DBusLogMessage} (h : Outside sent s)
    (hio : s.io.isSome) (hfits : s.done = false → msg.Fits) :
    WireInv (recordSent ⟨s, .idle⟩ (.send msg) sent) (enterLocked (s.sendLocked msg)) := by
  by_cases hdone : s.done = true
  · have he : s.sendLocked msg = (false, s) := if_pos hdone
    rw [he, recordSent, if_pos hdone]
    exact .outside hio rfl h
  · have hopen : s.done = false := by simpa using hdone
    have hsent := h.sendLocked hopen (hfits hopen)
    have hio' := sendLocked_io s msg
    rw [recordSent, if_neg hdone]
    cases hl : s.sendLocked msg with
    | mk more t =>
      rw [hl] at hsent hio'
      have htio : t.io.isSome := by rw [hio']; exact hio
      cases more with
      | true => exact enterScheduleWrite_wire [] hsent htio
      | false => exact .outside htio rfl hsent

/-- A worker's send, wherever the main thread is. -/
theorem workerSend_wire {msg : DBusLogMessage} (h : WireInv sent c)
    (hfits : c.sender.done = false → msg.Fits) :
    WireInv (recordSent c (.workerSend msg) sent)
      { c with sender := c.sender.sendFromWorker msg } := by
  have hsame := sendFromWorker_sameOutput c.sender msg
  have hio' := sendFromWorker_io c.sender msg
  by_cases hdone : c.sender.done = true
  · have he : c.sender.sendFromWorker msg = c.sender := by
      unfold sendFromWorker
      rw [show c.sender.sendLocked msg = (false, c.sender) from if_pos hdone]
    rw [he, recordSent, if_pos hdone]
    exact h
  · have hopen : c.sender.done = false := by simpa using hdone
    rw [recordSent, if_neg hdone]
    cases h with
    | closed _ hclosed _ _ => exact absurd hclosed hdone
    | outside hio hc h =>
      refine .outside (by rw [hio']; exact hio) hc (hsame.outside ?_)
      exact h.sendLocked hopen (hfits hopen)
    | inside hio hc out h =>
      refine .inside (by rw [hio']; exact hio) hc out (hsame.inside ?_)
      exact h.sendLocked hopen (hfits hopen)

/-- The step lemma. -/
theorem WireInv.step {a : Action} (h : WireInv sent c) (hfits : FitsWhenOpen c a)
    (ht : step c a = some c') : WireInv (recordSent c a sent) c' := by
  cases h with
  | closed hio hdone ps hwritten =>
    obtain ⟨haccepted, hdone'⟩ := step_silent hio hdone ht
    rw [recordSent, if_pos hdone]
    refine .closed (step_closed hio ht) hdone' ps ⟨?_, hwritten.sublist, hwritten.byeLast,
      fun _ => hdone'⟩
    rw [haccepted]
    exact hwritten.accepted
  | outside hio hc h =>
    obtain ⟨s, control⟩ := c
    cases a with
    | workerSend msg =>
      have he : c' = { sender := s.sendFromWorker msg, control := control } := by
        cases control <;> exact (Option.some.inj ht).symm
      rw [he]
      exact workerSend_wire (.outside hio hc h) fun hopen => hfits hopen msg rfl
    | send msg =>
      cases control with
      | idle =>
        cases ht
        exact send_wire h hio fun hopen => hfits hopen msg rfl
      | _ => cases ht
    | ping =>
      rw [recordSent_of_none rfl]
      cases control with
      | idle =>
        obtain ⟨hidle, he⟩ := Option.ite_none_right_eq_some.mp ht
        cases he
        by_cases hping : s.canPing = true
        · simp only [if_pos hping]
          exact enterScheduleWrite_wire [] (h.ping hidle) hio
        · simp only [if_neg hping]
          exact .outside hio rfl h
      | _ => cases ht
    | close bye =>
      rw [recordSent_of_none rfl]
      cases control with
      | idle =>
        cases ht
        have hclose := h.close
        have hio' := closeLocked_io s
        cases hl : s.closeLocked with
        | mk more t =>
          rw [hl] at hclose hio'
          have htio : t.io.isSome := by rw [hio']; exact hio
          cases more with
          | true => exact enterScheduleWrite_wire [] hclose htio
          | false => exact .outside htio rfl hclose
      | _ => cases ht
    | shutdown flush =>
      rw [recordSent_of_none rfl]
      cases control with
      | idle =>
        cases ht
        obtain ⟨ps, hwritten⟩ := h.written
        exact .closed rfl rfl ps ⟨hwritten.accepted, hwritten.sublist, hwritten.byeLast, fun _ => rfl⟩
      | _ => cases ht
    | callback =>
      rw [recordSent_of_none rfl]
      cases control with
      | idle =>
        obtain ⟨_, he⟩ := Option.ite_none_right_eq_some.mp ht
        cases he
        exact enterScheduleWrite_wire [] (SameOutput.outside ⟨_, _, _, _, _, _, rfl⟩ h) hio
      | _ => cases ht
    | watch id out =>
      rw [recordSent_of_none rfl]
      cases control with
      | idle =>
        obtain ⟨_, he⟩ := Option.ite_none_right_eq_some.mp ht
        cases he
        by_cases hout : out = true
        · rw [if_pos hout]
          exact .outside hio rfl h
        · rw [if_neg hout]
          obtain ⟨ps, hwritten⟩ := h.written
          exact .closed rfl rfl ps
            ⟨hwritten.accepted, hwritten.sublist, hwritten.byeLast, fun _ => rfl⟩
      | _ => cases ht
    | io answers =>
      rw [recordSent_of_none rfl]
      cases control with
      | writing callers =>
        cases ht
        have hsame : SameOutput s { s with answers := answers } := ⟨_, _, _, _, _, _, rfl⟩
        exact io_wire (hsame.outside h) hio callers
      | _ => cases ht
    | locked =>
      cases control with
      | between callers finished => cases hc
      | _ => cases ht
  | inside hio hc out h =>
    obtain ⟨s, control⟩ := c
    cases control with
    | between callers finished =>
      cases a with
      | workerSend msg =>
        cases ht
        exact workerSend_wire (.inside hio hc out h) fun hopen => hfits hopen msg rfl
      | locked =>
        cases ht
        rw [recordSent_of_none rfl]
        exact locked_wire h hio callers
      | _ => cases ht
    | _ => cases hc

end Steps

/-! ## Runs -/

section Run

variable {name : String} {backlog : Int32} {readfd writefd : Nat} {actions : List Action}
  {c : Thread}

theorem new_wire (name : String) (backlog : Int32) (readfd writefd : Nat) :
    WireInv [] (new name backlog readfd writefd) :=
  .outside rfl rfl (.rest [] List.not_mem_nil ⟨rfl, rfl, rfl⟩ rfl rfl
    ⟨List.Sublist.refl _, fun _ hm => (nomatch hm), fun hbye => (nomatch hbye)⟩)

theorem run_wire (hfits : Runs.Meets step FitsWhenOpen (new name backlog readfd writefd) actions)
    (hrun : run (new name backlog readfd writefd) actions = some c) :
    WireInv (sentMessages (new name backlog readfd writefd) actions) c :=
  Runs.history_invariant (f := recordSent) (P := fun c sent => WireInv sent c)
    (fun _ _ _ _ h hc hs => h.step hc hs) hfits hrun (new_wire name backlog readfd writefd)

theorem WireInv.written {sent : List DBusLogMessage} (h : WireInv sent c) :
    ∃ ps, Written sent ps c.sender := by
  cases h with
  | closed _ _ ps h => exact ⟨ps, h⟩
  | outside _ _ h => exact h.written
  | inside _ _ out h => exact ⟨out, h.written⟩

/-- In every interleaving of worker sends with the calls of the main thread and with the halves of
`write`, the pipe has taken the beginning of a stream of complete packets. Its messages are some of
those that have been sent, in the order of the sends; BYE comes last, and only after a close. -/
theorem wireSafe (hfits : Runs.Meets step FitsWhenOpen (new name backlog readfd writefd) actions)
    (hrun : run (new name backlog readfd writefd) actions = some c) :
    ∃ ps, c.sender.accepted <+: WirePacket.encodeAll ps ∧
      (WirePacket.messages ps).Sublist
        (sentMessages (new name backlog readfd writefd) actions) ∧
      .bye ∉ ps.dropLast ∧ (.bye ∈ ps → c.sender.done = true) := by
  obtain ⟨ps, h⟩ := (run_wire hfits hrun).written
  exact ⟨ps, h.accepted, h.sublist, h.byeLast, h.ending⟩

/-- A worker's message takes the place of one that is out, and is lost; a third one is cut. -/
theorem wireSafe_run : ∃ c, run (new "peer" 0 3 4) [.send (.new (some [104])),
      .io [.accept 22, .accept 1], .workerSend (.new (some [105])), .locked,
      .send (.new (some [106])), .io [.accept 22, .accept 0]] = some c ∧
    c.sender.accepted.length = 45 ∧ ∃ ps, c.sender.accepted <+: WirePacket.encodeAll ps := by
  obtain ⟨c, hc, hlength⟩ := Option.map_eq_some_iff.mp (by decide : (run (new "peer" 0 3 4)
    [.send (.new (some [104])), .io [.accept 22, .accept 1], .workerSend (.new (some [105])),
      .locked, .send (.new (some [106])), .io [.accept 22, .accept 0]]).map
      (fun c => c.sender.accepted.length) = some 45)
  obtain ⟨ps, hps, _⟩ := @wireSafe "peer" 0 3 4 _ c (by decide) hc
  exact ⟨c, hc, hlength, ps, hps⟩

/-! ## The other end of the pipe -/

/-- A message that is taken arrives as it is. -/
def SendableWhenOpen (c : Thread) (a : Action) : Prop :=
  c.sender.done = false → ∀ m ∈ a.message?, m.Sendable

instance (c : Thread) (a : Action) : Decidable (SendableWhenOpen c a) :=
  inferInstanceAs (Decidable (_ → ∀ m ∈ a.message?, m.Sendable))

theorem fits_of_sendable {c : Thread}
    (h : Runs.Meets step SendableWhenOpen c actions) : Runs.Meets step FitsWhenOpen c actions := by
  induction actions generalizing c with
  | nil => trivial
  | cons a actions ih =>
    exact ⟨fun hopen m hm => (h.1 hopen m hm).1, fun c' hs => ih (h.2 c' hs)⟩

theorem sent_sendable
    (h : Runs.Meets step SendableWhenOpen (new name backlog readfd writefd) actions)
    (hrun : run (new name backlog readfd writefd) actions = some c) :
    ∀ m ∈ sentMessages (new name backlog readfd writefd) actions, m.Sendable := by
  refine Runs.history_invariant (f := recordSent) (P := fun _ sent => ∀ m ∈ sent, m.Sendable)
    (fun c a _ sent hsent hc _ m hm => ?_) h hrun (fun _ hm => nomatch hm)
  unfold recordSent at hm
  split at hm
  · exact hsent m hm
  · next hdone =>
    obtain hm | hm := List.mem_append.mp hm
    · exact hsent m hm
    · exact hc (by simpa using hdone) m (Option.mem_toList.mp hm)

/-- A stream in which BYE comes last, with a BYE at its end in any case. -/
theorem byeLast_split {ps : List WirePacket} (h : ByeLast ps) :
    ∃ qs, .bye ∉ qs ∧ WirePacket.messages qs = WirePacket.messages ps ∧
      (ps = qs ∨ ps = qs ++ [.bye]) := by
  obtain rfl | ⟨qs, p, rfl⟩ := List.eq_nil_or_concat ps
  · exact ⟨[], List.not_mem_nil, rfl, .inl rfl⟩
  · rw [List.concat_eq_append] at h ⊢
    unfold ByeLast at h
    rw [List.dropLast_concat] at h
    by_cases hp : p = .bye
    · subst hp
      exact ⟨qs, h, by simp, .inr rfl⟩
    · refine ⟨qs ++ [p], fun hmem => ?_, rfl, .inl rfl⟩
      obtain hmem | hmem := List.mem_append.mp hmem
      · exact h hmem
      · exact hp (List.mem_singleton.mp hmem).symm

/-- Under every interleaving of worker sends with the main thread, however far the receiver has
read what the pipe has taken, and however that was cut: the receiver has not faulted, the messages
that it has emitted are some of those that have been sent, unchanged and in the order of the
sends, and it has closed only if the sender has been closed. -/
theorem interleavedDelivery
    (hsendable : Runs.Meets step SendableWhenOpen (new name backlog readfd writefd) actions)
    (hrun : run (new name backlog readfd writefd) actions = some c) (fd : Nat) (doClose : Bool)
    {chunks : List (List UInt8)} (hchunks : chunks.flatten <+: c.sender.accepted) (n : Nat) :
    let r := (DBusLogReceiver.dispatch ReceiverHandlers.passive)^[n]
      (DBusLogReceiver.new fd doClose (chunks.map .data))
    r.faulted = false ∧
      ((r.events.filterMap ReceiverEvent.message?).map (·.content)).Sublist
        ((sentMessages (new name backlog readfd writefd) actions).map (·.content)) ∧
      (.closed ∈ r.events → c.sender.done = true) := by
  intro r
  obtain ⟨ps, hps⟩ := (run_wire (fits_of_sendable hsendable) hrun).written
  obtain ⟨qs, hbye, hmessages, hcases⟩ := byeLast_split hps.byeLast
  have hsub := hps.sublist
  rw [← hmessages] at hsub
  have hall : ∀ m ∈ WirePacket.messages qs, m.Sendable :=
    fun m hm => sent_sendable hsendable hrun m (hsub.subset hm)
  have hwhole : WirePacket.encodeAll ps <+: WirePacket.encodeAll (qs ++ [.bye]) := by
    obtain rfl | rfl := hcases
    · rw [WirePacket.encodeAll_append]
      exact List.prefix_append _ _
    · exact List.prefix_rfl
  have hread := (hchunks.trans hps.accepted).trans hwhole
  obtain ⟨hintact, hevents, hclosed⟩ := DBusLogReceiver.truncated_events hbye
    (fun m hm => (hall m hm).1) fd doClose hread n
  refine ⟨hintact, ?_, fun hmem => ?_⟩
  · have hemitted := List.Sublist.filterMap ReceiverEvent.message? hevents.sublist
    rw [List.filterMap_append, ReceiverEvent.announceAll_messages] at hemitted
    have hcontents := hemitted.map (·.content)
    have hreceived : (WirePacket.messages qs).map (fun m => m.received.content) =
        (WirePacket.messages qs).map (·.content) :=
      List.map_congr_left fun m hm => DBusLogMessage.content_received (hall m hm)
    refine hcontents.trans ?_
    rw [show [ReceiverEvent.closed].filterMap ReceiverEvent.message? = [] from rfl,
      List.append_nil, List.map_map]
    change ((WirePacket.messages qs).map fun m => m.received.content).Sublist _
    rw [hreceived]
    exact hsub.map _
  · -- all of the stream has come, BYE included
    obtain rfl | rfl := hcases
    · exfalso
      have hlength := (hchunks.trans hps.accepted).length_le
      rw [hclosed hmem, WirePacket.encodeAll_append, List.length_append] at hlength
      simp at hlength
    · exact hps.ending (List.mem_append_right _ List.mem_cons_self)

/-- What the receiver makes of the run with the lost message, the third message being cut. -/
theorem interleavedDelivery_run : ∃ c, run (new "peer" 0 3 4) [.send (.new (some [104])),
      .io [.accept 22, .accept 1], .workerSend (.new (some [105])), .locked,
      .send (.new (some [106])), .io [.accept 22, .accept 0]] = some c ∧
    let r := (DBusLogReceiver.dispatch ReceiverHandlers.passive)^[9]
      (DBusLogReceiver.new 3 true ([c.sender.accepted].map .data))
    r.events = [.message (.received (.new (some [104])))] ∧ r.faulted = false := by
  obtain ⟨c, hc, hevents⟩ := Option.map_eq_some_iff.mp (by decide : (run (new "peer" 0 3 4)
    [.send (.new (some [104])), .io [.accept 22, .accept 1], .workerSend (.new (some [105])),
      .locked, .send (.new (some [106])), .io [.accept 22, .accept 0]]).map
      (fun c => ((DBusLogReceiver.dispatch ReceiverHandlers.passive)^[9]
        (DBusLogReceiver.new 3 true ([c.sender.accepted].map .data))).events) =
      some [.message (.received (.new (some [104])))])
  exact ⟨c, hc, hevents, (@interleavedDelivery "peer" 0 3 4 _ c (by decide) hc 3 true
    [c.sender.accepted] ⟨[], by rw [List.append_nil, List.flatten_singleton]⟩ 9).1⟩

end Run

end Thread

end DBusLog

import DBusLog.Sender.System

/-!
# The life of a sender

Whatever is called on a sender, it only moves forward: it keeps its name, a sender that is done
stays done, and its channel is there or has been shut down once and for all. A channel that
refuses the first write of a call is gone after the call.
-/

namespace DBusLog

/-- The answers of the channel during a step. -/
def SenderStep.answers? : SenderStep → Option (List WriteAnswer)
  | .send _ answers | .ping answers | .close _ answers | .callback answers
  | .watch _ _ answers => some answers
  | .workerSend _ | .shutdown _ => none

namespace DBusLogSender

/-- The channel is as it was, or it has been shut down. -/
inductive ChannelLater (s t : DBusLogSender) : Prop
  | kept (io : t.io = s.io) (signals : t.closedSignals = s.closedSignals)
  | closed (was : s.io.isSome) (io : t.io = none) (done : t.done = true) (readfd : t.readfd = none)
    (signals : t.closedSignals = s.closedSignals + 1)

/-- What holds of a sender after any change. -/
structure Onward (s t : DBusLogSender) : Prop where
  name : t.name = s.name
  done : s.done = true → t.done = true
  readfd : t.readfd = s.readfd ∨ t.readfd = none
  channel : ChannelLater s t

/-- What holds of a sender after a call, if the channel answers as `s` says. -/
structure Later (s t : DBusLogSender) : Prop extends Onward s t where
  refused : s.answers.head? = some .error → t.answers = s.answers ∨ t.io = none

section Later

variable {s t u : DBusLogSender}

/-- Once the channel is gone it stays away. -/
theorem ChannelLater.gone (h : ChannelLater s t) (hio : s.io = none) : t.io = none := by
  obtain ⟨hsame, _⟩ | ⟨_, hgone, _, _, _⟩ := h
  · exact hsame.trans hio
  · exact hgone

theorem ChannelLater.trans (h : ChannelLater s t) (h' : ChannelLater t u)
    (hdone : t.done = true → u.done = true) (hreadfd : u.readfd = t.readfd ∨ u.readfd = none) :
    ChannelLater s u := by
  obtain ⟨hio, hsignals⟩ | ⟨hwas, hgone, hclosed, hnofd, hsignals⟩ := h
  · obtain ⟨hio', hsignals'⟩ | ⟨hwas', hgone', hclosed', hnofd', hsignals'⟩ := h'
    · exact .kept (hio'.trans hio) (hsignals'.trans hsignals)
    · exact .closed (hio ▸ hwas') hgone' hclosed' hnofd' (hsignals ▸ hsignals')
  · obtain ⟨hio', hsignals'⟩ | ⟨hwas', _, _, _, _⟩ := h'
    · refine .closed hwas (hio'.trans hgone) (hdone hclosed) ?_ (hsignals'.trans hsignals)
      obtain hsame | hnone := hreadfd
      · exact hsame.trans hnofd
      · exact hnone
    · rw [hgone] at hwas'
      cases hwas'

theorem Onward.refl (s : DBusLogSender) : Onward s s := ⟨rfl, id, .inl rfl, .kept rfl rfl⟩

theorem Onward.trans (h : Onward s t) (h' : Onward t u) : Onward s u where
  name := h'.name.trans h.name
  done hdone := h'.done (h.done hdone)
  readfd := by
    obtain hsame | hnone := h'.readfd
    · rw [hsame]
      exact h.readfd
    · exact .inr hnone
  channel := h.channel.trans h'.channel h'.done h'.readfd

/-- A change of fields that are not about the life of the sender. -/
theorem Onward.of_frame (hname : t.name = s.name) (hdone : t.done = s.done)
    (hreadfd : t.readfd = s.readfd) (hio : t.io = s.io)
    (hsignals : t.closedSignals = s.closedSignals) : Onward s t :=
  ⟨hname, fun h => hdone.trans h, .inl hreadfd, .kept hio hsignals⟩

theorem Later.refl (s : DBusLogSender) : Later s s := ⟨Onward.refl s, fun _ => .inl rfl⟩

theorem Later.trans (h : Later s t) (h' : Later t u) : Later s u where
  toOnward := h.toOnward.trans h'.toOnward
  refused herror := by
    obtain hsame | hgone := h.refused herror
    · rw [← hsame] at herror ⊢
      exact h'.refused herror
    · exact .inr (h'.channel.gone hgone)

theorem Later.of_frame (hname : t.name = s.name) (hdone : t.done = s.done)
    (hreadfd : t.readfd = s.readfd) (hio : t.io = s.io)
    (hsignals : t.closedSignals = s.closedSignals) (hanswers : t.answers = s.answers) :
    Later s t :=
  ⟨.of_frame hname hdone hreadfd hio hsignals, fun _ => .inl hanswers⟩

/-- A call on a sender that has been given its answers. -/
theorem Later.onward {answers : List WriteAnswer} (h : Later { s with answers := answers } t) :
    Onward s t :=
  (Onward.of_frame rfl rfl rfl rfl rfl : Onward s { s with answers := answers }).trans h.toOnward

theorem shutdown_later (s : DBusLogSender) (flush : Bool) : Later s (s.shutdown flush) where
  name := rfl
  done _ := rfl
  readfd := .inr rfl
  channel := by
    cases hio : s.io with
    | none =>
      refine .kept (by rw [hio]; rfl) ?_
      change (if s.io.isSome then _ else _) = _
      rw [hio]
      rfl
    | some fd =>
      refine .closed (by rw [hio]; rfl) rfl rfl rfl ?_
      change (if s.io.isSome then _ else _) = _
      rw [hio]
      rfl
  refused _ := .inr rfl

theorem addWatch_later (s : DBusLogSender) : Later s s.addWatch := by
  obtain ⟨_, _, _, _, he⟩ := addWatch_frame s
  rw [he]
  exact .of_frame rfl rfl rfl rfl rfl rfl

theorem fail_later (s : DBusLogSender) : Later s s.fail :=
  (Later.of_frame rfl rfl rfl rfl rfl rfl : Later s { s with writeWatchId := 0 }).trans
    (shutdown_later _ false)

theorem finish_later (s : DBusLogSender) : Later s s.finish := by
  have hclear : Later s { s with writeWatchId := 0 } := .of_frame rfl rfl rfl rfl rfl rfl
  unfold finish
  by_cases hdone : s.done = true
  · simp only [if_pos hdone]
    exact hclear.trans (shutdown_later _ true)
  · simp only [if_neg hdone]
    exact hclear

theorem nextPacket_later {more : Bool} (h : s.nextPacket = (more, u)) : Later s u := by
  obtain ⟨_, _, _, _, rfl⟩ := nextPacket_frame h
  exact .of_frame rfl rfl rfl rfl rfl rfl

/-- A sender on which a write has failed is shut down at once. -/
def settled : WriteOutcome → DBusLogSender → DBusLogSender
  | .failed, t => t.fail
  | _, t => t

/-- When the next write is refused, no byte is taken. -/
theorem writeChars_refused {buf : List UInt8} {count : Nat} {r : Option Nat}
    (h : s.writeChars buf count = (r, t)) (herror : s.answers.head? = some .error) :
    t.answers = s.answers ∨ r = none := by
  unfold writeChars at h
  split at h
  · cases h
    exact .inl rfl
  · cases h
    exact .inl rfl
  · next hanswers =>
    rw [hanswers] at herror
    cases herror
  · cases h
    exact .inr rfl

theorem writeUpTo_later {limit : Nat} {buf : List UInt8} {r : WriteOutcome}
    (h : s.writeUpTo limit buf = (r, t)) : Later s (settled r t) := by
  unfold writeUpTo at h
  cases hw : s.writeChars buf (limit - s.packetWritten) with
  | mk taken v =>
    have hrefused := writeChars_refused hw
    obtain ⟨answers, accepted, rfl⟩ := writeChars_frame hw
    rw [hw] at h
    cases taken with
    | none =>
      cases h
      have hshut := shutdown_later { s with writeWatchId := 0 } false
      refine ⟨⟨rfl, fun _ => rfl, .inr rfl, ?_⟩, fun _ => .inr rfl⟩
      obtain ⟨hio, hsignals⟩ | ⟨hwas, hgone, hdone, hreadfd, hsignals⟩ := hshut.channel
      · exact .kept hio hsignals
      · exact .closed hwas hgone hdone hreadfd hsignals
    | some n =>
      cases h
      have hmoved : Later s { s with
          answers := answers, accepted := accepted, packetWritten := s.packetWritten + n } := by
        refine ⟨⟨rfl, id, .inl rfl, .kept rfl rfl⟩, fun herror => ?_⟩
        obtain hsame | hnone := hrefused herror
        · exact .inl hsame
        · cases hnone
      by_cases hwait : s.packetWritten + n < limit
      · rw [if_pos hwait]
        exact hmoved
      · rw [if_neg hwait]
        exact hmoved

theorem writePacket_later {r : WriteOutcome} (h : s.writePacket = (r, t)) :
    Later s (settled r t) := by
  have hfixed : ∀ {r t}, s.writeFixedPart = (r, t) → Later s (settled r t) := by
    intro r t h
    unfold writeFixedPart at h
    split at h
    · exact writeUpTo_later h
    · cases h
      exact Later.refl s
  unfold writePacket at h
  split at h
  · split at h
    · next v hv =>
      have hmoved : Later s v := hfixed hv
      refine hmoved.trans ?_
      unfold writeMessageData at h
      split at h
      · exact writeUpTo_later h
      · cases h
        exact Later.refl _
    · next hv =>
      cases h
      exact hfixed hv
    · next hv =>
      cases h
      exact hfixed hv
  · cases h
    exact Later.refl s

theorem write_later (s : DBusLogSender) : Later s s.write.2 := by
  -- the rule carries the state that the outermost call began with
  refine write_rule (P := Later s) (Q := fun _ => Later s) ?_ ?_ ?_ ?_ s (Later.refl s)
  · intro v t hv hp
    exact hv.trans (writePacket_later hp)
  · intro v t hv hp
    exact hv.trans (writePacket_later hp)
  · intro v t u hv hp hn
    exact (hv.trans (writePacket_later hp)).trans ((nextPacket_later hn).trans (finish_later u))
  · intro v t u hv hp hn
    have hu : Later s u := (hv.trans (writePacket_later hp)).trans (nextPacket_later hn)
    split
    · exact ⟨hu, fun v hv => hv.trans (addWatch_later v), fun _ hv => hv⟩
    · exact hu

theorem scheduleWrite_later (s : DBusLogSender) : Later s s.scheduleWrite := by
  rw [scheduleWrite_eq]
  split
  · split
    · exact (write_later s).trans (addWatch_later _)
    · exact write_later s
  · exact Later.refl s

theorem Later.scheduleWrite (h : Later s t) : Later s t.scheduleWrite :=
  h.trans (scheduleWrite_later t)

/-! ## The calls -/

theorem prepareCurrentMessage_later (s : DBusLogSender) : Later s s.prepareCurrentMessage := by
  unfold prepareCurrentMessage
  split
  · exact Later.refl s
  · exact .of_frame rfl rfl rfl rfl rfl rfl

theorem sendLocked_later (s : DBusLogSender) (msg : DBusLogMessage) :
    Later s (s.sendLocked msg).2 := by
  obtain ⟨_, he⟩ | ⟨_, _, he⟩ | ⟨_, _, he⟩ := sendLocked_cases s msg
  · rw [he]
    exact Later.refl s
  · rw [he]
    exact (Later.of_frame rfl rfl rfl rfl rfl rfl :
      Later s { s with currentMessage := some msg }).trans (prepareCurrentMessage_later _)
  · rw [he]
    exact .of_frame rfl rfl rfl rfl rfl rfl

theorem send_later (s : DBusLogSender) (msg : DBusLogMessage) : Later s (s.send msg) := by
  have hlocked := sendLocked_later s msg
  unfold send
  split
  · next he =>
    rw [he] at hlocked
    exact hlocked.trans (scheduleWrite_later _)
  · next he =>
    rw [he] at hlocked
    exact hlocked

theorem sendFromWorker_later (s : DBusLogSender) (msg : DBusLogMessage) :
    Later s (s.sendFromWorker msg) := by
  have hlocked := sendLocked_later s msg
  unfold sendFromWorker
  split
  · next he =>
    rw [he] at hlocked
    exact hlocked.trans (.of_frame rfl rfl rfl rfl rfl rfl)
  · next he =>
    rw [he] at hlocked
    exact hlocked

theorem ping_later (s : DBusLogSender) : Later s s.ping.2 := by
  obtain ⟨_, he⟩ | ⟨_, he⟩ := ping_cases s
  · rw [he]
    refine Later.scheduleWrite ?_
    exact .of_frame rfl rfl rfl rfl rfl rfl
  · rw [he]
    exact Later.refl s

theorem close_later (s : DBusLogSender) (bye : Bool) : Later s (s.close bye) := by
  have hmark : ∀ {t : DBusLogSender}, t.name = s.name → t.done = true → t.readfd = s.readfd →
      t.io = s.io → t.closedSignals = s.closedSignals → t.answers = s.answers → Later s t :=
    fun hname hdone hreadfd hio hsignals hanswers =>
      ⟨⟨hname, fun _ => hdone, .inl hreadfd, .kept hio hsignals⟩, fun _ => .inl hanswers⟩
  unfold close
  obtain ⟨_, he⟩ | ⟨_, _, _, he⟩ | ⟨_, _, he⟩ := closeLocked_cases s
  · rw [he]
    exact Later.refl s
  · rw [he]
    refine Later.scheduleWrite ?_
    exact hmark rfl rfl rfl rfl rfl rfl
  · rw [he]
    exact hmark rfl rfl rfl rfl rfl rfl

/-- After a close the sender takes no more messages. -/
theorem done_of_close (s : DBusLogSender) (bye : Bool) : (s.close bye).done = true := by
  unfold close
  obtain ⟨hdone, he⟩ | ⟨_, _, _, he⟩ | ⟨_, _, he⟩ := closeLocked_cases s
  · rw [he]
    exact hdone
  · rw [he]
    exact (scheduleWrite_later _).done rfl
  · rw [he]

theorem removeSource_later (s : DBusLogSender) (id : Nat) : Later s (s.removeSource id) :=
  .of_frame rfl rfl rfl rfl rfl rfl

theorem writeCallback_later (s : DBusLogSender) (id : Nat) (out : Bool) :
    Later s (s.writeCallback id out) := by
  have hwrite := write_later s
  unfold writeCallback
  split
  · split
    · next he =>
      rw [he] at hwrite
      exact hwrite
    · next he =>
      rw [he] at hwrite
      exact hwrite.trans (removeSource_later _ id)
  · exact (fail_later s).trans (removeSource_later _ id)

/-- Step lemma. The step begins by taking over its answers. -/
theorem step_later {a : SenderStep} (h : s.step a = some t) :
    Later { s with answers := a.answers?.getD s.answers } t := by
  cases a with
  | workerSend msg =>
    cases h
    exact sendFromWorker_later s msg
  | send msg answers =>
    cases h
    exact send_later _ msg
  | ping answers =>
    obtain ⟨_, he⟩ := Option.ite_none_right_eq_some.mp h
    cases he
    exact ping_later _
  | close bye answers =>
    cases h
    exact close_later _ bye
  | shutdown flush =>
    cases h
    exact shutdown_later s flush
  | callback answers =>
    obtain ⟨_, he⟩ := Option.ite_none_right_eq_some.mp h
    cases he
    refine Later.scheduleWrite ?_
    exact .of_frame rfl rfl rfl rfl rfl rfl
  | watch id out answers =>
    obtain ⟨_, he⟩ := Option.ite_none_right_eq_some.mp h
    cases he
    exact writeCallback_later _ id out

end Later

end DBusLogSender

end DBusLog

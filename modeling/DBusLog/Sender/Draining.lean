import DBusLog.Sender.Progress
import DBusLog.Sender.Stream

/-!
# Draining

On the main thread the watch of an open sender is live exactly as long as a packet is unfinished.
Each time that the main loop finds the channel writable, bytes go out, and so a sender is drained
after at most as many of these events as it has bytes left.
-/

namespace DBusLog.DBusLogSender

/-- The watch is recorded exactly as long as a packet is unfinished. -/
def Watched (s : DBusLogSender) : Prop := s.io.isSome → (s.Idle ↔ s.writeWatchId = 0)

/-- The main loop finds the channel writable. -/
def dispatch (s : DBusLogSender) (answers : List WriteAnswer) : DBusLogSender :=
  match s.watches with
  | [] => s
  | id :: _ => { s with answers := answers }.writeCallback id true

/-- The channel takes something, and does not fail. -/
def Productive : List WriteAnswer → Prop
  | .accept n :: answers => 0 < n ∧ .error ∉ answers
  | _ => False

instance : DecidablePred Productive
  | [] | .error :: _ => isFalse id
  | .accept n :: answers => inferInstanceAs (Decidable (0 < n ∧ .error ∉ answers))

/-- The bytes that the channel has not taken yet. -/
def bytesLeft (s : DBusLogSender) (l : Ledger) : Nat :=
  (WirePacket.encodeAll l.packets).length - s.accepted.length

section Watched

variable {s t u : DBusLogSender} {l : Ledger} {clean : Prop}

/-! ## The watch -/

theorem Watched.of_closed (h : s.io = none) : Watched s := by
  intro hio
  rw [h] at hio
  cases hio

theorem finish_watched (hn : t.nextPacket = (false, u)) : Watched u.finish := by
  obtain ⟨_, _, _, he⟩ | ⟨_, _, he⟩ | ⟨_, _, he⟩ := nextPacket_cases t
  · cases he.symm.trans hn
  · cases he.symm.trans hn
  · cases he.symm.trans hn
    unfold finish
    by_cases hdone : t.done = true
    · simp only [if_pos hdone]
      exact .of_closed rfl
    · simp only [if_neg hdone]
      exact fun _ => ⟨fun _ => rfl, fun _ => rfl⟩

/-- The next packet is unfinished. -/
theorem nextPacket_unfinished (hfits : ∀ m ∈ t.buffer.items.head?, m.Fits)
    (hn : t.nextPacket = (true, u)) : ¬u.Idle := by
  have hbusy : ∀ p, InFlight u p → u.packetWritten = 0 → ¬u.Idle := by
    intro p hp hwritten hidle
    have hpos := hp.size_pos
    rw [show u.packetSize = u.packetWritten from hidle, hwritten] at hpos
    exact lt_irrefl _ hpos
  obtain ⟨_, _, _, _, hframe⟩ := nextPacket_frame hn
  have hwritten : u.packetWritten = 0 := by rw [hframe]
  obtain ⟨m, rest, hb, he⟩ | ⟨hb, hbye, he⟩ | ⟨_, _, he⟩ := nextPacket_cases t
  · cases he.symm.trans hn
    have hm : m.Fits := hfits m (by rw [hb]; rfl)
    exact hbusy _ (inFlight_message rfl hm) hwritten
  · cases he.symm.trans hn
    exact hbusy _ (inFlight_bye rfl) hwritten
  · cases he.symm.trans hn

/-- `schedule_write` for a packet with nothing queued behind it. -/
theorem scheduleWrite_watched (hfix : s.packetFixedPart ≤ s.packetSize) (hw : s.writeWatchId = 0)
    (hqueued : s.queued = 0) : Watched s.scheduleWrite := by
  by_cases hio : s.io.isSome
  · cases hp : s.writePacket with
    | mk outcome t =>
      have hlater := writePacket_queued hp
      cases outcome with
      | wait =>
        have hwait := writePacket_wait hfix hp
        obtain ⟨_, _, _, ht⟩ := writePacket_frame hp
        have htio : t.io.isSome := by rw [ht]; exact hio
        rw [scheduleWrite_wait ⟨hio, hw⟩ hp, addWatch_of_open htio]
        refine fun _ => ⟨fun hidle => ?_, fun h0 => absurd h0 (Nat.succ_ne_zero _)⟩
        exact absurd hidle (Nat.ne_of_gt hwait)
      | failed =>
        rw [scheduleWrite_failed ⟨hio, hw⟩ hp]
        exact .of_closed rfl
      | sent =>
        cases hn : t.nextPacket with
        | mk more u =>
          cases more with
          | true =>
            have hnext := nextPacket_queued hn
            omega
          | false =>
            rw [scheduleWrite_stop ⟨hio, hw⟩ hp hn]
            exact finish_watched hn
  · have hnone : s.io = none := by simpa using hio
    exact .of_closed (scheduleWrite_closed hnone)

/-- What a callback finds behind the packet in flight is left to the next one. -/
theorem writeCallback_watched (h : Open s l) (hfits : ∀ m ∈ s.buffer.items, m.Fits)
    (hw : s.writeWatchId ≠ 0) (id : Nat) : Watched (s.writeCallback id true) := by
  unfold writeCallback
  rw [if_pos rfl]
  cases hp : s.writePacket with
  | mk outcome t =>
    obtain ⟨_, _, _, ht⟩ := writePacket_frame hp
    have htw : t.writeWatchId ≠ 0 := by rw [ht]; exact hw
    cases outcome with
    | wait =>
      rw [write_wait hp]
      obtain ⟨hio, _, hquiet | ⟨out, p, hbusy⟩⟩ := h
      · cases hquiet.writePacket.symm.trans hp
      · have hwait := writePacket_wait hbusy.fixed_le hp
        exact fun _ => ⟨fun hidle => absurd hidle (Nat.ne_of_gt hwait), fun h0 => absurd h0 htw⟩
    | failed =>
      rw [write_failed hp]
      exact .of_closed rfl
    | sent =>
      have hhead : ∀ m ∈ t.buffer.items.head?, m.Fits := by
        rw [ht]
        exact fun m hm => hfits m (List.mem_of_mem_head? hm)
      cases hn : t.nextPacket with
      | mk more u =>
        obtain ⟨_, _, _, _, hu⟩ := nextPacket_frame hn
        have huw : u.writeWatchId ≠ 0 := by rw [hu]; exact htw
        cases more with
        | true =>
          rw [write_next hp hn]
          simp only
          rw [scheduleWrite_of_watch huw]
          exact fun _ => ⟨fun hidle => absurd hidle (nextPacket_unfinished hhead hn),
            fun h0 => absurd h0 huw⟩
        | false =>
          rw [write_stop hp hn]
          exact finish_watched hn

theorem queueMessage_watched (h : Watched s) (msg : DBusLogMessage) :
    Watched (s.queueMessage msg) := h

/-- An idle open sender has nothing queued. -/
theorem Watched.queued (h : Watched s) (hw : WatchInv s) (hio : s.io.isSome) (hidle : s.Idle) :
    s.writeWatchId = 0 ∧ s.queued = 0 := by
  have hnone := (h hio).mp hidle
  obtain ⟨hb, hbye⟩ := hw.drained hio hidle hnone
  refine ⟨hnone, ?_⟩
  simp [DBusLogSender.queued, BoundedRing.size_eq, hb, hbye]

/-- A packet is prepared while the sender is idle. -/
theorem Watched.prepared (h : Watched s) (hw : WatchInv s) (hidle : s.Idle)
    (hio : t.io = s.io) (hfix : t.packetFixedPart ≤ t.packetSize)
    (hwatch : t.writeWatchId = s.writeWatchId) (hqueued : t.queued = s.queued) :
    Watched t.scheduleWrite := by
  by_cases hopen : s.io.isSome
  · obtain ⟨hnone, hempty⟩ := h.queued hw hopen hidle
    exact scheduleWrite_watched hfix (hwatch.trans hnone) (hqueued.trans hempty)
  · have hnone : t.io = none := hio.trans (by simpa using hopen)
    exact .of_closed (scheduleWrite_closed hnone)

theorem Watched.send (h : Watched s) (hw : WatchInv s) (msg : DBusLogMessage) :
    Watched (s.send msg) := by
  unfold DBusLogSender.send
  obtain ⟨_, he⟩ | ⟨_, hidle, he⟩ | ⟨_, _, he⟩ := sendLocked_cases s msg
  · rw [he]
    exact h
  · rw [he]
    obtain ⟨packet, hframe⟩ := prepareCurrentMessage_frame
      (s := { s with currentMessage := some msg }) rfl
    refine h.prepared hw hidle ?_ ?_ ?_ ?_
    all_goals rw [hframe]
    · exact Nat.min_le_right _ _
    · rfl
  · rw [he]
    exact queueMessage_watched h msg

theorem Watched.close (h : Watched s) (hw : WatchInv s) (bye : Bool) : Watched (s.close bye) := by
  unfold DBusLogSender.close
  obtain ⟨_, he⟩ | ⟨_, hidle, _, he⟩ | ⟨_, _, he⟩ := closeLocked_cases s
  · rw [he]
    exact h
  · rw [he]
    by_cases hopen : s.io.isSome
    · obtain ⟨hnone, hempty⟩ := h.queued hw hopen hidle
      refine scheduleWrite_watched (Nat.min_le_right _ _) hnone ?_
      have hbye : s.bye = false := (hw.drained hopen hidle hnone).2
      simp only [DBusLogSender.queued, hbye] at hempty ⊢
      exact hempty
    · have hnone : s.io = none := by simpa using hopen
      exact .of_closed (scheduleWrite_closed hnone)
  · rw [he]
    exact h

theorem Watched.step {a : SenderStep} (h : Watched s) (hw : WatchInv s)
    (hinv : StreamInv clean s l) (hfits : ∀ m ∈ s.buffer.items, m.Fits) (hmain : a.OnMainThread)
    (ht : s.step a = some t) : Watched t := by
  have hanswers : ∀ answers, Watched { s with answers := answers } := fun _ => h
  cases a with
  | workerSend msg => cases hmain
  | send msg answers =>
    cases ht
    exact (hanswers answers).send (hw.answers answers) msg
  | ping answers =>
    obtain ⟨hidle, he⟩ := Option.ite_none_right_eq_some.mp ht
    cases he
    obtain ⟨_, hping⟩ | ⟨_, hping⟩ := ping_cases { s with answers := answers }
    · rw [hping]
      exact (hanswers answers).prepared (hw.answers answers) hidle rfl (Nat.min_le_right _ _) rfl rfl
    · rw [hping]
      exact h
  | close bye answers =>
    cases ht
    exact (hanswers answers).close (hw.answers answers) bye
  | shutdown flush =>
    cases ht
    exact .of_closed rfl
  | callback answers => cases hmain
  | watch id out answers =>
    obtain ⟨hid, he⟩ := Option.ite_none_right_eq_some.mp ht
    cases he
    cases out with
    | false => exact .of_closed rfl
    | true =>
      obtain ⟨hio, hrecorded⟩ := hw.live hid
      have hinv := hinv.of_frame s.watches s.lastWatchId s.writeWatchId s.nullWatches answers
      exact writeCallback_watched (hinv.opened hio) hfits hrecorded id

end Watched

/-! ## The bytes -/

section Bytes

variable {s t u : DBusLogSender} {l : Ledger} {answers : List WriteAnswer} {r : WriteOutcome}

theorem writeUpTo_mono {limit : Nat} {buf : List UInt8} (h : s.writeUpTo limit buf = (r, t)) :
    s.packetWritten ≤ t.packetWritten := by
  unfold writeUpTo at h
  obtain ⟨_, _, hw⟩ | ⟨k, _, _, _, hw⟩ := writeChars_cases s buf (limit - s.packetWritten)
  · rw [hw] at h
    cases h
    exact le_rfl
  · rw [hw] at h
    cases h
    exact Nat.le_add_right _ _

theorem writeUpTo_advances {limit n : Nat} {buf : List UInt8} (hio : s.io.isSome)
    (hlt : s.packetWritten < limit) (hn : 0 < n) (ha : s.answers = .accept n :: answers)
    (h : s.writeUpTo limit buf = (r, t)) : s.packetWritten < t.packetWritten := by
  obtain ⟨fd, hfd⟩ := Option.isSome_iff_exists.mp hio
  unfold writeUpTo writeChars at h
  simp only [hfd, ha] at h
  cases h
  change s.packetWritten < s.packetWritten + min n (limit - s.packetWritten)
  omega

theorem writeMessageData_mono (h : s.writeMessageData = (r, t)) :
    s.packetWritten ≤ t.packetWritten := by
  unfold writeMessageData at h
  split at h
  · exact writeUpTo_mono h
  · cases h
    exact le_rfl

/-- The I/O part of `write` gets further if the channel takes something. -/
theorem writePacket_advances {n : Nat} (hio : s.io.isSome) (hlt : s.packetWritten < s.packetSize)
    (hn : 0 < n) (ha : s.answers = .accept n :: answers) (h : s.writePacket = (r, t)) :
    s.packetWritten < t.packetWritten := by
  unfold writePacket at h
  rw [if_pos hlt] at h
  cases hf : s.writeFixedPart with
  | mk r' u =>
    rw [hf] at h
    unfold writeFixedPart at hf
    by_cases hfix : s.packetWritten < s.packetFixedPart
    · rw [if_pos hfix] at hf
      have hfirst := writeUpTo_advances hio hfix hn ha hf
      cases r' with
      | wait =>
        cases h
        exact hfirst
      | failed =>
        cases h
        exact hfirst
      | sent => exact hfirst.trans_le (writeMessageData_mono h)
    · rw [if_neg hfix] at hf
      cases hf
      simp only at h
      unfold writeMessageData at h
      rw [if_pos hlt] at h
      exact writeUpTo_advances hio hlt hn ha h

/-- The accepted bytes of an unfinished packet are counted by `packet_written`. -/
theorem Sending.accepted_length {out : List UInt8} {p : WirePacket} (h : Sending out p s) :
    s.accepted.length = out.length + s.packetWritten := by
  have hle := h.written
  rw [h.size] at hle
  rw [h.accepted, List.length_append, List.length_take, Nat.min_eq_left hle]

theorem writePacket_accepts {n : Nat} {out : List WirePacket} {p : WirePacket}
    (h : Busy s l out p) (hio : s.io.isSome) (hn : 0 < n)
    (ha : s.answers = .accept n :: answers) (hp : s.writePacket = (r, t)) :
    s.accepted.length < t.accepted.length := by
  have hadvances := writePacket_advances hio h.unfinished hn ha hp
  have hmoved := writePacket_moved h.toSending hp
  have hle := hmoved.written
  rw [h.size] at hle
  rw [h.toSending.accepted_length, hmoved.accepted, List.length_append, List.length_take,
    Nat.min_eq_left hle]
  omega

theorem finish_accepted (s : DBusLogSender) : s.finish.accepted = s.accepted := by
  unfold finish
  by_cases hdone : s.done = true
  · simp only [if_pos hdone]
    rfl
  · simp only [if_neg hdone]

/-- The rest of `write` does not touch what the channel has taken. -/
theorem writeCallback_accepted (hw : s.writeWatchId ≠ 0) (id : Nat)
    (hp : s.writePacket = (r, t)) : (s.writeCallback id true).accepted = t.accepted := by
  obtain ⟨_, _, _, ht⟩ := writePacket_frame hp
  unfold writeCallback
  rw [if_pos rfl]
  cases r with
  | wait => rw [write_wait hp]
  | failed =>
    rw [write_failed hp]
    rfl
  | sent =>
    cases hn : t.nextPacket with
    | mk more u =>
      obtain ⟨_, _, _, _, hu⟩ := nextPacket_frame hn
      cases more with
      | true =>
        have huw : u.writeWatchId ≠ 0 := by rw [hu, ht]; exact hw
        rw [write_next hp hn]
        simp only
        rw [scheduleWrite_of_watch huw, hu]
      | false =>
        rw [write_stop hp hn]
        change u.finish.accepted = t.accepted
        rw [finish_accepted, hu]

end Bytes

/-! ## Draining -/

/-- A sender on the main thread whose channel has not failed. -/
structure Flowing (s : DBusLogSender) (l : Ledger) : Prop where
  watches : WatchInv s
  stream : StreamInv True s l
  fits : ∀ m ∈ s.buffer.items, m.Fits
  watched : Watched s

section Flowing

variable {s t : DBusLogSender} {l : Ledger} {answers : List WriteAnswer}

/-- With a packet unfinished the watch is there. -/
theorem Flowing.dispatch_eq {out : List WirePacket} {p : WirePacket} (h : Flowing s l)
    (answers : List WriteAnswer)
    (hio : s.io.isSome) (hbusy : Busy s l out p) :
    s.writeWatchId ≠ 0 ∧ s.step (.watch s.writeWatchId true answers) = some (s.dispatch answers) ∧
      s.dispatch answers = { s with answers := answers }.writeCallback s.writeWatchId true := by
  have hw : s.writeWatchId ≠ 0 := fun h0 =>
    Nat.ne_of_gt hbusy.unfinished ((h.watched hio).mpr h0)
  have hlive : s.watches = [s.writeWatchId] := h.watches.recorded.trans (if_neg hw)
  have hdispatch : s.dispatch answers =
      { s with answers := answers }.writeCallback s.writeWatchId true := by
    unfold dispatch
    rw [hlive]
  refine ⟨hw, ?_, hdispatch⟩
  rw [hdispatch]
  exact if_pos (by rw [hlive]; exact List.mem_singleton_self _)

/-- With everything out there is no watch. -/
theorem Flowing.dispatch_idle (h : Flowing s l) (hidle : s.io.isSome → s.Idle) :
    s.dispatch answers = s := by
  have hnone : s.watches = [] := by
    by_cases hio : s.io.isSome
    · exact h.watches.recorded.trans (if_pos ((h.watched hio).mp (hidle hio)))
    · exact h.watches.closed (by simpa using hio)
  unfold dispatch
  rw [hnone]

/-- One event: the ledger stays right, and bytes go out if there are any. -/
theorem Flowing.dispatch (h : Flowing s l) (hanswers : Productive answers) :
    Flowing (s.dispatch answers) l ∧ (s.dispatch answers).bytesLeft l ≤ s.bytesLeft l - 1 := by
  cases h.stream with
  | quiet hio hsig hquiet =>
    rw [h.dispatch_idle fun _ => hquiet.idle]
    have hnone : s.bytesLeft l = 0 := by
      unfold bytesLeft
      rw [hquiet.accepted, Nat.sub_self]
    exact ⟨h, by rw [hnone]⟩
  | closed hclosed =>
    have hidle : s.io.isSome → s.Idle := by
      intro hio
      rw [hclosed.io] at hio
      cases hio
    rw [h.dispatch_idle hidle]
    have hnone : s.bytesLeft l = 0 := by
      unfold bytesLeft
      rw [(hclosed.finished trivial).2, Nat.sub_self]
    exact ⟨h, by rw [hnone]⟩
  | busy hio hsig out p hbusy =>
    obtain ⟨hw, hstep, he⟩ := h.dispatch_eq answers hio hbusy
    cases answers with
    | nil => cases hanswers
    | cons answer rest =>
      cases answer with
      | error => cases hanswers
      | accept n =>
        obtain ⟨hn, hclean⟩ := hanswers
        have hmain : (SenderStep.watch s.writeWatchId true (.accept n :: rest)).OnMainThread :=
          trivial
        have hclean : (SenderStep.watch s.writeWatchId true (.accept n :: rest)).Clean :=
          ⟨rfl, by simpa using hclean⟩
        have hmessage : ∀ m ∈ (SenderStep.watch s.writeWatchId true (.accept n :: rest)).message?,
            m.Fits := fun _ hm => by cases hm
        refine ⟨⟨h.watches.step (CallbackSafe.of_onMainThread hmain s) hstep, ?_,
          step_fits h.fits hmessage hstep,
          h.watched.step h.watches h.stream h.fits hmain hstep⟩, ?_⟩
        · exact h.stream.step h.watches hmain (preparesFit_of h.fits hmessage) (fun _ => hclean)
            hstep
        · have hbusy' : Busy { s with answers := .accept n :: rest } l out p :=
            ⟨hbusy.toQueue.of_frame rfl rfl rfl,
              ⟨⟨hbusy.size, hbusy.fixed, hbusy.bytes⟩, hbusy.written, hbusy.accepted⟩,
              hbusy.unfinished⟩
          cases hp : { s with answers := .accept n :: rest }.writePacket with
          | mk outcome t =>
            have haccepts := writePacket_accepts hbusy' hio hn rfl hp
            have haccepted := writeCallback_accepted (s := { s with answers := .accept n :: rest })
              hw s.writeWatchId hp
            unfold bytesLeft
            rw [he, haccepted]
            change s.accepted.length < t.accepted.length at haccepts
            omega

theorem Flowing.drain (h : Flowing s l) {events : List (List WriteAnswer)}
    (hevents : ∀ answers ∈ events, Productive answers) :
    Flowing (events.foldl DBusLogSender.dispatch s) l ∧
      (events.foldl DBusLogSender.dispatch s).bytesLeft l ≤ s.bytesLeft l - events.length := by
  induction events generalizing s with
  | nil => exact ⟨h, le_rfl⟩
  | cons answers events ih =>
    obtain ⟨hfirst, hless⟩ := h.dispatch (hevents answers List.mem_cons_self)
    obtain ⟨hlast, hleft⟩ := ih hfirst fun a ha => hevents a (List.mem_cons_of_mem _ ha)
    refine ⟨hlast, ?_⟩
    rw [List.foldl_cons, List.length_cons]
    omega

/-- A sender without bytes left has nothing to do. -/
theorem Flowing.drained (h : Flowing s l) (hleft : s.bytesLeft l = 0) :
    s.accepted = WirePacket.encodeAll l.packets ∧
      if l.closed then s.io = none ∧ s.closedSignals = 1 ∧ s.watches = []
      else s.io.isSome ∧ s.Idle ∧ s.closedSignals = 0 ∧ s.watches = [] := by
  cases h.stream with
  | quiet hio hsig hquiet =>
    rw [if_neg (by rw [hquiet.closed]; exact Bool.false_ne_true)]
    refine ⟨hquiet.accepted, hio, hquiet.idle, hsig, ?_⟩
    exact h.watches.recorded.trans (if_pos ((h.watched hio).mp hquiet.idle))
  | busy hio hsig out p hbusy =>
    exfalso
    have hunfinished := hbusy.unfinished
    have hlength := hbusy.toSending.accepted_length
    have hsize := hbusy.size
    unfold bytesLeft at hleft
    rw [hlength, hbusy.packets] at hleft
    simp only [WirePacket.encodeAll_append, WirePacket.encodeAll_cons, WirePacket.encodeAll_nil,
      List.append_nil, List.length_append] at hleft
    omega
  | closed hclosed =>
    obtain ⟨hl, haccepted⟩ := hclosed.finished trivial
    rw [if_pos hl]
    exact ⟨haccepted, hclosed.io, hclosed.signals, h.watches.closed hclosed.io⟩

end Flowing

section Run

variable {name : String} {backlog : Int32} {readfd writefd : Nat} {steps : List SenderStep}
  {s : DBusLogSender}

theorem run_watched (hsteps : ∀ a ∈ steps, a.OnMainThread ∧ ∀ m ∈ a.message?, m.Fits)
    (hrun : run (new name backlog readfd writefd) steps = some s) :
    WatchInv s ∧ StreamInv False s (ledger (new name backlog readfd writefd) steps) ∧
      (∀ m ∈ s.buffer.items, m.Fits) ∧ Watched s :=
  Runs.history_invariant (f := record) (P := fun s l => WatchInv s ∧ StreamInv False s l ∧
      (∀ m ∈ s.buffer.items, m.Fits) ∧ Watched s)
    (fun s _ _ _ ⟨hw, h, hfits, hwatched⟩ hc hs =>
      ⟨hw.step (CallbackSafe.of_onMainThread hc.1 s) hs,
        h.step hw hc.1 (preparesFit_of hfits hc.2) False.elim hs, step_fits hfits hc.2 hs,
        hwatched.step hw h hfits hc.1 hs⟩)
    (Runs.meets_of_forall hsteps _) hrun
    ⟨.new name backlog readfd writefd, .new False name backlog readfd writefd,
      fun _ hm => absurd hm List.not_mem_nil, fun _ => ⟨fun _ => rfl, fun _ => rfl⟩⟩

/-- A sender is drained after at most as many writability events as it has bytes left: whatever a
run on the main thread has left in an open sender, each event gets some of it out, and when all is
out no watch is live. A sender that has been closed has then closed its channel and emitted CLOSED,
and the last packet was BYE. -/
theorem drains (hmain : ∀ a ∈ steps, a.OnMainThread) (hfits : ∀ a ∈ steps, ∀ m ∈ a.message?, m.Fits)
    (hrun : run (new name backlog readfd writefd) steps = some s) (hio : s.io.isSome)
    {events : List (List WriteAnswer)} (hevents : ∀ answers ∈ events, Productive answers)
    (hlength : s.bytesLeft (ledger (new name backlog readfd writefd) steps) ≤ events.length) :
    let l := ledger (new name backlog readfd writefd) steps
    let t := events.foldl dispatch s
    t.accepted = WirePacket.encodeAll l.packets ∧ l.closed = s.done ∧
      if l.closed then t.io = none ∧ t.closedSignals = 1 ∧ t.watches = []
      else t.io.isSome ∧ t.Idle ∧ t.closedSignals = 0 ∧ t.watches = [] := by
  intro l t
  obtain ⟨hw, hstream, hring, hwatched⟩ := run_watched (fun a ha => ⟨hmain a ha, hfits a ha⟩) hrun
  have hflowing : Flowing s l := ⟨hw, (hstream.opened hio).inv, hring, hwatched⟩
  obtain ⟨hlast, hleft⟩ := hflowing.drain hevents
  have hless : s.bytesLeft l ≤ events.length := hlength
  obtain ⟨haccepted, hend⟩ := hlast.drained (by omega)
  exact ⟨haccepted, hflowing.stream.done.symm, hend⟩

/-- A message of which a part is out, another one and BYE, and a channel that takes a byte at a
time. -/
theorem drains_run : ∃ s, run (new "peer" 0 3 4) [.send (.new (some [104])) [.accept 3],
      .send (.new (some [105])) [], .close true []] = some s ∧ s.accepted.length = 3 ∧
    let t := (List.replicate 48 [WriteAnswer.accept 1]).foldl dispatch s
    t.io = none ∧ t.closedSignals = 1 ∧ t.watches = [] := by
  obtain ⟨s, hs, he⟩ := Option.map_eq_some_iff.mp (by decide : (run (new "peer" 0 3 4)
    [.send (.new (some [104])) [.accept 3], .send (.new (some [105])) [], .close true []]).map
      (fun s => (s.io.isSome, s.done, s.accepted.length)) = some (true, true, 3))
  simp only [Prod.mk.injEq] at he
  obtain ⟨hio, hdone, haccepted⟩ := he
  have hlength : s.bytesLeft (ledger (new "peer" 0 3 4) [.send (.new (some [104])) [.accept 3],
      .send (.new (some [105])) [], .close true []]) = 48 := by
    unfold bytesLeft
    rw [haccepted]
    decide
  obtain ⟨_, hclosed, hend⟩ := @drains "peer" 0 3 4 _ s (by decide) (by decide) hs hio
    (List.replicate 48 [.accept 1])
    (by intro answers h; rw [List.eq_of_mem_replicate h]; decide)
    (by rw [hlength]; exact le_rfl)
  rw [if_pos (hclosed.trans hdone)] at hend
  exact ⟨s, hs, haccepted, hend⟩

end Run

end DBusLog.DBusLogSender

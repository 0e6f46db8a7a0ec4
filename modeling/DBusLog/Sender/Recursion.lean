import DBusLog.Sender.Model

/-!
# The recursion of `write` and `schedule_write` ends

Every nested call of `write` has taken a message out of the ring or has used up the `bye` flag.
One call therefore needs at most one unit of fuel more than there are queued packets, and both
functions are total. The rule `write_rule` is the induction over this recursion, stated once.
-/

namespace DBusLog.DBusLogSender

/-! ## What the parts of `write` change -/

theorem writeChars_frame {s t : DBusLogSender} {buf : List UInt8} {count : Nat} {r : Option Nat}
    (h : s.writeChars buf count = (r, t)) :
    ∃ answers accepted, t = { s with answers := answers, accepted := accepted } := by
  unfold writeChars at h
  split at h <;> cases h <;> exact ⟨_, _, rfl⟩

theorem writeUpTo_frame {s t : DBusLogSender} {limit : Nat} {buf : List UInt8} {r : WriteOutcome}
    (h : s.writeUpTo limit buf = (r, t)) :
    ∃ answers accepted written,
      t = { s with answers := answers, accepted := accepted, packetWritten := written } := by
  unfold writeUpTo at h
  split at h
  all_goals
    next hw =>
      obtain ⟨_, _, rfl⟩ := writeChars_frame hw
      cases h
      exact ⟨_, _, _, rfl⟩

theorem writeFixedPart_frame {s t : DBusLogSender} {r : WriteOutcome}
    (h : s.writeFixedPart = (r, t)) :
    ∃ answers accepted written,
      t = { s with answers := answers, accepted := accepted, packetWritten := written } := by
  unfold writeFixedPart at h
  split at h
  · exact writeUpTo_frame h
  · cases h
    exact ⟨_, _, _, rfl⟩

theorem writeMessageData_frame {s t : DBusLogSender} {r : WriteOutcome}
    (h : s.writeMessageData = (r, t)) :
    ∃ answers accepted written,
      t = { s with answers := answers, accepted := accepted, packetWritten := written } := by
  unfold writeMessageData at h
  split at h
  · exact writeUpTo_frame h
  · cases h
    exact ⟨_, _, _, rfl⟩

/-- The I/O part of `write` only moves bytes. -/
theorem writePacket_frame {s t : DBusLogSender} {r : WriteOutcome} (h : s.writePacket = (r, t)) :
    ∃ answers accepted written,
      t = { s with answers := answers, accepted := accepted, packetWritten := written } := by
  unfold writePacket at h
  split at h
  · split at h
    next hw =>
      obtain ⟨_, _, _, rfl⟩ := writeFixedPart_frame hw
      obtain ⟨_, _, _, rfl⟩ := writeMessageData_frame h
      exact ⟨_, _, _, rfl⟩
    all_goals
      next hw =>
        obtain ⟨_, _, _, rfl⟩ := writeFixedPart_frame hw
        cases h
        exact ⟨_, _, _, rfl⟩
  · cases h
    exact ⟨_, _, _, rfl⟩

theorem prepareCurrentMessage_frame {s : DBusLogSender} {m : DBusLogMessage}
    (h : s.currentMessage = some m) :
    ∃ packet, s.prepareCurrentMessage =
      { s with packet := packet, packetSize := m.wireSize, packetWritten := 0,
               packetFixedPart := min packetMaxFixedPart m.wireSize } := by
  unfold prepareCurrentMessage
  split
  next hnone => cases hnone.symm.trans h
  next msg hmsg =>
    cases hmsg.symm.trans h
    exact ⟨_, rfl⟩

theorem addWatch_closed {s : DBusLogSender} (h : s.io = none) : s.addWatch.io = none := by
  unfold addWatch
  split
  · exact h
  · next fd hfd => cases h.symm.trans hfd

theorem finish_closed {s : DBusLogSender} (h : s.io = none) : s.finish.io = none := by
  unfold finish
  by_cases hdone : s.done = true
  · simp only [if_pos hdone]
    rfl
  · simp only [if_neg hdone]
    exact h

/-- The first shutdown of an open channel emits CLOSED. -/
theorem shutdown_closedSignals {s : DBusLogSender} (h : s.io.isSome) (h0 : s.closedSignals = 0)
    (flush : Bool) : (s.shutdown flush).closedSignals = 1 := by
  change (if s.io.isSome then s.closedSignals + 1 else s.closedSignals) = 1
  rw [if_pos h, h0]

@[simp] theorem prepareCurrentMessage_io (s : DBusLogSender) :
    s.prepareCurrentMessage.io = s.io := by
  unfold prepareCurrentMessage
  split <;> rfl

theorem addWatch_frame (s : DBusLogSender) :
    ∃ watches last id null, s.addWatch = { s with
      watches := watches, lastWatchId := last, writeWatchId := id, nullWatches := null } := by
  unfold addWatch
  split
  · exact ⟨s.watches, s.lastWatchId, 0, s.nullWatches + 1, rfl⟩
  · exact ⟨_, _, _, s.nullWatches, rfl⟩

theorem addWatch_of_open {s : DBusLogSender} (h : s.io.isSome) :
    s.addWatch = { s with watches := (s.lastWatchId + 1) :: s.watches
                          lastWatchId := s.lastWatchId + 1
                          writeWatchId := s.lastWatchId + 1 } := by
  obtain ⟨fd, hfd⟩ := Option.isSome_iff_exists.mp h
  unfold addWatch
  split
  next hnone => cases hfd.symm.trans hnone
  next => rfl

/-- What the locked section of `write` leaves behind, by what was waiting to be sent. -/
theorem nextPacket_cases (s : DBusLogSender) :
    (∃ m rest, s.buffer.items = m :: rest ∧ s.nextPacket =
      (true, { s with currentMessage := some m, buffer := s.buffer.get.2 }.prepareCurrentMessage)) ∨
    (s.buffer.items = [] ∧ s.bye = true ∧ s.nextPacket =
      (true, { s with currentMessage := none, buffer := s.buffer.get.2 }.prepareBye)) ∨
    (s.buffer.items = [] ∧ s.bye = false ∧ s.nextPacket =
      (false, { s with currentMessage := none, buffer := s.buffer.get.2, packetWritten := 0,
                       packetSize := 0, packetFixedPart := 0 })) := by
  cases hb : s.buffer.items with
  | cons m rest =>
    refine .inl ⟨m, rest, rfl, ?_⟩
    simp [nextPacket, BoundedRing.get_fst, hb, prepareCurrentMessage, fillHeader]
  | nil =>
    cases hbye : s.bye with
    | true =>
      refine .inr (.inl ⟨rfl, rfl, ?_⟩)
      simp [nextPacket, BoundedRing.get_fst, hb, hbye, prepareBye, fillHeader]
    | false =>
      refine .inr (.inr ⟨rfl, rfl, ?_⟩)
      simp [nextPacket, BoundedRing.get_fst, hb, hbye]

/-- The locked section of `write` starts a packet or leaves none; it touches neither the channel
nor the watches. -/
theorem nextPacket_frame {s u : DBusLogSender} {more : Bool} (h : s.nextPacket = (more, u)) :
    ∃ bye packet size message, u = { s with
      bye := bye, buffer := s.buffer.get.2, packet := packet, packetSize := size,
      packetFixedPart := min packetMaxFixedPart size, packetWritten := 0,
      currentMessage := message } := by
  rcases nextPacket_cases s with ⟨m, rest, _, he⟩ | ⟨_, _, he⟩ | ⟨_, _, he⟩
  · cases he.symm.trans h
    obtain ⟨packet, hu⟩ := prepareCurrentMessage_frame
      (s := { s with currentMessage := some m, buffer := s.buffer.get.2 }) rfl
    exact ⟨_, packet, m.wireSize, some m, hu⟩
  · cases he.symm.trans h
    exact ⟨false, _, 5, none, rfl⟩
  · cases he.symm.trans h
    exact ⟨s.bye, s.packet, 0, none, rfl⟩

/-! ## Enough fuel -/

/-- The packets that `write` may still have to prepare. -/
def queued (s : DBusLogSender) : Nat := s.buffer.size + if s.bye then 1 else 0

theorem nextPacket_queued {s t : DBusLogSender} (h : s.nextPacket = (true, t)) :
    t.queued + 1 = s.queued := by
  rcases nextPacket_cases s with ⟨m, rest, hb, he⟩ | ⟨hb, hbye, he⟩ | ⟨_, _, he⟩
  · cases he.symm.trans h
    simp [queued, BoundedRing.size_eq, prepareCurrentMessage, fillHeader, hb]
    omega
  · cases he.symm.trans h
    simp [queued, BoundedRing.size_eq, prepareBye, fillHeader, hb, hbye]
  · cases he.symm.trans h

theorem writePacket_queued {s t : DBusLogSender} {r : WriteOutcome} (h : s.writePacket = (r, t)) :
    t.queued = s.queued := by
  obtain ⟨_, _, _, rfl⟩ := writePacket_frame h
  rfl

/-- One nested call for each queued packet, and the first one. -/
theorem writeFuel_isSome {fuel : Nat} {s : DBusLogSender} (h : s.queued < fuel) :
    (writeFuel fuel s).isSome := by
  induction fuel generalizing s with
  | zero => omega
  | succ fuel ih =>
    unfold writeFuel
    split
    · rfl
    · rfl
    · next t hp =>
      split
      · next u hn =>
        have hq := nextPacket_queued hn
        rw [writePacket_queued hp] at hq
        have hu : (writeFuel fuel u).isSome := ih (by omega)
        unfold scheduleWriteWith
        split <;> simp [hu]
      · rfl

theorem queued_lt (s : DBusLogSender) : s.queued < s.buffer.size + 2 := by
  unfold queued
  split <;> omega

/-- `dbus_log_sender_write` -/
def write (s : DBusLogSender) : Bool × DBusLogSender :=
  (writeFuel (s.buffer.size + 2) s).get (writeFuel_isSome s.queued_lt)

theorem scheduleWriteFuel_isSome (s : DBusLogSender) :
    (scheduleWriteFuel (s.buffer.size + 2) s).isSome := by
  unfold scheduleWriteFuel scheduleWriteWith
  split
  · simp [writeFuel_isSome s.queued_lt]
  · rfl

/-- `dbus_log_sender_schedule_write` -/
def scheduleWrite (s : DBusLogSender) : DBusLogSender :=
  (scheduleWriteFuel (s.buffer.size + 2) s).get (scheduleWriteFuel_isSome s)

/-! ## The induction over nested calls -/

/-- The rule for the pair of functions. `P` holds where `write` is entered, `Q` where it returns.
A nested call is made only through an open channel without a recorded watch. -/
theorem writeFuel_rule {P : DBusLogSender → Prop} {Q : Bool → DBusLogSender → Prop}
    (hwait : ∀ s t, P s → s.writePacket = (.wait, t) → Q true t)
    (hfail : ∀ s t, P s → s.writePacket = (.failed, t) → Q false t.fail)
    (hstop : ∀ s t u, P s → s.writePacket = (.sent, t) → t.nextPacket = (false, u) →
      Q false u.finish)
    (hnext : ∀ s t u, P s → s.writePacket = (.sent, t) → t.nextPacket = (true, u) →
      if u.io.isSome ∧ u.writeWatchId = 0 then
        P u ∧ (∀ v, Q true v → Q true v.addWatch) ∧ (∀ v, Q false v → Q true v)
      else Q true u)
    {fuel : Nat} {s t : DBusLogSender} {more : Bool} (h : writeFuel fuel s = some (more, t))
    (hs : P s) : Q more t := by
  induction fuel generalizing s t more with
  | zero => cases h
  | succ fuel ih =>
    unfold writeFuel at h
    split at h
    next t' hp =>
      cases h
      exact hwait s _ hs hp
    next t' hp =>
      cases h
      exact hfail s _ hs hp
    next t' hp =>
      split at h
      next u hn =>
        -- a further write comes from `schedule_write`, and only without a watch
        have hu := hnext s t' u hs hp hn
        unfold scheduleWriteWith at h
        split at h
        next hc =>
          rw [if_pos hc] at hu
          obtain ⟨hPu, hadd, hdrop⟩ := hu
          simp only [Option.map_map, Option.map_eq_some_iff] at h
          obtain ⟨⟨b, v⟩, hv, he⟩ := h
          have hQ := ih hv hPu
          cases b with
          | true =>
            cases he
            exact hadd v hQ
          | false =>
            cases he
            exact hdrop v hQ
        next hc =>
          rw [if_neg hc] at hu
          cases h
          exact hu
      next u hn =>
        cases h
        exact hstop s t' u hs hp hn

theorem writeFuel_write (s : DBusLogSender) :
    writeFuel (s.buffer.size + 2) s = some s.write :=
  (Option.some_get _).symm

theorem scheduleWriteFuel_scheduleWrite (s : DBusLogSender) :
    scheduleWriteFuel (s.buffer.size + 2) s = some s.scheduleWrite :=
  (Option.some_get _).symm

theorem scheduleWriteWith_mono {f g : DBusLogSender → Option (Bool × DBusLogSender)}
    (hfg : ∀ s r, f s = some r → g s = some r) {s t : DBusLogSender}
    (h : s.scheduleWriteWith f = some t) : s.scheduleWriteWith g = some t := by
  unfold scheduleWriteWith at h ⊢
  split at h
  next hc =>
    rw [if_pos hc]
    obtain ⟨r, hr, he⟩ := Option.map_eq_some_iff.mp h
    rw [hfg s r hr, Option.map_some, he]
  next hc => rwa [if_neg hc]

/-- More fuel does not change a result. -/
theorem writeFuel_succ {fuel : Nat} {s : DBusLogSender} {r : Bool × DBusLogSender}
    (h : writeFuel fuel s = some r) : writeFuel (fuel + 1) s = some r := by
  induction fuel generalizing s r with
  | zero => cases h
  | succ fuel ih =>
    rw [writeFuel] at h ⊢
    split at h
    next hp => exact h
    next hp => exact h
    next t hp =>
      split at h
      next u hn =>
        obtain ⟨v, hv, he⟩ := Option.map_eq_some_iff.mp h
        rw [scheduleWriteWith_mono (fun s r => ih) hv, Option.map_some, he]
      next u hn => exact h

theorem writeFuel_mono {n m : Nat} (hnm : n ≤ m) {s : DBusLogSender} {r : Bool × DBusLogSender}
    (h : writeFuel n s = some r) : writeFuel m s = some r := by
  induction hnm with
  | refl => exact h
  | step _ ih => exact writeFuel_succ ih

theorem write_of_writeFuel {fuel : Nat} {s : DBusLogSender} {r : Bool × DBusLogSender}
    (h : writeFuel fuel s = some r) : s.write = r := by
  have h1 := writeFuel_mono (Nat.le_max_left fuel (s.buffer.size + 2)) h
  have h2 := writeFuel_mono (Nat.le_max_right fuel (s.buffer.size + 2)) (writeFuel_write s)
  exact Option.some.inj (h2.symm.trans h1)

/-- `schedule_write` calls `write` exactly when the channel is open and no watch is recorded. -/
theorem scheduleWrite_eq (s : DBusLogSender) :
    s.scheduleWrite =
      if s.io.isSome ∧ s.writeWatchId = 0 then
        if s.write.1 then s.write.2.addWatch else s.write.2
      else s := by
  have h := scheduleWriteFuel_scheduleWrite s
  unfold scheduleWriteFuel scheduleWriteWith at h
  rw [writeFuel_write] at h
  split at h
  next hc =>
    rw [if_pos hc]
    cases hw : s.write with
    | mk more t =>
      rw [hw] at h
      cases more <;> exact (Option.some.inj h).symm
  next hc =>
    rw [if_neg hc]
    exact (Option.some.inj h).symm

theorem scheduleWriteFuel_eq {fuel : Nat} {s t : DBusLogSender}
    (h : scheduleWriteFuel fuel s = some t) : s.scheduleWrite = t := by
  unfold scheduleWriteFuel scheduleWriteWith at h
  rw [scheduleWrite_eq]
  split at h
  next hc =>
    obtain ⟨r, hr, he⟩ := Option.map_eq_some_iff.mp h
    rw [if_pos hc, write_of_writeFuel hr]
    obtain ⟨more, v⟩ := r
    cases more <;> exact he
  next hc =>
    rw [if_neg hc]
    exact Option.some.inj h

/-- `write`, equation for equation as in the source. -/
theorem write_eq (s : DBusLogSender) :
    s.write =
      match s.writePacket with
      | (.wait, t) => (true, t)
      | (.failed, t) => (false, t.fail)
      | (.sent, t) =>
        match t.nextPacket with
        | (true, u) => (true, u.scheduleWrite)
        | (false, u) => (false, u.finish) := by
  have h := writeFuel_write s
  unfold writeFuel at h
  cases hp : s.writePacket with
  | mk out t =>
    rw [hp] at h
    cases out with
    | wait => exact (Option.some.inj h).symm
    | failed => exact (Option.some.inj h).symm
    | sent =>
      dsimp only at h ⊢
      cases hn : t.nextPacket with
      | mk more u =>
        rw [hn] at h
        cases more with
        | true =>
          obtain ⟨v, hv, he⟩ := Option.map_eq_some_iff.mp h
          dsimp only
          rw [← he, scheduleWriteFuel_eq hv]
        | false => exact (Option.some.inj h).symm

theorem write_wait {s t : DBusLogSender} (h : s.writePacket = (.wait, t)) :
    s.write = (true, t) := by
  rw [write_eq, h]

theorem write_failed {s t : DBusLogSender} (h : s.writePacket = (.failed, t)) :
    s.write = (false, t.fail) := by
  rw [write_eq, h]

theorem write_next {s t u : DBusLogSender} (h : s.writePacket = (.sent, t))
    (hn : t.nextPacket = (true, u)) : s.write = (true, u.scheduleWrite) := by
  rw [write_eq, h]
  simp only [hn]

theorem write_stop {s t u : DBusLogSender} (h : s.writePacket = (.sent, t))
    (hn : t.nextPacket = (false, u)) : s.write = (false, u.finish) := by
  rw [write_eq, h]
  simp only [hn]

/-! What `schedule_write` does on an open channel without a recorded watch. -/

section ScheduleWrite

variable {s t u : DBusLogSender}

theorem scheduleWrite_wait (hc : s.io.isSome ∧ s.writeWatchId = 0)
    (h : s.writePacket = (.wait, t)) : s.scheduleWrite = t.addWatch := by
  rw [scheduleWrite_eq, if_pos hc, write_wait h]
  rfl

theorem scheduleWrite_failed (hc : s.io.isSome ∧ s.writeWatchId = 0)
    (h : s.writePacket = (.failed, t)) : s.scheduleWrite = t.fail := by
  rw [scheduleWrite_eq, if_pos hc, write_failed h]
  rfl

theorem scheduleWrite_next (hc : s.io.isSome ∧ s.writeWatchId = 0)
    (h : s.writePacket = (.sent, t)) (hn : t.nextPacket = (true, u)) :
    s.scheduleWrite = u.scheduleWrite.addWatch := by
  rw [scheduleWrite_eq, if_pos hc, write_next h hn]
  rfl

theorem scheduleWrite_stop (hc : s.io.isSome ∧ s.writeWatchId = 0)
    (h : s.writePacket = (.sent, t)) (hn : t.nextPacket = (false, u)) :
    s.scheduleWrite = u.finish := by
  rw [scheduleWrite_eq, if_pos hc, write_stop h hn]
  rfl

end ScheduleWrite

theorem scheduleWrite_of_watch {s : DBusLogSender} (h : s.writeWatchId ≠ 0) :
    s.scheduleWrite = s := by
  rw [scheduleWrite_eq, if_neg fun hc => h hc.2]

theorem scheduleWrite_of_closed {s : DBusLogSender} (h : s.io = none) : s.scheduleWrite = s := by
  rw [scheduleWrite_eq, if_neg]
  rintro ⟨hio, _⟩
  rw [h] at hio
  cases hio

/-- The rule for the pair of functions, for the total `write`. -/
theorem write_rule {P : DBusLogSender → Prop} {Q : Bool → DBusLogSender → Prop}
    (hwait : ∀ s t, P s → s.writePacket = (.wait, t) → Q true t)
    (hfail : ∀ s t, P s → s.writePacket = (.failed, t) → Q false t.fail)
    (hstop : ∀ s t u, P s → s.writePacket = (.sent, t) → t.nextPacket = (false, u) →
      Q false u.finish)
    (hnext : ∀ s t u, P s → s.writePacket = (.sent, t) → t.nextPacket = (true, u) →
      if u.io.isSome ∧ u.writeWatchId = 0 then
        P u ∧ (∀ v, Q true v → Q true v.addWatch) ∧ (∀ v, Q false v → Q true v)
      else Q true u)
    (s : DBusLogSender) (hs : P s) : Q s.write.1 s.write.2 :=
  writeFuel_rule hwait hfail hstop hnext (writeFuel_write s) hs

end DBusLog.DBusLogSender

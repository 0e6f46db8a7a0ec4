import DBusLog.Sender.Lifetime

/-!
# The descriptors of a sender

`dbus_log_sender_shutdown` is the only place where a sender closes anything. Whatever is called,
the descriptors that it has closed and those that it has still to close are the same together.
-/

namespace DBusLog

namespace DBusLogSender

/-- The descriptors that a sender has still to close. -/
def openFds (s : DBusLogSender) : List Nat := s.readfd.toList ++ s.io.toList

/-- `dbus_log_sender_dispose` -/
def dispose (s : DBusLogSender) : DBusLogSender :=
  let s := s.shutdown false
  { s with buffer := BoundedRing.empty s.buffer.maxSize }

/-- Descriptors have been closed, but none has come and none has been given away. -/
structure Conserved (s t : DBusLogSender) : Prop where
  closed : s.closedFds <+: t.closedFds
  total : t.closedFds ++ t.openFds = s.closedFds ++ s.openFds

section Conserved

variable {s t u : DBusLogSender}

theorem Conserved.of_frame (hreadfd : t.readfd = s.readfd) (hio : t.io = s.io)
    (hclosed : t.closedFds = s.closedFds) : Conserved s t where
  closed := hclosed ▸ List.prefix_refl s.closedFds
  total := by rw [openFds, openFds, hreadfd, hio, hclosed]

theorem Conserved.refl (s : DBusLogSender) : Conserved s s := .of_frame rfl rfl rfl

theorem Conserved.trans (h : Conserved s t) (h' : Conserved t u) : Conserved s u :=
  ⟨h.closed.trans h'.closed, h'.total.trans h.total⟩

/-- A sender with nothing to close closes nothing. -/
theorem Conserved.closedFds_eq (h : Conserved s t) (hnone : s.openFds = []) :
    t.openFds = [] ∧ t.closedFds = s.closedFds := by
  have htotal := h.total
  rw [hnone, List.append_nil] at htotal
  have hlength := congrArg List.length htotal
  rw [List.length_append] at hlength
  have hle := h.closed.length_le
  have hempty : t.openFds = [] := List.eq_nil_of_length_eq_zero (by omega)
  rw [hempty, List.append_nil] at htotal
  exact ⟨hempty, htotal⟩

@[simp] theorem openFds_shutdown (s : DBusLogSender) (flush : Bool) :
    (s.shutdown flush).openFds = [] := rfl

theorem closedFds_shutdown (s : DBusLogSender) (flush : Bool) :
    (s.shutdown flush).closedFds = s.closedFds ++ s.openFds := List.append_assoc ..

theorem shutdown_conserved (s : DBusLogSender) (flush : Bool) : Conserved s (s.shutdown flush) where
  closed := ⟨s.openFds, (closedFds_shutdown s flush).symm⟩
  total := by rw [openFds_shutdown, List.append_nil, closedFds_shutdown]

theorem dispose_conserved (s : DBusLogSender) : Conserved s s.dispose :=
  (shutdown_conserved s false).trans (.of_frame rfl rfl rfl)

@[simp] theorem openFds_dispose (s : DBusLogSender) : s.dispose.openFds = [] := rfl

/-! ## Writing -/

theorem addWatch_conserved (s : DBusLogSender) : Conserved s s.addWatch := by
  obtain ⟨_, _, _, _, he⟩ := addWatch_frame s
  rw [he]
  exact .of_frame rfl rfl rfl

theorem fail_conserved (s : DBusLogSender) : Conserved s s.fail :=
  (Conserved.of_frame rfl rfl rfl : Conserved s { s with writeWatchId := 0 }).trans
    (shutdown_conserved _ false)

theorem finish_conserved (s : DBusLogSender) : Conserved s s.finish := by
  have hclear : Conserved s { s with writeWatchId := 0 } := .of_frame rfl rfl rfl
  unfold finish
  by_cases hdone : s.done = true
  · simp only [if_pos hdone]
    exact hclear.trans (shutdown_conserved _ true)
  · simp only [if_neg hdone]
    exact hclear

theorem writePacket_conserved {r : WriteOutcome} (h : s.writePacket = (r, t)) : Conserved s t := by
  obtain ⟨_, _, _, rfl⟩ := writePacket_frame h
  exact .of_frame rfl rfl rfl

theorem nextPacket_conserved {more : Bool} (h : s.nextPacket = (more, u)) : Conserved s u := by
  obtain ⟨_, _, _, _, rfl⟩ := nextPacket_frame h
  exact .of_frame rfl rfl rfl

theorem write_conserved (s : DBusLogSender) : Conserved s s.write.2 := by
  refine write_rule (P := Conserved s) (Q := fun _ => Conserved s) ?_ ?_ ?_ ?_ s (.refl s)
  · intro v t hv hp
    exact hv.trans (writePacket_conserved hp)
  · intro v t hv hp
    exact (hv.trans (writePacket_conserved hp)).trans (fail_conserved t)
  · intro v t u hv hp hn
    exact (hv.trans (writePacket_conserved hp)).trans
      ((nextPacket_conserved hn).trans (finish_conserved u))
  · intro v t u hv hp hn
    have hu := (hv.trans (writePacket_conserved hp)).trans (nextPacket_conserved hn)
    split
    · exact ⟨hu, fun v hv => hv.trans (addWatch_conserved v), fun _ hv => hv⟩
    · exact hu

theorem Conserved.scheduleWrite (h : Conserved s t) : Conserved s t.scheduleWrite := by
  refine h.trans ?_
  rw [scheduleWrite_eq]
  split
  · split
    · exact (write_conserved t).trans (addWatch_conserved _)
    · exact write_conserved t
  · exact .refl t

/-! ## The calls -/

theorem prepareCurrentMessage_conserved (s : DBusLogSender) :
    Conserved s s.prepareCurrentMessage := by
  unfold prepareCurrentMessage
  split
  · exact .refl s
  · exact .of_frame rfl rfl rfl

theorem sendLocked_conserved (s : DBusLogSender) (msg : DBusLogMessage) :
    Conserved s (s.sendLocked msg).2 := by
  obtain ⟨_, he⟩ | ⟨_, _, he⟩ | ⟨_, _, he⟩ := sendLocked_cases s msg
  · rw [he]
    exact .refl s
  · rw [he]
    exact (Conserved.of_frame rfl rfl rfl : Conserved s { s with currentMessage := some msg }).trans
      (prepareCurrentMessage_conserved _)
  · rw [he]
    exact .of_frame rfl rfl rfl

theorem send_conserved (s : DBusLogSender) (msg : DBusLogMessage) : Conserved s (s.send msg) := by
  have hlocked := sendLocked_conserved s msg
  unfold send
  generalize s.sendLocked msg = result at hlocked
  obtain ⟨scheduled, t⟩ := result
  cases scheduled with
  | true => exact hlocked.scheduleWrite
  | false => exact hlocked

theorem sendFromWorker_conserved (s : DBusLogSender) (msg : DBusLogMessage) :
    Conserved s (s.sendFromWorker msg) := by
  have hlocked := sendLocked_conserved s msg
  unfold sendFromWorker
  generalize s.sendLocked msg = result at hlocked
  obtain ⟨scheduled, t⟩ := result
  cases scheduled with
  | true => exact hlocked.trans (.of_frame rfl rfl rfl)
  | false => exact hlocked

theorem ping_conserved (s : DBusLogSender) : Conserved s s.ping.2 := by
  obtain ⟨_, he⟩ | ⟨_, he⟩ := ping_cases s
  · rw [he]
    refine Conserved.scheduleWrite ?_
    exact .of_frame rfl rfl rfl
  · rw [he]
    exact .refl s

theorem close_conserved (s : DBusLogSender) (bye : Bool) : Conserved s (s.close bye) := by
  unfold close
  obtain ⟨_, he⟩ | ⟨_, _, _, he⟩ | ⟨_, _, he⟩ := closeLocked_cases s
  · rw [he]
    exact .refl s
  · rw [he]
    refine Conserved.scheduleWrite ?_
    exact .of_frame rfl rfl rfl
  · rw [he]
    exact .of_frame rfl rfl rfl

theorem writeCallback_conserved (s : DBusLogSender) (id : Nat) (out : Bool) :
    Conserved s (s.writeCallback id out) := by
  have hremove : ∀ t : DBusLogSender, Conserved t (t.removeSource id) :=
    fun _ => .of_frame rfl rfl rfl
  have hwrite := write_conserved s
  unfold writeCallback
  split
  · generalize s.write = result at hwrite
    obtain ⟨more, t⟩ := result
    cases more with
    | true => exact hwrite
    | false => exact hwrite.trans (hremove t)
  · exact (fail_conserved s).trans (hremove _)

/-- Step lemma. -/
theorem step_conserved {a : SenderStep} (h : s.step a = some t) : Conserved s t := by
  -- the step begins by taking over its answers
  have htake : ∀ answers, Conserved s { s with answers := answers } :=
    fun _ => .of_frame rfl rfl rfl
  cases a with
  | workerSend msg =>
    cases h
    exact sendFromWorker_conserved s msg
  | send msg answers =>
    cases h
    exact (htake answers).trans (send_conserved _ msg)
  | ping answers =>
    obtain ⟨_, he⟩ := Option.ite_none_right_eq_some.mp h
    cases he
    exact (htake answers).trans (ping_conserved _)
  | close bye answers =>
    cases h
    exact (htake answers).trans (close_conserved _ bye)
  | shutdown flush =>
    cases h
    exact shutdown_conserved s flush
  | callback answers =>
    obtain ⟨_, he⟩ := Option.ite_none_right_eq_some.mp h
    cases he
    refine Conserved.scheduleWrite ?_
    exact .of_frame rfl rfl rfl
  | watch id out answers =>
    obtain ⟨_, he⟩ := Option.ite_none_right_eq_some.mp h
    cases he
    exact (htake answers).trans (writeCallback_conserved _ id out)

end Conserved

end DBusLogSender

end DBusLog

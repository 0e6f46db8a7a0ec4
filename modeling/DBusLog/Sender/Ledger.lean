import DBusLog.Sender.Lifetime

/-!
# The ledger of a run

A `Ledger` records, along a run, which packets have been issued, which of them are kept for the
wire and which messages an overflow of the ring has discarded. It looks only at what the locked
sections of the calls decide. Nothing is issued once the sender is done.
-/

namespace DBusLog

/-- What a run has asked a sender to send. -/
structure Ledger where
  /-- The packets that are out, in flight or queued, without BYE. -/
  kept : List WirePacket
  /-- All pings and messages, in the order issued. -/
  issued : List WirePacket
  /-- The messages lost on queue overflow. -/
  discarded : List DBusLogMessage
  /-- `dbus_log_sender_close` has been called. -/
  closed : Bool

namespace Ledger

def empty : Ledger := ⟨[], [], [], false⟩

/-- The stream that the sender is to produce. -/
def packets (l : Ledger) : List WirePacket := l.kept ++ if l.closed then [.bye] else []

def issue (l : Ledger) (p : WirePacket) : Ledger :=
  { l with kept := l.kept ++ [p], issued := l.issued ++ [p] }

/-- Forget the newest packets, which carry these messages. -/
def discard (l : Ledger) (ms : List DBusLogMessage) : Ledger :=
  { l with kept := l.kept.take (l.kept.length - ms.length), discarded := l.discarded ++ ms }

end Ledger

namespace DBusLogSender

/-- A message passed to `dbus_log_sender_send`: a full ring loses its newer half, and the message
as well if that makes no room. -/
def recordSend (s : DBusLogSender) (msg : DBusLogMessage) (l : Ledger) : Ledger :=
  if s.done then l
  else if s.Idle ∨ s.buffer.canPut 1 = true then l.issue (.message msg)
  else
    let rest := s.buffer.dropLast (s.buffer.size / 2)
    let l := (l.discard (s.buffer.items.drop rest.size)).issue (.message msg)
    if rest.canPut 1 then l else l.discard [msg]

/-- The ledger after a step from the state `s`. -/
def record (s : DBusLogSender) : SenderStep → Ledger → Ledger
  | .workerSend msg, l | .send msg _, l => s.recordSend msg l
  | .ping _, l => if s.canPing then l.issue .ping else l
  | .close _ _, l => if s.done then l else { l with closed := true }
  | .shutdown _, l | .callback _, l | .watch _ _ _, l => l

/-- The ledger of a run. -/
def ledger (s : DBusLogSender) (steps : List SenderStep) : Ledger :=
  Runs.history record step s steps Ledger.empty

/-! ## The ledger of a send -/

theorem discard_kept {l : Ledger} {base : List WirePacket} {ms : List DBusLogMessage}
    (h : l.kept = base ++ ms.map .message) : (l.discard ms).kept = base := by
  change l.kept.take (l.kept.length - ms.length) = base
  rw [h, List.length_append, List.length_map, Nat.add_sub_cancel, List.take_left]

theorem discard_nil (l : Ledger) : l.discard [] = l := by
  simp [Ledger.discard]

theorem packets_open {l : Ledger} (h : l.closed = false) : l.packets = l.kept := by
  simp [Ledger.packets, h]

section Send

variable {s : DBusLogSender}

/-- The messages that an overflow of the ring takes. -/
def overflow (s : DBusLogSender) : List DBusLogMessage :=
  if s.buffer.canPut 1 then []
  else s.buffer.items.drop (s.buffer.items.length - s.buffer.items.length / 2)

theorem overflow_of_canPut (h : s.buffer.canPut 1 = true) : s.overflow = [] := if_pos h

theorem overflow_length (s : DBusLogSender) :
    s.overflow.length ≤ s.buffer.items.length / 2 := by
  unfold overflow
  split
  · exact Nat.zero_le _
  · rw [List.length_drop]
    omega

/-- Where there is room the message goes to the end of the ring. -/
theorem queueMessage_room (h : s.buffer.canPut 1 = true) (msg : DBusLogMessage) :
    (s.queueMessage msg).buffer.items = s.buffer.items ++ [msg] := by
  unfold queueMessage
  simp only [if_pos h, BoundedRing.put?_getD_items]

/-- A full ring keeps its older half, rounded up. That makes room unless nothing was dropped. -/
theorem queueMessage_full (h : s.buffer.canPut 1 ≠ true) (msg : DBusLogMessage) :
    (s.queueMessage msg).buffer.items =
      s.buffer.items.take (s.buffer.items.length - s.buffer.items.length / 2) ++
        if 1 < s.buffer.items.length then [msg] else [] := by
  have hroom := BoundedRing.canPut_dropLast_iff h (s.buffer.items.length / 2)
  unfold queueMessage
  simp only [if_neg h, BoundedRing.put?_getD_items, BoundedRing.size_eq,
    BoundedRing.dropLast_items]
  by_cases hlong : 1 < s.buffer.items.length
  · rw [if_pos hlong, if_pos (hroom.mpr (by omega))]
  · rw [if_neg hlong, if_neg (fun hput => by have := hroom.mp hput; omega), List.append_nil]

/-- A send to a busy sender: the ring keeps `stay`, loses `gone` if it is full, and takes the
message if there is room then. The ledger records the same. -/
theorem busySend_cases (hdone : s.done = false) (hidle : ¬s.Idle) (msg : DBusLogMessage)
    (l : Ledger) : ∃ stay gone, s.buffer.items = stay ++ gone ∧
      gone = s.overflow ∧
      ((s.queueMessage msg).buffer.items = stay ++ [msg] ∧
          s.recordSend msg l = (l.discard gone).issue (.message msg) ∨
        (s.buffer.canPut 1 = false ∧ s.buffer.items.length ≤ 1) ∧
          (s.queueMessage msg).buffer.items = stay ∧
          s.recordSend msg l = ((l.discard gone).issue (.message msg)).discard [msg]) := by
  have hopen : ¬s.done = true := by simp [hdone]
  unfold recordSend
  rw [if_neg hopen]
  by_cases hput : s.buffer.canPut 1 = true
  · refine ⟨s.buffer.items, [], (List.append_nil _).symm, (overflow_of_canPut hput).symm,
      .inl ⟨queueMessage_room hput msg, ?_⟩⟩
    rw [if_pos (Or.inr hput), discard_nil]
  · have hfull : ¬(s.Idle ∨ s.buffer.canPut 1 = true) := by simp [hput, hidle]
    have hlen := BoundedRing.size_eq s.buffer
    have hring := queueMessage_full hput msg
    have hroom := BoundedRing.canPut_dropLast_iff hput (s.buffer.size / 2)
    have hsize : (s.buffer.dropLast (s.buffer.size / 2)).size =
        s.buffer.items.length - s.buffer.size / 2 := by
      simp only [BoundedRing.size_eq, BoundedRing.dropLast_items, List.length_take]
      omega
    rw [if_neg hfull]
    refine ⟨_, _, (List.take_append_drop (s.buffer.items.length - s.buffer.size / 2) _).symm,
      (if_neg hput).symm, ?_⟩
    by_cases hlong : 1 < s.buffer.items.length
    · rw [if_pos hlong] at hring
      have hyes := hroom.mpr (by omega)
      exact .inl ⟨hring, by simp only [if_pos hyes, hsize]⟩
    · -- dropping a half makes no room where the half is empty
      rw [if_neg hlong, List.append_nil] at hring
      have hno := mt hroom.mp (by omega)
      exact .inr ⟨⟨by simpa using hput, by omega⟩, hring, by simp only [if_neg hno, hsize]⟩

end Send

/-! ## The bound of the ring -/

/-- A positive backlog stays as it is. -/
theorem normalizeBacklog_cases (backlog : Int32) :
    (0 < backlog ∧ normalizeBacklog backlog = backlog) ∨
      normalizeBacklog backlog = 1000 ∨ normalizeBacklog backlog = -1 := by
  unfold normalizeBacklog
  by_cases hpos : 0 < backlog
  · exact .inl ⟨hpos, if_pos hpos⟩
  · rw [if_neg hpos]
    by_cases hzero : backlog = 0
    · exact .inr (.inl (if_pos hzero))
    · exact .inr (.inr (if_neg hzero))

/-- No ring is made for nothing, and one of a single message only for a backlog of 1. -/
theorem ringMaxSize_normalizeBacklog {backlog : Int32} {n : Nat}
    (h : ringMaxSize (normalizeBacklog backlog) = some n) : 0 < n ∧ (n = 1 → backlog = 1) := by
  obtain ⟨hpos, he⟩ | he | he := normalizeBacklog_cases backlog
  · rw [he] at h
    obtain ⟨_, hsize⟩ := Option.ite_none_left_eq_some.mp h
    cases hsize
    have hlt : 0 < backlog.toInt := Int32.lt_iff_toInt_lt.mp hpos
    refine ⟨by omega, fun hone => ?_⟩
    apply Int32.toInt_inj.mp
    have hint : (1 : Int32).toInt = 1 := rfl
    omega
  · rw [he] at h
    cases h
    exact ⟨by decide, fun hone => absurd hone (by decide)⟩
  · rw [he] at h
    cases h

/-! ## What the calls do to the ring -/

section Ring

variable {s t : DBusLogSender} {P : BoundedRing DBusLogMessage → Prop}

/-- `write` only takes messages from the ring. -/
theorem write_ring (hget : ∀ b, P b → P b.get.2) (h : P s.buffer) : P s.write.2.buffer := by
  refine write_rule (P := fun s => P s.buffer) (Q := fun _ t => P t.buffer) ?_ ?_ ?_ ?_ s h
  · intro s t h hp
    obtain ⟨_, _, _, rfl⟩ := writePacket_frame hp
    exact h
  · intro s t h hp
    obtain ⟨_, _, _, rfl⟩ := writePacket_frame hp
    exact h
  · intro s t u h hp hn
    obtain ⟨_, _, _, rfl⟩ := writePacket_frame hp
    obtain ⟨_, _, _, _, rfl⟩ := nextPacket_frame hn
    unfold finish
    by_cases hdone : s.done = true
    · simp only [if_pos hdone]
      exact hget _ h
    · simp only [if_neg hdone]
      exact hget _ h
  · intro s t u h hp hn
    obtain ⟨_, _, _, ht⟩ := writePacket_frame hp
    obtain ⟨_, _, _, _, hu⟩ := nextPacket_frame hn
    have hring : P u.buffer := by
      rw [hu, ht]
      exact hget _ h
    by_cases hc : u.io.isSome ∧ u.writeWatchId = 0
    · rw [if_pos hc]
      refine ⟨hring, fun v hv => ?_, fun _ hv => hv⟩
      obtain ⟨_, _, _, _, hadd⟩ := addWatch_frame v
      rw [hadd]
      exact hv
    · rw [if_neg hc]
      exact hring

theorem scheduleWrite_ring (hget : ∀ b, P b → P b.get.2) (h : P s.buffer) :
    P s.scheduleWrite.buffer := by
  have hwrite := write_ring hget h
  rw [scheduleWrite_eq]
  by_cases hc : s.io.isSome ∧ s.writeWatchId = 0
  · rw [if_pos hc]
    by_cases hmore : s.write.1 = true
    · rw [if_pos hmore]
      obtain ⟨_, _, _, _, hadd⟩ := addWatch_frame s.write.2
      rw [hadd]
      exact hwrite
    · rw [if_neg hmore]
      exact hwrite
  · rw [if_neg hc]
    exact h

theorem sendLocked_ring {msg : DBusLogMessage}
    (hqueue : ∀ u : DBusLogSender, P u.buffer → P (u.queueMessage msg).buffer) (h : P s.buffer) :
    P (s.sendLocked msg).2.buffer := by
  obtain ⟨_, he⟩ | ⟨_, _, he⟩ | ⟨_, _, he⟩ := sendLocked_cases s msg
  · rw [he]
    exact h
  · obtain ⟨packet, hframe⟩ := prepareCurrentMessage_frame
      (s := { s with currentMessage := some msg }) rfl
    rw [he, hframe]
    exact h
  · rw [he]
    exact hqueue s h

theorem ping_ring (hget : ∀ b, P b → P b.get.2) (h : P s.buffer) : P s.ping.2.buffer := by
  obtain ⟨_, he⟩ | ⟨_, he⟩ := ping_cases s
  · rw [he]
    exact scheduleWrite_ring hget h
  · rw [he]
    exact h

/-- A step does nothing else to the ring than to take messages from it and to queue one. -/
theorem step_ring {a : SenderStep} (hget : ∀ b, P b → P b.get.2)
    (hqueue : ∀ msg ∈ a.message?, ∀ u : DBusLogSender, P u.buffer → P (u.queueMessage msg).buffer)
    (h : P s.buffer) (ht : s.step a = some t) : P t.buffer := by
  cases a with
  | workerSend msg =>
    cases ht
    have hlocked := sendLocked_ring (hqueue msg rfl) h
    unfold sendFromWorker
    split
    all_goals
      next he =>
        rw [he] at hlocked
        exact hlocked
  | send msg answers =>
    cases ht
    have hlocked := sendLocked_ring (s := { s with answers := answers }) (hqueue msg rfl) h
    unfold send
    split
    · next he =>
        rw [he] at hlocked
        exact scheduleWrite_ring hget hlocked
    · next he =>
        rw [he] at hlocked
        exact hlocked
  | ping answers =>
    obtain ⟨_, he⟩ := Option.ite_none_right_eq_some.mp ht
    cases he
    exact ping_ring hget h
  | close bye answers =>
    cases ht
    unfold close
    obtain ⟨_, he⟩ | ⟨_, _, _, he⟩ | ⟨_, _, he⟩ := closeLocked_cases { s with answers := answers }
    · rw [he]
      exact h
    · rw [he]
      exact scheduleWrite_ring hget h
    · rw [he]
      exact h
  | shutdown flush =>
    cases ht
    exact h
  | callback answers =>
    obtain ⟨_, he⟩ := Option.ite_none_right_eq_some.mp ht
    cases he
    exact scheduleWrite_ring hget h
  | watch id out answers =>
    obtain ⟨_, he⟩ := Option.ite_none_right_eq_some.mp ht
    cases he
    have hwrite : P { s with answers := answers }.write.2.buffer := write_ring hget h
    unfold writeCallback
    by_cases hout : out = true
    · rw [if_pos hout]
      split
      all_goals
        next hw =>
          rw [hw] at hwrite
          exact hwrite
    · rw [if_neg hout]
      exact h

theorem queueMessage_maxSize (s : DBusLogSender) (msg : DBusLogMessage) :
    (s.queueMessage msg).buffer.maxSize = s.buffer.maxSize := by
  change ((BoundedRing.put? _ msg).getD _).maxSize = _
  rw [BoundedRing.put?_getD_maxSize]
  split
  · rfl
  · rfl

/-- No step changes the bound. -/
theorem step_maxSize {a : SenderStep} {n : Option Nat} (h : s.buffer.maxSize = n)
    (ht : s.step a = some t) : t.buffer.maxSize = n :=
  step_ring (P := fun b => b.maxSize = n) (fun _ h => h)
    (fun msg _ u h => (queueMessage_maxSize u msg).trans h) h ht

theorem queueMessage_fits {msg : DBusLogMessage} (h : ∀ m ∈ s.buffer.items, m.Fits)
    (hfits : msg.Fits) : ∀ m ∈ (s.queueMessage msg).buffer.items, m.Fits := by
  intro m hm
  by_cases hput : s.buffer.canPut 1 = true
  · rw [queueMessage_room hput] at hm
    obtain hm | hm := List.mem_append.mp hm
    · exact h m hm
    · exact List.mem_singleton.mp hm ▸ hfits
  · rw [queueMessage_full hput] at hm
    obtain hm | hm := List.mem_append.mp hm
    · exact h m (List.mem_of_mem_take hm)
    · split at hm
      · exact List.mem_singleton.mp hm ▸ hfits
      · cases hm

/-- If the messages passed to send fit, those in the ring do. -/
theorem step_fits {a : SenderStep} (h : ∀ m ∈ s.buffer.items, m.Fits)
    (hfits : ∀ m ∈ a.message?, m.Fits) (ht : s.step a = some t) :
    ∀ m ∈ t.buffer.items, m.Fits :=
  step_ring (P := fun b => ∀ m ∈ b.items, m.Fits) (fun _ h m hm => h m (List.mem_of_mem_tail hm))
    (fun msg hmsg _ h => queueMessage_fits h (hfits msg hmsg)) h ht

end Ring

/-! ## The ledger by itself -/

/-- What is kept is what has been issued without what has been discarded, in the same order. -/
structure Accounted (l : Ledger) : Prop where
  noBye : WirePacket.bye ∉ l.kept
  sublist : l.kept.Sublist l.issued
  perm : (l.kept ++ l.discarded.map WirePacket.message).Perm l.issued

section Accounted

variable {l : Ledger}

theorem accounted_empty : Accounted Ledger.empty :=
  ⟨List.not_mem_nil, List.Sublist.refl _, List.Perm.refl _⟩

theorem Accounted.issue (h : Accounted l) {p : WirePacket} (hp : p ≠ .bye) :
    Accounted (l.issue p) where
  noBye hmem := by
    rcases List.mem_append.mp hmem with hmem | hmem
    · exact h.noBye hmem
    · exact hp (List.mem_singleton.mp hmem).symm
  sublist := h.sublist.append_right [p]
  perm := by
    refine List.Perm.trans ?_ (h.perm.append_right [p])
    simp only [Ledger.issue, List.append_assoc]
    exact List.perm_append_comm.append_left l.kept

theorem Accounted.discard (h : Accounted l) {base : List WirePacket} {ms : List DBusLogMessage}
    (hkept : l.kept = base ++ ms.map .message) : Accounted (l.discard ms) := by
  have hbase := discard_kept hkept
  refine ⟨?_, ?_, ?_⟩
  · rw [hbase]
    intro hmem
    exact h.noBye (by rw [hkept]; exact List.mem_append_left _ hmem)
  · rw [hbase]
    refine List.Sublist.trans ?_ h.sublist
    rw [hkept]
    exact List.sublist_append_left _ _
  · rw [hbase]
    refine List.Perm.trans ?_ h.perm
    rw [hkept]
    simp only [Ledger.discard, List.map_append, List.append_assoc]
    exact List.perm_append_comm.append_left base

end Accounted

/-! ## After the sender is done -/

section Done

variable {s t : DBusLogSender}

theorem step_done {a : SenderStep} (h : s.done = true) (ht : s.step a = some t) :
    t.done = true := (step_later ht).done h

/-- Nothing is issued any more. -/
theorem record_done (h : s.done = true) (a : SenderStep) (l : Ledger) : s.record a l = l := by
  have hping : s.canPing = false := by simp [canPing, h]
  cases a with
  | workerSend msg => exact if_pos h
  | send msg _ => exact if_pos h
  | ping _ =>
    change (if s.canPing then l.issue .ping else l) = l
    rw [hping]
    rfl
  | close _ _ => exact if_pos h
  | _ => rfl

end Done

/-- A sender that has been closed stays done. -/
theorem run_done_of_close {s t : DBusLogSender} {steps : List SenderStep} {bye : Bool}
    {answers : List WriteAnswer}
    (hmem : .close bye answers ∈ steps) (hrun : run s steps = some t) : t.done = true := by
  obtain ⟨before, after, rfl⟩ := List.append_of_mem hmem
  obtain ⟨s1, _, hrun⟩ := Runs.run_append_iff.mp hrun
  obtain ⟨s2, hs, hrun⟩ := Runs.run_cons_iff.mp hrun
  have hdone : s2.done = true := by
    cases hs
    exact done_of_close _ bye
  exact Runs.invariant_of_forall (C := fun _ => True) (fun _ _ _ h _ hs => step_done h hs)
    (fun _ _ => trivial) hrun hdone

/-- The messages passed to `dbus_log_sender_send` before the first call of
`dbus_log_sender_close`. -/
def sentBeforeClose : List SenderStep → List DBusLogMessage
  | [] => []
  | .close _ _ :: _ => []
  | a :: steps => a.message?.toList ++ sentBeforeClose steps

theorem recordSend_issued (s : DBusLogSender) (msg : DBusLogMessage) (l : Ledger) :
    (s.recordSend msg l).issued =
      if s.done then l.issued else l.issued ++ [.message msg] := by
  by_cases hdone : s.done = true
  · unfold recordSend
    rw [if_pos hdone, if_pos hdone]
  · rw [if_neg hdone]
    by_cases hidle : s.Idle
    · unfold recordSend
      rw [if_neg hdone, if_pos (Or.inl hidle)]
      rfl
    · obtain ⟨_, _, _, _, ⟨_, hrec⟩ | ⟨_, _, hrec⟩⟩ :=
        busySend_cases (by simpa using hdone) hidle msg l
      · rw [hrec]
        rfl
      · rw [hrec]
        rfl

/-- A step issues at most the message that it passes to send, or a ping. -/
theorem record_issued (s : DBusLogSender) (a : SenderStep) (l : Ledger) :
    ∃ ps, (s.record a l).issued = l.issued ++ ps ∧
      (WirePacket.messages ps).Sublist a.message?.toList := by
  have hsend : ∀ msg, ∃ ps, (s.recordSend msg l).issued = l.issued ++ ps ∧
      (WirePacket.messages ps).Sublist [msg] := by
    intro msg
    rw [recordSend_issued]
    by_cases hdone : s.done = true
    · rw [if_pos hdone]
      exact ⟨[], (List.append_nil _).symm, List.nil_sublist _⟩
    · rw [if_neg hdone]
      exact ⟨[.message msg], rfl, List.Sublist.refl _⟩
  cases a with
  | workerSend msg => exact hsend msg
  | send msg _ => exact hsend msg
  | ping _ =>
    change ∃ ps, (if s.canPing then l.issue .ping else l).issued = _ ∧ _
    by_cases hc : s.canPing = true
    · rw [if_pos hc]
      exact ⟨[.ping], rfl, List.nil_sublist _⟩
    · rw [if_neg hc]
      exact ⟨[], (List.append_nil _).symm, List.nil_sublist _⟩
  | close _ _ =>
    refine ⟨[], ?_, List.nil_sublist _⟩
    rw [List.append_nil]
    change (if s.done then l else { l with closed := true }).issued = _
    split <;> rfl
  | shutdown _ => exact ⟨[], (List.append_nil _).symm, List.nil_sublist _⟩
  | callback _ => exact ⟨[], (List.append_nil _).symm, List.nil_sublist _⟩
  | watch _ _ _ => exact ⟨[], (List.append_nil _).symm, List.nil_sublist _⟩

theorem ledger_done {s t : DBusLogSender} {steps : List SenderStep} (h : s.done = true)
    (l : Ledger) (hrun : run s steps = some t) : Runs.history record step s steps l = l := by
  induction steps generalizing s with
  | nil => rfl
  | cons a steps ih =>
    obtain ⟨s', hs, hrun⟩ := Runs.run_cons_iff.mp hrun
    rw [Runs.history_cons hs, record_done h]
    exact ih (step_done h hs) hrun

/-- Only what has been passed to send before the first close is issued. -/
theorem ledger_issued {s t : DBusLogSender} {steps : List SenderStep} (l : Ledger)
    (hrun : run s steps = some t) :
    ∃ ps, (Runs.history record step s steps l).issued = l.issued ++ ps ∧
      (WirePacket.messages ps).Sublist (sentBeforeClose steps) := by
  induction steps generalizing s l with
  | nil => exact ⟨[], (List.append_nil _).symm, List.nil_sublist _⟩
  | cons a steps ih =>
    obtain ⟨s', hs, htail⟩ := Runs.run_cons_iff.mp hrun
    obtain ⟨ps, hps, hsub⟩ := record_issued s a l
    rw [Runs.history_cons hs]
    by_cases hclose : ∃ bye answers, a = .close bye answers
    · obtain ⟨bye, answers, rfl⟩ := hclose
      have hdone : s'.done = true := by
        cases hs
        exact done_of_close _ bye
      rw [ledger_done hdone _ htail]
      exact ⟨ps, hps, hsub⟩
    · obtain ⟨qs, hqs, hsub'⟩ := ih (s.record a l) htail
      refine ⟨ps ++ qs, by rw [hqs, hps, List.append_assoc], ?_⟩
      have hcons : sentBeforeClose (a :: steps) =
          a.message?.toList ++ sentBeforeClose steps := by
        cases a with
        | close bye answers => exact absurd ⟨bye, answers, rfl⟩ hclose
        | _ => rfl
      rw [hcons, WirePacket.messages_append]
      exact hsub.append hsub'

end DBusLogSender

end DBusLog

import DBusLog.Sender.Watches

/-!
# Somebody is responsible for the rest of the output

While the channel is open and a packet is unfinished, or the sender has been closed, a watch is
live or a write callback is scheduled; and an idle sender has an empty ring. The one exception is
a message whose packet size wraps to zero in 32-bit arithmetic: a watch callback that takes it out
of the ring leaves an idle sender behind, whatever else the ring still holds.
-/

namespace DBusLog.DBusLogSender

/-- No output stalls. -/
structure NoStall (s : DBusLogSender) : Prop where
  responsible : s.io.isSome → ¬s.Idle ∨ s.done = true → s.watches ≠ [] ∨ 0 < s.pending
  drained : s.io.isSome → s.Idle → s.buffer.items = []

/-- A watch callback that finishes a packet does not take a message of wrapped size zero out of
the ring with another message behind it. -/
def NoWrap (s : DBusLogSender) : SenderStep → Prop
  | .watch _ true answers => s.io.isSome = true → s.writeWatchId ≠ 0 →
      takesAll s.writesLeft answers = true →
      s.buffer.items.head?.map (·.wireSize) = some 0 → s.buffer.items.tail = []
  | _ => True

instance (s : DBusLogSender) : DecidablePred (NoWrap s)
  | .watch _ true _ => inferInstanceAs (Decidable (_ = true → _ ≠ 0 → _ = true → _ = _ → _ = _))
  | .watch _ false _ => isTrue trivial
  | .workerSend _ | .send _ _ | .ping _ | .close _ _ | .shutdown _ | .callback _ => isTrue trivial

/-! ## A closed channel stays closed -/

theorem scheduleWrite_closed {s : DBusLogSender} (h : s.io = none) : s.scheduleWrite.io = none := by
  rw [scheduleWrite_of_closed h]
  exact h

theorem write_closed {s : DBusLogSender} (h : s.io = none) : s.write.2.io = none := by
  cases hp : s.writePacket with
  | mk r t =>
    obtain ⟨_, _, _, ht⟩ := writePacket_frame hp
    have hio : t.io = none := by rw [ht]; exact h
    cases r with
    | wait =>
      rw [write_wait hp]
      exact hio
    | failed =>
      rw [write_failed hp]
      rfl
    | sent =>
      rcases nextPacket_cases t with ⟨m, rest, hb, he⟩ | ⟨hb, hbye, he⟩ | ⟨hb, hbye, he⟩
      · obtain ⟨packet, hu⟩ := prepareCurrentMessage_frame
          (s := { t with currentMessage := some m, buffer := t.buffer.get.2 }) rfl
        rw [write_next hp he]
        refine scheduleWrite_closed ?_
        rw [hu]
        exact hio
      · rw [write_next hp he]
        exact scheduleWrite_closed hio
      · rw [write_stop hp he]
        exact finish_closed hio

theorem sendFromWorker_closed {s : DBusLogSender} (h : s.io = none) (msg : DBusLogMessage) :
    (s.sendFromWorker msg).io = none := by
  unfold sendFromWorker
  rcases sendLocked_cases s msg with ⟨_, he⟩ | ⟨_, _, he⟩ | ⟨_, _, he⟩
  · rw [he]
    exact h
  · rw [he]
    exact (prepareCurrentMessage_io _).trans h
  · rw [he]
    exact h

theorem send_closed {s : DBusLogSender} (h : s.io = none) (msg : DBusLogMessage) :
    (s.send msg).io = none := by
  unfold send
  rcases sendLocked_cases s msg with ⟨_, he⟩ | ⟨_, _, he⟩ | ⟨_, _, he⟩
  · rw [he]
    exact h
  · rw [he]
    exact scheduleWrite_closed ((prepareCurrentMessage_io _).trans h)
  · rw [he]
    exact h

theorem writeCallback_closed {s : DBusLogSender} (h : s.io = none) (id : Nat) (out : Bool) :
    (s.writeCallback id out).io = none := by
  have hw := write_closed h
  unfold writeCallback
  cases out with
  | false => rfl
  | true =>
    rw [if_pos rfl]
    split
    next he =>
      rw [he] at hw
      exact hw
    next he =>
      rw [he] at hw
      exact hw

theorem step_closed {s t : DBusLogSender} {a : SenderStep} (h : s.io = none)
    (ht : s.step a = some t) : t.io = none := by
  cases a with
  | workerSend msg =>
    cases ht
    exact sendFromWorker_closed h msg
  | send msg answers =>
    cases ht
    exact send_closed (s := { s with answers := answers }) h msg
  | ping answers =>
    obtain ⟨_, he⟩ := Option.ite_none_right_eq_some.mp ht
    cases he
    rcases ping_cases { s with answers := answers } with ⟨_, he⟩ | ⟨_, he⟩
    · rw [he]
      exact scheduleWrite_closed h
    · rw [he]
      exact h
  | close bye answers =>
    cases ht
    unfold close
    rcases closeLocked_cases { s with answers := answers } with ⟨_, he⟩ | ⟨_, _, _, he⟩ | ⟨_, _, he⟩
    · rw [he]
      exact h
    · rw [he]
      exact scheduleWrite_closed h
    · rw [he]
      exact h
  | shutdown flush =>
    cases ht
    rfl
  | callback answers =>
    obtain ⟨_, he⟩ := Option.ite_none_right_eq_some.mp ht
    cases he
    exact scheduleWrite_closed h
  | watch id out answers =>
    obtain ⟨_, he⟩ := Option.ite_none_right_eq_some.mp ht
    cases he
    exact writeCallback_closed (s := { s with answers := answers }) h id out

/-! ## A write that has to wait leaves an unfinished packet -/

theorem writeUpTo_wait {s t : DBusLogSender} {limit : Nat} {buf : List UInt8}
    (h : s.writeUpTo limit buf = (.wait, t)) : t.packetWritten < limit := by
  unfold writeUpTo at h
  split at h
  · cases h
  · next bytesWritten u _ =>
    by_cases hlt : u.packetWritten + bytesWritten < limit
    · rw [if_pos hlt] at h
      cases h
      exact hlt
    · rw [if_neg hlt] at h
      cases h

theorem writePacket_wait {s t : DBusLogSender} (hfix : s.packetFixedPart ≤ s.packetSize)
    (h : s.writePacket = (.wait, t)) : t.packetWritten < t.packetSize := by
  obtain ⟨_, _, _, hframe⟩ := writePacket_frame h
  have hsize : t.packetSize = s.packetSize := by rw [hframe]
  rw [hsize]
  unfold writePacket at h
  split at h
  · split at h
    · next u hf =>
      -- the data is short
      obtain ⟨_, _, _, hu⟩ := writeFixedPart_frame hf
      have husize : u.packetSize = s.packetSize := by rw [hu]
      unfold writeMessageData at h
      split at h
      · have := writeUpTo_wait h
        omega
      · cases h
    · next u hf =>
      -- the fixed part is short
      cases h
      unfold writeFixedPart at hf
      split at hf
      · have := writeUpTo_wait hf
        omega
      · cases hf
    · cases h
  · cases h

/-! ## The invariant -/

/-- An open sender whose output is taken care of, apart from who is responsible for it. -/
structure Served (s : DBusLogSender) : Prop where
  fixed : s.packetFixedPart ≤ s.packetSize
  drained : s.Idle → s.buffer.items = []
  recorded : s.writeWatchId ≠ 0 → s.writeWatchId ∈ s.watches

/-- What `write` leaves behind on an open channel when no watch was recorded: with FALSE nothing
is left to do. The watches `live` stay alive. -/
def Left (live : List Nat) : Bool → DBusLogSender → Prop
  | true, t => t.io.isSome → Served t ∧ live ⊆ t.watches
  | false, t => t.io.isSome →
      Served t ∧ live ⊆ t.watches ∧ t.Idle ∧ t.done = false ∧ t.writeWatchId = 0

theorem finish_left {t u : DBusLogSender} {live : List Nat} (hn : t.nextPacket = (false, u))
    (hlive : live ⊆ t.watches) : Left live false u.finish := by
  rcases nextPacket_cases t with ⟨_, _, _, he⟩ | ⟨_, _, he⟩ | ⟨hb, _, he⟩
  · cases he.symm.trans hn
  · cases he.symm.trans hn
  · cases he.symm.trans hn
    intro hopen
    unfold finish at hopen ⊢
    by_cases hdone : t.done = true
    · simp only [if_pos hdone] at hopen
      cases hopen
    · simp only [if_neg hdone]
      refine ⟨⟨le_rfl, fun _ => ?_, fun h0 => absurd rfl h0⟩, hlive, rfl, ?_, trivial⟩
      · simp [hb]
      · simpa using hdone

theorem write_left {s : DBusLogSender} (live : List Nat) (hio : s.io.isSome)
    (hfix : s.packetFixedPart ≤ s.packetSize) (hw : s.writeWatchId = 0)
    (hlive : live ⊆ s.watches) : Left live s.write.1 s.write.2 := by
  refine write_rule (P := fun s => s.io.isSome ∧ s.packetFixedPart ≤ s.packetSize ∧
    s.writeWatchId = 0 ∧ live ⊆ s.watches) (Q := Left live) ?_ ?_ ?_ ?_ s ⟨hio, hfix, hw, hlive⟩
  · rintro s t ⟨hio, hfix, hw, hlive⟩ hp _
    have hwait := writePacket_wait hfix hp
    obtain ⟨_, _, _, rfl⟩ := writePacket_frame hp
    refine ⟨⟨hfix, ?_, ?_⟩, hlive⟩
    · intro hidle
      exact absurd hidle (Nat.ne_of_gt hwait)
    · exact fun h0 => absurd hw h0
  · intro s t _ _ hopen
    cases hopen
  · rintro s t u ⟨_, _, _, hlive⟩ hp hn
    obtain ⟨answers, accepted, written, ht⟩ := writePacket_frame hp
    refine finish_left hn ?_
    rw [ht]
    exact hlive
  · rintro s t u ⟨hio, hfix, hw, hlive⟩ hp hn
    obtain ⟨answers, accepted, written, ht⟩ := writePacket_frame hp
    obtain ⟨bye, packet, size, message, hu⟩ := nextPacket_frame hn
    have huw : u.writeWatchId = 0 := by rw [hu, ht]; exact hw
    have huio : u.io.isSome := by rw [hu, ht]; exact hio
    rw [if_pos ⟨huio, huw⟩]
    refine ⟨⟨huio, ?_, huw, ?_⟩, ?_, ?_⟩
    · rw [hu]
      exact Nat.min_le_right _ _
    · rw [hu, ht]
      exact hlive
    · intro v hv hopen
      by_cases hvio : v.io.isSome
      · obtain ⟨hserved, hvlive⟩ := hv hvio
        rw [addWatch_of_open hvio]
        refine ⟨⟨hserved.fixed, hserved.drained, fun _ => List.mem_cons_self⟩, ?_⟩
        exact fun w hw => List.mem_cons_of_mem _ (hvlive hw)
      · have hnone : v.addWatch.io = none := addWatch_closed (by simpa using hvio)
        rw [hnone] at hopen
        cases hopen
    · intro v hv hopen
      exact ⟨(hv hopen).1, (hv hopen).2.1⟩

/-- `schedule_write` takes over: it adds a watch unless nothing is left to write. -/
theorem scheduleWrite_served {s : DBusLogSender} (hfix : s.packetFixedPart ≤ s.packetSize)
    (hrec : s.writeWatchId ≠ 0 → s.writeWatchId ∈ s.watches)
    (hdrained : s.writeWatchId ≠ 0 → s.Idle → s.buffer.items = [])
    (hopen : s.scheduleWrite.io.isSome) :
    Served s.scheduleWrite ∧
      (¬s.scheduleWrite.Idle ∨ s.scheduleWrite.done = true → s.scheduleWrite.watches ≠ []) := by
  by_cases hw : s.writeWatchId = 0
  · by_cases hio : s.io.isSome
    · have hleft := write_left [] hio hfix hw (List.nil_subset _)
      rw [scheduleWrite_eq, if_pos ⟨hio, hw⟩] at hopen ⊢
      cases hwrite : s.write with
      | mk more t =>
        rw [hwrite] at hleft hopen
        cases more with
        | true =>
          have hio' : t.io.isSome := by
            by_contra hnot
            have hnone : t.addWatch.io = none := addWatch_closed (by simpa using hnot)
            rw [if_pos rfl, hnone] at hopen
            cases hopen
          obtain ⟨hserved, _⟩ := hleft hio'
          rw [if_pos rfl]
          simp only [addWatch_of_open hio']
          refine ⟨⟨hserved.fixed, hserved.drained, fun _ => List.mem_cons_self⟩, ?_⟩
          exact fun _ => List.cons_ne_nil _ _
        | false =>
          obtain ⟨hserved, _, hidle, hdone, _⟩ := hleft hopen
          refine ⟨hserved, ?_⟩
          rintro (hbusy | hd)
          · exact absurd hidle hbusy
          · cases hdone.symm.trans hd
    · rw [scheduleWrite_closed (by simpa using hio)] at hopen
      cases hopen
  · rw [scheduleWrite_of_watch hw]
    exact ⟨⟨hfix, hdrained hw, hrec⟩, fun _ => List.ne_nil_of_mem (hrec hw)⟩

/-- While the sender has something to write, or has been closed, a watch or a scheduled callback
is there for it. -/
def Responsible (s : DBusLogSender) : Prop :=
  ¬s.Idle ∨ s.done = true → s.watches ≠ [] ∨ 0 < s.pending

/-- The invariant of the runs. -/
def ProgressInv (s : DBusLogSender) : Prop := s.io.isSome → Served s ∧ Responsible s

theorem ProgressInv.noStall {s : DBusLogSender} (h : ProgressInv s) : NoStall s where
  responsible hio := (h hio).2
  drained hio := (h hio).1.drained

theorem ProgressInv.new (name : String) (backlog : Int32) (readfd writefd : Nat) :
    ProgressInv (new name backlog readfd writefd) := by
  refine fun _ => ⟨⟨le_rfl, fun _ => rfl, fun h0 => absurd rfl h0⟩, ?_⟩
  rintro (hbusy | hdone)
  · exact absurd rfl hbusy
  · cases hdone

/-- A call of `schedule_write` for a packet that has just been prepared. -/
theorem ProgressInv.scheduleWrite {s : DBusLogSender} (hfix : s.packetFixedPart ≤ s.packetSize)
    (hrec : s.writeWatchId ≠ 0 → s.writeWatchId ∈ s.watches)
    (hdrained : s.writeWatchId ≠ 0 → s.Idle → s.buffer.items = []) :
    ProgressInv s.scheduleWrite := by
  intro hopen
  obtain ⟨hserved, hwatch⟩ := scheduleWrite_served hfix hrec hdrained hopen
  exact ⟨hserved, fun hbusy => .inl (hwatch hbusy)⟩

/-! ## Steps and runs -/

section Calls

variable {s : DBusLogSender}

theorem Served.sendFromWorker (h : Served s) (hr : Responsible s) (msg : DBusLogMessage) :
    ProgressInv (s.sendFromWorker msg) := by
  unfold DBusLogSender.sendFromWorker
  rcases sendLocked_cases s msg with ⟨_, he⟩ | ⟨_, hidle, he⟩ | ⟨_, hidle, he⟩
  · rw [he]
    exact fun _ => ⟨h, hr⟩
  · rw [he]
    obtain ⟨packet, hp⟩ := prepareCurrentMessage_frame
      (s := { s with currentMessage := some msg }) rfl
    simp only [hp]
    refine fun _ => ⟨⟨Nat.min_le_right _ _, fun _ => h.drained hidle, h.recorded⟩, ?_⟩
    exact fun _ => .inr (Nat.succ_pos _)
  · rw [he]
    exact fun _ => ⟨⟨h.fixed, fun hidle' => absurd hidle' hidle, h.recorded⟩, hr⟩

theorem Served.send (h : Served s) (hr : Responsible s) (msg : DBusLogMessage) :
    ProgressInv (s.send msg) := by
  unfold DBusLogSender.send
  rcases sendLocked_cases s msg with ⟨_, he⟩ | ⟨_, hidle, he⟩ | ⟨_, hidle, he⟩
  · rw [he]
    exact fun _ => ⟨h, hr⟩
  · rw [he]
    obtain ⟨packet, hp⟩ := prepareCurrentMessage_frame
      (s := { s with currentMessage := some msg }) rfl
    simp only [hp]
    refine ProgressInv.scheduleWrite (Nat.min_le_right _ _) h.recorded ?_
    exact fun _ _ => h.drained hidle
  · rw [he]
    exact fun _ => ⟨⟨h.fixed, fun hidle' => absurd hidle' hidle, h.recorded⟩, hr⟩

theorem Served.ping (h : Served s) (hr : Responsible s) (hidle : s.Idle) :
    ProgressInv s.ping.2 := by
  rcases ping_cases s with ⟨_, he⟩ | ⟨_, he⟩
  · rw [he]
    refine ProgressInv.scheduleWrite (Nat.min_le_right _ _) h.recorded ?_
    exact fun _ _ => h.drained hidle
  · rw [he]
    exact fun _ => ⟨h, hr⟩

theorem Served.close (h : Served s) (hr : Responsible s) (bye : Bool) :
    ProgressInv (s.close bye) := by
  unfold DBusLogSender.close
  rcases closeLocked_cases s with ⟨_, he⟩ | ⟨_, _, hb, he⟩ | ⟨_, hnot, he⟩
  · rw [he]
    exact fun _ => ⟨h, hr⟩
  · rw [he]
    exact ProgressInv.scheduleWrite (Nat.min_le_right _ _) h.recorded fun _ _ => hb
  · -- an idle sender has an empty ring, so a packet is in flight
    have hbusy : ¬s.Idle := fun hidle => hnot ⟨hidle, h.drained hidle⟩
    rw [he]
    exact fun _ => ⟨⟨h.fixed, h.drained, h.recorded⟩, fun _ => hr (.inl hbusy)⟩

/-- The scheduled callback: if it does nothing, the recorded watch is there. -/
theorem Served.scheduleWriteInContext (h : Served s) :
    ProgressInv s.scheduleWriteInContext :=
  ProgressInv.scheduleWrite (s := { s with pending := s.pending - 1 }) h.fixed h.recorded
    fun _ => h.drained

/-- A packet prepared while a watch is recorded: `write` ends there, and the watch goes on. -/
theorem Served.nextPacket {t u : DBusLogSender} (h : Served s) (hp : s.writePacket = (.sent, t))
    (hn : t.nextPacket = (true, u))
    (hwrap : s.buffer.items.head?.map (·.wireSize) = some 0 → s.buffer.items.tail = []) :
    Served u := by
  obtain ⟨answers, accepted, written, ht⟩ := writePacket_frame hp
  obtain ⟨bye, packet, size, message, hu⟩ := nextPacket_frame hn
  have htb : t.buffer = s.buffer := by rw [ht]
  have hub : u.buffer.items = s.buffer.items.tail := by rw [hu, ← htb]; rfl
  refine ⟨?_, ?_, ?_⟩
  · rw [hu]
    exact Nat.min_le_right _ _
  · intro hidle
    rw [hub]
    rcases nextPacket_cases t with ⟨m, rest, hb, he⟩ | ⟨hb, _, _⟩ | ⟨_, _, he⟩
    · -- an idle sender right after a message has been prepared: its size has wrapped
      cases he.symm.trans hn
      obtain ⟨_, hm⟩ := prepareCurrentMessage_frame
        (s := { t with currentMessage := some m, buffer := t.buffer.get.2 }) rfl
      rw [hm] at hidle
      have hzero : m.wireSize = 0 := hidle
      refine hwrap ?_
      rw [← htb, hb, List.head?_cons, Option.map_some, hzero]
    · rw [← htb, hb]
      rfl
    · cases he.symm.trans hn
  · rw [hu, ht]
    exact h.recorded

/-- The source of a callback is removed after everything has been written. -/
theorem Served.removeSource (h : Served s) (hidle : s.Idle) (hdone : s.done = false)
    (h0 : s.writeWatchId = 0) (id : Nat) : ProgressInv (s.removeSource id) := by
  refine fun _ => ⟨⟨h.fixed, h.drained, fun hw => absurd h0 hw⟩, ?_⟩
  rintro (hbusy | hd)
  · exact absurd hidle hbusy
  · cases hdone.symm.trans hd

theorem Served.writeCallback {id : Nat} (h : Served s) (hio : s.io.isSome) (hid : id ∈ s.watches)
    (out : Bool) (hwrap : NoWrap s (.watch id out s.answers)) :
    ProgressInv (s.writeCallback id out) := by
  have hlive : ∀ t : DBusLogSender, Served t → id ∈ t.watches → ProgressInv t :=
    fun t ht hid _ => ⟨ht, fun _ => .inl (List.ne_nil_of_mem hid)⟩
  unfold DBusLogSender.writeCallback
  cases out with
  | false => exact fun hopen => nomatch hopen
  | true =>
    rw [if_pos rfl]
    by_cases hw : s.writeWatchId = 0
    · have hleft := write_left s.watches hio h.fixed hw (List.Subset.refl _)
      cases hwrite : s.write with
      | mk more t =>
        rw [hwrite] at hleft
        intro hopen
        cases more with
        | true =>
          obtain ⟨ht, hwatches⟩ := hleft hopen
          exact hlive t ht (hwatches hid) hopen
        | false =>
          obtain ⟨ht, _, hidle, hdone, h0⟩ := hleft hopen
          exact ht.removeSource hidle hdone h0 id hopen
    · cases hp : s.writePacket with
      | mk r t =>
        obtain ⟨answers, accepted, written, ht⟩ := writePacket_frame hp
        cases r with
        | wait =>
          have hwait := writePacket_wait h.fixed hp
          rw [write_wait hp]
          refine hlive t ⟨?_, ?_, ?_⟩ ?_
          · rw [ht]
            exact h.fixed
          · exact fun hidle => absurd hidle (Nat.ne_of_gt hwait)
          · rw [ht]
            exact h.recorded
          · rw [ht]
            exact hid
        | failed =>
          rw [write_failed hp]
          exact fun hopen => nomatch hopen
        | sent =>
          cases hn : t.nextPacket with
          | mk more u =>
            obtain ⟨bye, packet, size, message, hu⟩ := nextPacket_frame hn
            cases more with
            | true =>
              have huw : u.writeWatchId ≠ 0 := by rw [hu, ht]; exact hw
              rw [write_next hp hn, scheduleWrite_of_watch huw]
              refine hlive u (h.nextPacket hp hn (hwrap hio hw (takesAll_of_sent hio hp))) ?_
              rw [hu, ht]
              exact hid
            | false =>
              rw [write_stop hp hn]
              intro hopen
              obtain ⟨hu, _, hidle, hdone, h0⟩ := finish_left hn (List.nil_subset _) hopen
              exact hu.removeSource hidle hdone h0 id hopen

end Calls

theorem ProgressInv.step {s t : DBusLogSender} {a : SenderStep} (h : ProgressInv s)
    (hwrap : NoWrap s a) (ht : s.step a = some t) : ProgressInv t := by
  intro hopen
  have hio : s.io.isSome := by
    by_contra hnot
    rw [step_closed (by simpa using hnot) ht] at hopen
    cases hopen
  obtain ⟨hs, hr⟩ := h hio
  have hserved : ∀ answers, Served { s with answers := answers } :=
    fun _ => ⟨hs.fixed, hs.drained, hs.recorded⟩
  have hresp : ∀ answers, Responsible { s with answers := answers } := fun _ => hr
  cases a with
  | workerSend msg =>
    cases ht
    exact hs.sendFromWorker hr msg hopen
  | send msg answers =>
    cases ht
    exact (hserved answers).send (hresp answers) msg hopen
  | ping answers =>
    obtain ⟨hidle, he⟩ := Option.ite_none_right_eq_some.mp ht
    cases he
    exact (hserved answers).ping (hresp answers) hidle hopen
  | close bye answers =>
    cases ht
    exact (hserved answers).close (hresp answers) bye hopen
  | shutdown flush =>
    cases ht
    cases hopen
  | callback answers =>
    obtain ⟨_, he⟩ := Option.ite_none_right_eq_some.mp ht
    cases he
    exact (hserved answers).scheduleWriteInContext hopen
  | watch id out answers =>
    obtain ⟨hid, he⟩ := Option.ite_none_right_eq_some.mp ht
    cases he
    exact (hserved answers).writeCallback hio hid out hwrap hopen

/-- In every run from a fresh sender whose watch callbacks do not strand a message behind one of
wrapped size zero, no output stalls. -/
theorem noStall_of_noWrap (name : String) (backlog : Int32) (readfd writefd : Nat)
    {steps : List SenderStep} {t : DBusLogSender}
    (hwrap : Runs.Meets step NoWrap (new name backlog readfd writefd) steps)
    (hrun : run (new name backlog readfd writefd) steps = some t) : NoStall t :=
  (Runs.invariant_of_meets (fun _ _ _ h hc ht => h.step hc ht) hwrap hrun
    (ProgressInv.new name backlog readfd writefd)).noStall

/-- A message that is picked from the ring by a watch callback. -/
theorem noStall_of_noWrap_run : ∃ t,
    run (new "peer" 0 3 4) [.send (.new (some [104])) [], .send (.new (some [105])) [],
      .watch 1 true [.accept 22, .accept 1]] = some t ∧ NoStall t := by
  obtain ⟨t, ht⟩ := Option.isSome_iff_exists.mp (by decide : (run (new "peer" 0 3 4)
    [.send (.new (some [104])) [], .send (.new (some [105])) [],
      .watch 1 true [.accept 22, .accept 1]]).isSome)
  exact ⟨t, ht, noStall_of_noWrap "peer" 0 3 4 (by decide) ht⟩

/-- With a message of wrapped size zero in the ring the sender becomes idle while there is another
message behind it. -/
theorem watchCallback_strandsMessage : ∃ t,
    run (new "peer" 0 3 4) [.send (.new (some [104])) [], .send hugeMessage [],
      .send (.new (some [105])) [], .watch 1 true [.accept 22, .accept 1]] = some t ∧
    t.io.isSome = true ∧ t.Idle ∧ t.buffer.items = [.new (some [105])] ∧ ¬NoStall t := by
  obtain ⟨t, ht, he⟩ := Option.map_eq_some_iff.mp (by decide : (run (new "peer" 0 3 4)
    [.send (.new (some [104])) [], .send hugeMessage [], .send (.new (some [105])) [],
      .watch 1 true [.accept 22, .accept 1]]).map (fun t =>
        (t.io.isSome, decide t.Idle, t.buffer.items)) = some (true, true, [.new (some [105])]))
  simp only [Prod.mk.injEq, decide_eq_true_eq] at he
  obtain ⟨hio, hidle, hb⟩ := he
  refine ⟨t, ht, hio, hidle, hb, ?_⟩
  intro h
  cases hb.symm.trans (h.drained hio hidle)

end DBusLog.DBusLogSender

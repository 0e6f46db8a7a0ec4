import DBusLog.Sender.Calls

/-!
# What a full queue gives up

`OverflowPolicy` is what `dbus_log_sender_send` does with its message and with those that wait
already. Halving a ring of one message drops nothing, so there the new message is lost; and a
current message whose packet has the size 0 is overwritten as if nothing were being sent.
-/

namespace DBusLog

namespace DBusLogSender

/-- The message being sent and those that wait behind it, from the oldest to the newest. -/
def outgoing (s : DBusLogSender) : List DBusLogMessage :=
  s.currentMessage.toList ++ s.buffer.items

/-- The sender has the message as the current or as the newest one. -/
def Retains (s : DBusLogSender) (msg : DBusLogMessage) : Prop :=
  s.currentMessage = some msg ∨ s.buffer.items.getLast? = some msg

instance (s : DBusLogSender) (msg : DBusLogMessage) : Decidable (s.Retains msg) :=
  inferInstanceAs (Decidable (_ ∨ _))

/-- The packet got out within the call: the pipe has taken all of it, if its size is that of the
message. -/
structure Delivered (s : DBusLogSender) (msg : DBusLogMessage) : Prop where
  sent : (s.sendLocked msg).2.writePacket.1 = .sent
  accepted : msg.Fits → (s.send msg).accepted = s.accepted ++ WirePacket.encode (.message msg)

/-- The effect of `s.send msg` on the messages, with a ring of the given bound. -/
structure OverflowPolicy (bound : Option Nat) (s : DBusLogSender) (msg : DBusLogMessage) :
    Prop where
  bounded : ∀ n, bound = some n → (s.send msg).buffer.items.length ≤ n
  /-- Kept under the lock. -/
  retained : (s.sendLocked msg).2.Retains msg
  /-- Still kept at the end, unless the call itself got the packet out or broke the pipe. -/
  kept : (s.send msg).Retains msg ∨ s.Idle ∧ (s.Delivered msg ∨ (s.send msg).done = true)
  halved : ∀ n, bound = some n → s.buffer.items.length = n →
    (s.send msg).buffer.items = s.buffer.items.take (n - n / 2) ++ [msg]
  undropped : (∀ n, bound = some n → s.buffer.items.length ≠ n) →
    (s.sendLocked msg).2.outgoing = s.outgoing ++ [msg]
  /-- The flag is set when the message becomes the current one. -/
  undisplaced : (s.sendLocked msg).1 = true → s.currentMessage = none

/-! ## The two kinds of sends -/

section Send

variable {s : DBusLogSender} {msg : DBusLogMessage}

theorem send_idle (hopen : s.done = false) (hidle : s.Idle) (msg : DBusLogMessage) :
    s.sendLocked msg = (true, { s with currentMessage := some msg }.prepareCurrentMessage) ∧
      s.send msg = { s with currentMessage := some msg }.prepareCurrentMessage.scheduleWrite := by
  rcases sendLocked_cases s msg with ⟨hdone, _⟩ | ⟨_, _, he⟩ | ⟨_, hbusy, _⟩
  · cases hopen.symm.trans hdone
  · refine ⟨he, ?_⟩
    unfold send
    rw [he]
  · exact absurd hidle hbusy

theorem send_busy (hopen : s.done = false) (hbusy : ¬s.Idle) (msg : DBusLogMessage) :
    s.sendLocked msg = (false, s.queueMessage msg) ∧ s.send msg = s.queueMessage msg := by
  rcases sendLocked_cases s msg with ⟨hdone, _⟩ | ⟨_, hidle, _⟩ | ⟨_, _, he⟩
  · cases hopen.symm.trans hdone
  · exact absurd hidle hbusy
  · refine ⟨he, ?_⟩
    unfold send
    rw [he]

/-- What becomes of a message that an idle sender begins to write. -/
theorem scheduleWrite_retains (hc : s.io.isSome ∧ s.writeWatchId = 0)
    (hm : s.currentMessage = some msg) :
    s.scheduleWrite.Retains msg ∨ s.writePacket.1 = .sent ∨ s.scheduleWrite.done = true := by
  cases hp : s.writePacket with
  | mk r t =>
    cases r with
    | wait =>
      obtain ⟨_, _, _, ht⟩ := writePacket_frame hp
      obtain ⟨_, _, _, _, hadd⟩ := addWatch_frame t
      rw [scheduleWrite_wait hc hp, hadd]
      refine .inl (.inl ?_)
      change t.currentMessage = some msg
      rw [ht]
      exact hm
    | failed =>
      rw [scheduleWrite_failed hc hp]
      exact .inr (.inr rfl)
    | sent => exact .inr (.inl rfl)

/-- A packet with nothing behind it that gets out gets out whole. -/
theorem scheduleWrite_delivers {p : WirePacket} (hc : s.io.isSome ∧ s.writeWatchId = 0)
    (hflight : InFlight s p) (h0 : s.packetWritten = 0) (hring : s.buffer.items = [])
    (hbye : s.bye = false) (hsent : s.writePacket.1 = .sent) :
    s.scheduleWrite.accepted = s.accepted ++ p.encode := by
  cases hp : s.writePacket with
  | mk r t =>
    rw [hp] at hsent
    cases hsent
    have hsending : Sending s.accepted p s :=
      ⟨hflight, by omega, by rw [h0, List.take_zero, List.append_nil]⟩
    have hmoved := writePacket_moved hsending hp
    have hacc : t.accepted = s.accepted ++ p.encode := by
      rw [hmoved.accepted, hmoved.sent rfl, hflight.size, List.take_length]
    obtain ⟨_, _, _, ht⟩ := writePacket_frame hp
    rcases nextPacket_cases t with ⟨m, rest, hb, _⟩ | ⟨_, htrue, _⟩ | ⟨_, _, he⟩
    · rw [ht] at hb
      cases hb.symm.trans hring
    · rw [ht] at htrue
      cases htrue.symm.trans hbye
    · rw [scheduleWrite_stop hc hp he]
      unfold finish
      by_cases hdone : t.done = true
      · simp only [if_pos hdone]
        exact hacc
      · simp only [if_neg hdone]
        exact hacc

theorem overflowPolicy_idle {bound : Option Nat} (hready : Ready s) (hopen : s.done = false)
    (hidle : s.Idle) (hcurrent : s.currentMessage = none) (hsize : s.buffer.maxSize = bound)
    (hpos : ∀ n, bound = some n → 0 < n) : OverflowPolicy bound s msg := by
  obtain ⟨hlocked, hsend⟩ := send_idle hopen hidle msg
  have hflight : msg.Fits →
      InFlight { s with currentMessage := some msg }.prepareCurrentMessage (.message msg) :=
    inFlight_message rfl
  obtain ⟨packet, hp⟩ := prepareCurrentMessage_frame
    (s := { s with currentMessage := some msg }) rfl
  let u : DBusLogSender := { s with
    currentMessage := some msg, packet := packet, packetSize := msg.wireSize
    packetWritten := 0, packetFixedPart := min packetMaxFixedPart msg.wireSize }
  change _ = u at hp
  rw [hp] at hlocked hsend hflight
  -- an idle sender without a current message has no watch, and so an empty ring
  have hrest : Resting s := by
    refine hready.state.resolve_right fun hwork => ?_
    cases hwork.carries with
    | message hsome _ =>
      rw [hcurrent] at hsome
      cases hsome
    | ping _ hlt _ => exact absurd hidle (Nat.ne_of_gt hlt)
  have hc : u.io.isSome ∧ u.writeWatchId = 0 := ⟨hready.io, hrest.forgotten⟩
  refine ⟨?_, ?_, ?_, ?_, ?_, fun _ => hcurrent⟩
  · intro n hn
    refine (s.send msg).buffer.bounded n ?_
    rw [hsend]
    exact scheduleWrite_ring (P := fun b => b.maxSize = some n) (fun _ h => h) (hsize.trans hn)
  · rw [hlocked]
    exact .inl rfl
  · obtain hkept | hsent | hdone := scheduleWrite_retains hc rfl
    · rw [hsend]
      exact .inl hkept
    · refine .inr ⟨hidle, .inl ⟨by rw [hlocked]; exact hsent, fun hfits => ?_⟩⟩
      rw [hsend]
      exact scheduleWrite_delivers hc (hflight hfits) rfl hrest.buffer hready.bye hsent
    · rw [hsend]
      exact .inr ⟨hidle, .inr hdone⟩
  · -- an empty ring is not full
    intro n hn hlen
    rw [hrest.buffer, List.length_nil] at hlen
    exact absurd hlen (Nat.ne_of_lt (hpos n hn))
  · intro _
    rw [hlocked]
    change [msg] ++ s.buffer.items = s.currentMessage.toList ++ s.buffer.items ++ [msg]
    rw [hcurrent, hrest.buffer]
    rfl

/-- A full ring that is not the ring of one message has a half to drop. -/
theorem one_lt_of_full {bound : Option Nat} (hsize : s.buffer.maxSize = bound)
    (hpos : ∀ n, bound = some n → 0 < n)
    (hroomy : ¬(bound = some 1 ∧ s.buffer.items.length = 1)) (hfull : s.buffer.canPut 1 ≠ true) :
    1 < s.buffer.items.length := by
  obtain ⟨n, hn, hlen⟩ := BoundedRing.size_eq_of_not_canPut hfull
  have hbound : bound = some n := hsize.symm.trans hn
  have h0 := hpos n hbound
  by_contra hshort
  have h1 : n = 1 := by omega
  subst h1
  exact hroomy ⟨hbound, hlen⟩

theorem overflowPolicy_busy {bound : Option Nat} (hopen : s.done = false) (hbusy : ¬s.Idle)
    (hsize : s.buffer.maxSize = bound) (hpos : ∀ n, bound = some n → 0 < n)
    (hroomy : ¬(bound = some 1 ∧ s.buffer.items.length = 1)) : OverflowPolicy bound s msg := by
  obtain ⟨hlocked, hsend⟩ := send_busy hopen hbusy msg
  have hretains : (s.queueMessage msg).Retains msg := by
    refine .inr ?_
    by_cases hput : s.buffer.canPut 1 = true
    · rw [queueMessage_room hput msg, List.getLast?_concat]
    · rw [queueMessage_full hput msg, if_pos (one_lt_of_full hsize hpos hroomy hput),
        List.getLast?_concat]
  refine ⟨?_, ?_, ?_, ?_, ?_, ?_⟩
  · intro n hn
    refine (s.send msg).buffer.bounded n ?_
    rw [hsend]
    exact (queueMessage_maxSize s msg).trans (hsize.trans hn)
  · rw [hlocked]
    exact hretains
  · rw [hsend]
    exact .inl hretains
  · -- a ring at its bound keeps the older half
    intro n hn hlen
    have hfull : s.buffer.canPut 1 ≠ true := by
      intro hput
      have := (BoundedRing.canPut_one_iff _).mp hput n (hsize.trans hn)
      omega
    have hlong := one_lt_of_full hsize hpos hroomy hfull
    rw [hsend, queueMessage_full hfull msg, if_pos hlong, hlen]
  · -- a ring below its bound takes the message
    intro hnot
    have hput : s.buffer.canPut 1 = true := by
      by_contra hfull
      obtain ⟨n, hn, hlen⟩ := BoundedRing.size_eq_of_not_canPut hfull
      exact hnot n (hsize.symm.trans hn) hlen
    rw [hlocked]
    change s.currentMessage.toList ++ (s.queueMessage msg).buffer.items = _
    rw [queueMessage_room hput msg, ← List.append_assoc]
    rfl
  · rw [hlocked]
    intro hflag
    cases hflag

end Send

/-! ## Where the policy fails -/

/-- The ring of one message is full. -/
theorem not_overflowPolicy_single {s : DBusLogSender} {msg : DBusLogMessage}
    (hlen : s.buffer.items.length = 1) : ¬OverflowPolicy (some 1) s msg := by
  intro h
  -- the policy asks for two messages in a ring of one
  have hitems := h.halved 1 rfl hlen
  have hle := h.bounded 1 rfl
  rw [hitems, List.length_append, List.length_take, hlen] at hle
  simp at hle

/-- The message that is being sent is overwritten. -/
theorem not_overflowPolicy_displaced {s : DBusLogSender} {msg : DBusLogMessage}
    {bound : Option Nat} (hopen : s.done = false) (hidle : s.Idle)
    (hcurrent : s.currentMessage.isSome) : ¬OverflowPolicy bound s msg := by
  intro h
  obtain ⟨hlocked, _⟩ := send_idle hopen hidle msg
  have hnone := h.undisplaced (by rw [hlocked])
  rw [hnone] at hcurrent
  cases hcurrent

/-- In every reachable state of a sender that is not done, on the main thread and with pings at
any time, a send follows the policy exactly if it does not find a full ring of one message behind
a packet in flight, nor a current message whose packet is empty. -/
theorem overflowPolicy {name : String} {backlog : Int32} {readfd writefd : Nat}
    {steps : List SenderStep} {s : DBusLogSender} (hmain : ∀ a ∈ steps, a.OnMainThread)
    (hrun : calls (new name backlog readfd writefd) steps = some s) (hopen : s.done = false)
    (msg : DBusLogMessage) (answers : List WriteAnswer) :
    OverflowPolicy (ringMaxSize (normalizeBacklog backlog)) { s with answers := answers } msg ↔
      ¬(backlog = 1 ∧ ¬s.Idle ∧ s.buffer.items.length = 1) ∧
        ¬(s.Idle ∧ s.currentMessage.isSome) := by
  obtain ⟨horderly, hsize⟩ := calls_orderly hmain hrun
  have hready := (horderly.ready hopen).answers answers
  have hpos : ∀ n, ringMaxSize (normalizeBacklog backlog) = some n → 0 < n :=
    fun _ hn => (ringMaxSize_normalizeBacklog hn).1
  constructor
  · intro h
    constructor
    · rintro ⟨rfl, _, hlen⟩
      exact not_overflowPolicy_single (s := { s with answers := answers }) hlen h
    · rintro ⟨hidle, hcurrent⟩
      exact not_overflowPolicy_displaced (s := { s with answers := answers }) hopen hidle hcurrent h
  · rintro ⟨hroomy, hcurrent⟩
    by_cases hidle : s.Idle
    · have hnone : s.currentMessage = none := by
        by_contra hsome
        exact hcurrent ⟨hidle, Option.isSome_iff_ne_none.mpr hsome⟩
      exact overflowPolicy_idle hready hopen hidle hnone hsize hpos
    · refine overflowPolicy_busy hopen hidle hsize hpos ?_
      rintro ⟨hone, hlen⟩
      exact hroomy ⟨(ringMaxSize_normalizeBacklog hone).2 rfl, hidle, hlen⟩

/-- Of two messages in a full ring the older one stays. -/
theorem overflowPolicy_two : ∃ s,
    calls (new "peer" 2 3 4) [.send (.new (some [97])) [], .send (.new (some [98])) [],
      .send (.new (some [99])) []] = some s ∧
    s.buffer.items = [.new (some [98]), .new (some [99])] ∧
    OverflowPolicy (ringMaxSize (normalizeBacklog 2)) { s with answers := [] }
      (.new (some [100])) := by
  obtain ⟨s, hs, he⟩ := Option.map_eq_some_iff.mp (by decide : (calls (new "peer" 2 3 4)
    [.send (.new (some [97])) [], .send (.new (some [98])) [],
      .send (.new (some [99])) []]).map (fun s => (s.done, decide s.Idle, s.buffer.items)) =
        some (false, false, [.new (some [98]), .new (some [99])]))
  simp only [Prod.mk.injEq, decide_eq_false_iff_not] at he
  obtain ⟨hopen, hbusy, hitems⟩ := he
  refine ⟨s, hs, hitems, (overflowPolicy (by decide) hs hopen _ _).mpr ⟨?_, ?_⟩⟩
  · rintro ⟨hone, _⟩
    cases hone
  · rintro ⟨hidle, _⟩
    exact hbusy hidle

/-- With a backlog of 1, one message being sent and one in the ring, the next one is lost. And a
message whose packet size wraps to zero is overwritten after it has been taken from the ring. -/
theorem overflowPolicy_one :
    (∃ s, calls (new "peer" 1 3 4) [.send (.new (some [97])) [], .send (.new (some [98])) []] =
        some s ∧ s.done = false ∧ s.outgoing = [.new (some [97]), .new (some [98])] ∧
      (s.send (.new (some [99]))).outgoing = s.outgoing ∧
      ¬(s.send (.new (some [99]))).Retains (.new (some [99])) ∧
      ¬OverflowPolicy (ringMaxSize (normalizeBacklog 1)) s (.new (some [99]))) ∧
    ∃ s, calls (new "peer" 5 3 4) [.send (.new (some [97])) [], .send hugeMessage [],
        .watch 1 true [.accept 22, .accept 1]] = some s ∧ s.done = false ∧ s.Idle ∧
      s.currentMessage.isSome ∧
      ¬OverflowPolicy (ringMaxSize (normalizeBacklog 5)) s (.new (some [99])) := by
  constructor
  · obtain ⟨s, hs, he⟩ := Option.map_eq_some_iff.mp (by decide : (calls (new "peer" 1 3 4)
      [.send (.new (some [97])) [], .send (.new (some [98])) []]).map (fun s =>
        (s.done, s.outgoing, (s.send (.new (some [99]))).outgoing, s.buffer.items.length,
          decide ((s.send (.new (some [99]))).Retains (.new (some [99]))))) =
      some (false, [.new (some [97]), .new (some [98])], [.new (some [97]), .new (some [98])], 1,
        false))
    simp only [Prod.mk.injEq, decide_eq_false_iff_not] at he
    obtain ⟨hopen, houtgoing, hafter, hlen, hlost⟩ := he
    exact ⟨s, hs, hopen, houtgoing, hafter.trans houtgoing.symm, hlost,
      not_overflowPolicy_single hlen⟩
  · obtain ⟨s, hs, he⟩ := Option.map_eq_some_iff.mp (by decide : (calls (new "peer" 5 3 4)
      [.send (.new (some [97])) [], .send hugeMessage [],
        .watch 1 true [.accept 22, .accept 1]]).map (fun s =>
          (s.done, decide s.Idle, s.currentMessage.isSome)) = some (false, true, true))
    simp only [Prod.mk.injEq, decide_eq_true_eq] at he
    obtain ⟨hopen, hidle, hcurrent⟩ := he
    exact ⟨s, hs, hopen, hidle, hcurrent, not_overflowPolicy_displaced hopen hidle hcurrent⟩

end DBusLogSender

end DBusLog

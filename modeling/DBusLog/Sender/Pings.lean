import DBusLog.Sender.Calls

/-!
# Pings behind a packet in flight

`dbus_log_sender_ping` takes a sender without a current message and with an empty ring for one that
has nothing in flight. An earlier PING that is still in flight passes for nothing: its header is
filled again and its bytes are counted from the start. In a run without such a ping the pipe
carries whole packets.
-/

namespace DBusLog

namespace DBusLogSender

/-- What a ping must not do to a packet in flight, and what the source asserts of one that goes
ahead. -/
structure PingHarmless (s : DBusLogSender) : Prop where
  undisturbed : s.packetWritten < s.packetSize →
    s.ping.2.packet = s.packet ∧ s.ping.2.packetSize = s.packetSize ∧
      s.ping.2.packetWritten = s.packetWritten ∧ s.ping.2.packetFixedPart = s.packetFixedPart
  asserted : s.canPing = true → s.packetSize = s.packetWritten

/-- A PING is in flight. -/
def PingInFlight (s : DBusLogSender) : Prop :=
  s.packetWritten < s.packetSize ∧ s.packetType = PacketType.ping.toByte

instance (s : DBusLogSender) : Decidable s.PingInFlight :=
  inferInstanceAs (Decidable (_ ∧ _))

/-- The step is not a ping on an open sender that holds no message while a PING is in flight. -/
def PingAllowed (s : DBusLogSender) : SenderStep → Prop
  | .ping _ => ¬(s.done = false ∧ s.buffer.items = [] ∧ s.PingInFlight)
  | _ => True

instance (s : DBusLogSender) : DecidablePred (PingAllowed s)
  | .ping _ => inferInstanceAs (Decidable (¬(_ ∧ _ ∧ _)))
  | .workerSend _ | .send _ _ | .close _ _ | .shutdown _ | .callback _ | .watch _ _ _ =>
    isTrue trivial

section Ready

variable {s : DBusLogSender}

/-- What a busy sender that would ping has in flight. -/
theorem Ready.pingInFlight (h : Ready s) (hbusy : ¬s.Idle) (hcan : s.canPing = true) :
    s.PingInFlight := by
  obtain ⟨_, hnone, _⟩ := s.canPing_iff.mp hcan
  cases (h.working_of_busy hbusy).carries with
  | message hsome _ =>
    rw [hnone] at hsome
    cases hsome
  | ping _ hlt htype => exact ⟨hlt, htype⟩

/-- A PING in flight does not keep the sender from pinging. -/
theorem Ready.canPing (h : Ready s) (hopen : s.done = false) (hring : s.buffer.items = [])
    (hping : s.PingInFlight) : s.canPing = true := by
  have hbusy : ¬s.Idle := Nat.ne_of_gt hping.1
  cases (h.working_of_busy hbusy).carries with
  | message _ htype => cases htype.symm.trans hping.2
  | ping hnone _ _ => exact s.canPing_iff.mpr ⟨hopen, hnone, hring⟩

theorem pingHarmless_iff (h : s.done = false → Ready s) :
    PingHarmless s ↔ ¬(s.done = false ∧ s.buffer.items = [] ∧ s.PingInFlight) := by
  constructor
  · rintro hharmless ⟨hopen, hring, hping⟩
    have hidle := hharmless.asserted ((h hopen).canPing hopen hring hping)
    exact Nat.ne_of_gt hping.1 hidle
  · intro hnot
    have hasserted : s.canPing = true → s.packetSize = s.packetWritten := by
      intro hcan
      obtain ⟨hopen, _, hring⟩ := s.canPing_iff.mp hcan
      by_contra hbusy
      exact hnot ⟨hopen, hring, (h hopen).pingInFlight hbusy hcan⟩
    refine ⟨fun hlt => ?_, hasserted⟩
    -- with a packet in flight the ping is refused
    obtain ⟨hcan, _⟩ | ⟨_, he⟩ := ping_cases s
    · exact absurd (hasserted hcan) (Nat.ne_of_gt hlt)
    · rw [he]
      exact ⟨rfl, rfl, rfl, rfl⟩

end Ready

/-! ## The stream of a run of calls -/

section Stream

variable {s t : DBusLogSender} {l : Ledger} {a : SenderStep} {clean : Prop}

/-- A ping that is refused changes nothing. -/
theorem StreamInv.callStep (horderly : Orderly s) (h : StreamInv clean s l)
    (hmain : a.OnMainThread) (hfits : s.PreparesFit a) (hclean : clean → a.Clean)
    (hallowed : PingAllowed s a) (ht : s.callStep a = some t) :
    StreamInv clean t (s.record a l) := by
  obtain hstep | ⟨hbusy, answers, rfl, rfl⟩ := callStep_cases ht
  · exact h.step horderly.toWatchInv hmain hfits hclean hstep
  · rcases ping_cases { s with answers := answers } with ⟨hcan, _⟩ | ⟨hrefused, he⟩
    · obtain ⟨hopen, _, hring⟩ := (canPing_iff _).mp hcan
      exact absurd ⟨hopen, hring, (horderly.ready hopen).pingInFlight hbusy hcan⟩ hallowed
    · have hcan : s.canPing = false := hrefused
      have hrecord : s.record (.ping answers) l = l := if_neg (by simp [hcan])
      rw [hrecord, he]
      exact h.of_frame s.watches s.lastWatchId s.writeWatchId s.nullWatches answers

theorem callStep_fits (h : ∀ m ∈ s.buffer.items, m.Fits) (hfits : ∀ m ∈ a.message?, m.Fits)
    (ht : s.callStep a = some t) : ∀ m ∈ t.buffer.items, m.Fits := by
  obtain hstep | ⟨_, answers, _, rfl⟩ := callStep_cases ht
  · exact step_fits h hfits hstep
  · exact ping_ring (s := { s with answers := answers }) (P := fun b => ∀ m ∈ b.items, m.Fits)
      (fun _ h m hm => h m (List.mem_of_mem_tail hm)) h

/-- The ledger of a run of calls. -/
def callLedger (s : DBusLogSender) (steps : List SenderStep) : Ledger :=
  Runs.history record callStep s steps Ledger.empty

theorem calls_streamInv {name : String} {backlog : Int32} {readfd writefd : Nat}
    {steps : List SenderStep} (hmain : ∀ a ∈ steps, a.OnMainThread)
    (hfits : ∀ a ∈ steps, ∀ m ∈ a.message?, m.Fits)
    (hallowed : Runs.Meets callStep PingAllowed (new name backlog readfd writefd) steps)
    (hrun : calls (new name backlog readfd writefd) steps = some t) :
    StreamInv False t (callLedger (new name backlog readfd writefd) steps) ∧
      Accounted (callLedger (new name backlog readfd writefd) steps) := by
  have hsteps : Runs.Meets callStep (fun _ a => a.OnMainThread ∧ ∀ m ∈ a.message?, m.Fits)
      (new name backlog readfd writefd) steps :=
    Runs.meets_of_forall (fun a ha => ⟨hmain a ha, hfits a ha⟩) _
  have hinv := Runs.history_invariant (f := record) (g := Ledger.empty)
    (P := fun s l => Orderly s ∧ (∀ m ∈ s.buffer.items, m.Fits) ∧ StreamInv False s l ∧
      Accounted l)
    (fun s a s' l ⟨horderly, hring, h, hok⟩ ⟨⟨hmain, hfits⟩, hallowed⟩ hs =>
      ⟨horderly.callStep hmain hs, callStep_fits hring hfits hs,
        h.callStep horderly hmain (preparesFit_of hring hfits) False.elim hallowed hs,
        hok.record h a⟩)
    (Runs.meets_and hsteps hallowed) hrun
    ⟨Orderly.new name backlog readfd writefd, fun _ hm => absurd hm List.not_mem_nil,
      .new False name backlog readfd writefd, accounted_empty⟩
  exact hinv.2.2

end Stream

/-- In every state that the main thread can bring a sender to, with pings at any time, a ping is
harmless exactly if it does not come to an open sender with an empty ring while a PING is in
flight. If no ping of the run does, the pipe has taken the beginning of a stream of whole packets,
and exactly whole packets whenever an open sender has nothing in flight. -/
theorem pingHarmless {name : String} {backlog : Int32} {readfd writefd : Nat}
    {steps : List SenderStep} {s : DBusLogSender} (hmain : ∀ a ∈ steps, a.OnMainThread)
    (hrun : calls (new name backlog readfd writefd) steps = some s) :
    (∀ answers, PingHarmless { s with answers := answers } ↔
      ¬(s.done = false ∧ s.buffer.items = [] ∧ s.PingInFlight)) ∧
    (Runs.Meets callStep PingAllowed (new name backlog readfd writefd) steps →
      (∀ a ∈ steps, ∀ m ∈ a.message?, m.Fits) →
      ∃ body bye, s.accepted <+: WirePacket.encodeAll (body ++ bye) ∧ .bye ∉ body ∧
        (bye = [] ∨ bye = [.bye]) ∧
        (s.done = false → s.Idle → s.accepted = WirePacket.encodeAll body)) := by
  obtain ⟨horderly, _⟩ := calls_orderly hmain hrun
  constructor
  · intro answers
    exact pingHarmless_iff fun hopen => (horderly.ready hopen).answers answers
  · intro hallowed hfits
    obtain ⟨hinv, hacc⟩ := calls_streamInv hmain hfits hallowed hrun
    refine ⟨_, _, hinv.accepted, hacc.noBye, ?_, ?_⟩
    · split
      · exact .inr rfl
      · exact .inl rfl
    · intro hopen hidle
      obtain ⟨_, _, hquiet⟩ := hinv.idle hopen hidle
      rw [hquiet.accepted, packets_open hquiet.closed]

/-- A ping, and then two behind a message of which the pipe has taken seven bytes. -/
theorem pingHarmless_behindMessage : ∃ s,
    calls (new "peer" 0 3 4) [.ping [.accept 5], .send (.new (some [104])) [.accept 7],
      .ping [.accept 5]] = some s ∧
    s.packetWritten = 7 ∧ PingHarmless { s with answers := [.accept 5] } ∧
    ∃ body bye, s.accepted <+: WirePacket.encodeAll (body ++ bye) ∧ .bye ∉ body ∧
      (bye = [] ∨ bye = [.bye]) := by
  obtain ⟨s, hs, he⟩ := Option.map_eq_some_iff.mp (by decide : (calls (new "peer" 0 3 4)
    [.ping [.accept 5], .send (.new (some [104])) [.accept 7], .ping [.accept 5]]).map (fun s =>
      (s.packetWritten, decide s.PingInFlight)) = some (7, false))
  simp only [Prod.mk.injEq, decide_eq_false_iff_not] at he
  obtain ⟨hharmless, hstream⟩ := pingHarmless (by decide) hs
  obtain ⟨body, bye, hacc, hnot, hbye, _⟩ := hstream (by decide) (by decide)
  exact ⟨s, hs, he.1, (hharmless _).mpr fun h => he.2 h.2.2, body, bye, hacc, hnot, hbye⟩

theorem five_le_encode (p : WirePacket) : 5 ≤ p.encode.length := by
  cases p with
  | ping => exact le_rfl
  | message m =>
    rw [WirePacket.encode_message_length]
    omega
  | bye => exact le_rfl

/-- Between one packet of a header and two packets there is nothing. -/
theorem encodeAll_length_ne {ps : List WirePacket} {n : Nat} (h5 : 5 < n) (h10 : n < 10) :
    (WirePacket.encodeAll ps).length ≠ n := by
  intro h
  match ps with
  | [] =>
    rw [WirePacket.encodeAll_nil, List.length_nil] at h
    omega
  | [p] =>
    cases p with
    | message m =>
      rw [WirePacket.encodeAll_cons, List.length_append, WirePacket.encode_message_length] at h
      omega
    | ping => exact absurd h (Nat.ne_of_lt h5)
    | bye => exact absurd h (Nat.ne_of_lt h5)
  | p :: q :: ps =>
    have hp := five_le_encode p
    have hq := five_le_encode q
    simp only [WirePacket.encodeAll_cons, List.length_append] at h
    omega

/-- A PING of which the pipe has taken two bytes, a second ping, and a pipe that then takes all it
is given: seven bytes, which are no packets. -/
theorem ping_restartsPing : ∃ s t,
    calls (new "peer" 0 3 4) [.ping [.accept 2]] = some s ∧ s.packetWritten < s.packetSize ∧
      s.canPing = true ∧ ¬PingHarmless s ∧
    calls s [.ping [], .watch 1 true [.accept 5]] = some t ∧ t.Idle ∧ t.done = false ∧
      ∀ ps, t.accepted ≠ WirePacket.encodeAll ps := by
  obtain ⟨s, hs, he⟩ := Option.map_eq_some_iff.mp (by decide : (calls (new "peer" 0 3 4)
    [.ping [.accept 2]]).map (fun s => (s.packetWritten, s.packetSize, s.canPing)) =
      some (2, 5, true))
  obtain ⟨t, hrun, he'⟩ := Option.map_eq_some_iff.mp (by decide : (calls (new "peer" 0 3 4)
    ([.ping [.accept 2]] ++ [.ping [], .watch 1 true [.accept 5]])).map (fun t =>
      (decide t.Idle, t.done, t.accepted.length)) = some (true, false, 7))
  obtain ⟨s', hs', ht⟩ := Runs.run_append_iff.mp hrun
  cases hs'.symm.trans hs
  simp only [Prod.mk.injEq, decide_eq_true_eq] at he he'
  obtain ⟨hwritten, hsize, hcan⟩ := he
  obtain ⟨hidle, hopen, hlen⟩ := he'
  refine ⟨s, t, hs, by omega, hcan, ?_, ht, hidle, hopen, ?_⟩
  · intro h
    have := h.asserted hcan
    omega
  · intro ps heq
    rw [heq] at hlen
    exact encodeAll_length_ne (by omega) (by omega) hlen

end DBusLogSender

end DBusLog

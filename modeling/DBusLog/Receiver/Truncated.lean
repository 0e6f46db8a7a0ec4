import DBusLog.Receiver.RoundTrip

/-!
# A stream that breaks off

A receiver whose channel delivers only the beginning of a stream of packets. It emits the events
of the packets that have come completely and no others, and it does not take the end of the bytes
for the end of the stream.
-/

namespace DBusLog

namespace Feed

open PacketState

theorem feed_running_of_prefix {p q : PacketState} {xs ys : List UInt8}
    (h : feed (.running p) (xs ++ ys) = .running q) : ∃ q', feed (.running p) xs = .running q' := by
  rw [feed_append] at h
  cases hx : feed (.running p) xs with
  | running q' => exact ⟨q', rfl⟩
  | stopped q' =>
    rw [hx, feed_stopped] at h
    cases h
  | faulted q' =>
    rw [hx, feed_faulted] at h
    cases h

/-- The parser waits for the last byte of BYE. -/
theorem feed_unfinishedBye {p : PacketState} {last : Option UInt32} {events : List ReceiverEvent}
    (h : AtBoundary p last events) :
    ∃ q, feed (.running p) (WirePacket.encode .bye).dropLast = .running q := by
  have hread := h.read
  have hlength : (WirePacket.encode .bye).dropLast.length = 4 := rfl
  have hne : (WirePacket.encode .bye).dropLast ≠ [] := List.cons_ne_nil _ _
  have hle : p.packetRead + (WirePacket.encode .bye).dropLast.length ≤ p.limit .header := by
    rw [hread, hlength]
    change 0 + 4 ≤ packetHeaderSize
    decide
  rw [feed_phase h.phase hne hle]
  unfold arrive
  simp only [put, hread, hlength]
  refine ⟨_, if_pos ?_⟩
  change 0 + 4 < packetHeaderSize
  decide

/-- The parser stops at the last byte of a stream and not before. -/
theorem stream_end {ps : List WirePacket} (hbye : .bye ∉ ps)
    (hps : ∀ m ∈ WirePacket.messages ps, m.Fits) {bytes : List UInt8}
    (hbegins : bytes <+: WirePacket.encodeAll (ps ++ [.bye])) {p : PacketState}
    (hstop : feed (.running .new) bytes = .stopped p) :
    bytes = WirePacket.encodeAll (ps ++ [.bye]) := by
  obtain ⟨q, last, hq, hboundary⟩ := feed_packets new_atBoundary hbye hps
  obtain ⟨q', hq'⟩ := feed_unfinishedBye hboundary
  have hne : WirePacket.encode .bye ≠ [] := List.cons_ne_nil _ _
  have hwhole : WirePacket.encodeAll (ps ++ [.bye]) =
      (WirePacket.encodeAll ps ++ (WirePacket.encode .bye).dropLast) ++
        [(WirePacket.encode .bye).getLast hne] := by
    rw [WirePacket.encodeAll_append, List.append_assoc, List.dropLast_append_getLast hne,
      WirePacket.encodeAll_cons, WirePacket.encodeAll_nil, List.append_nil]
  have hrunning : feed (.running .new)
      (WirePacket.encodeAll ps ++ (WirePacket.encode .bye).dropLast) = .running q' := by
    rw [feed_append, hq, hq']
  rw [hwhole] at hbegins ⊢
  obtain hshort | heq := List.prefix_concat_iff.mp hbegins |>.symm
  · obtain ⟨rest, hrest⟩ := hshort
    rw [← hrest] at hrunning
    obtain ⟨q'', hq''⟩ := feed_running_of_prefix hrunning
    cases hstop.symm.trans hq''
  · exact heq

end Feed

namespace DBusLogReceiver

open Feed

variable {ps : List WirePacket} {chunks : List (List UInt8)}

/-- However a broken off stream is cut, and however far it has been read, the receiver has emitted
a beginning of the events of the whole stream, and it has closed only if nothing is missing. -/
theorem truncated_events (hbye : .bye ∉ ps) (hps : ∀ m ∈ WirePacket.messages ps, m.Fits) (fd : Nat)
    (doClose : Bool) (hchunks : chunks.flatten <+: WirePacket.encodeAll (ps ++ [.bye])) (n : Nat) :
    let r := (dispatch ReceiverHandlers.passive)^[n] (new fd doClose (chunks.map .data))
    r.faulted = false ∧
      r.events <+: ReceiverEvent.announceAll none (WirePacket.messages ps) ++ [.closed] ∧
      (.closed ∈ r.events → chunks.flatten = WirePacket.encodeAll (ps ++ [.bye])) := by
  intro r
  obtain ⟨final, hfinal, hevents⟩ := feed_stream hbye hps
  obtain ⟨rest, hrest⟩ := hchunks
  have hwhole : feed (feed (.running .new) chunks.flatten) rest = .stopped final := by
    rw [← feed_append, hrest, hfinal]
  have hshown := feed_events (feed (.running .new) chunks.flatten) rest
  rw [hwhole] at hshown
  change _ <+: final.events at hshown
  rw [hevents] at hshown
  obtain hheading | ⟨p, hp, hclosed⟩ | ⟨p, hp, _⟩ := (new_heading fd doClose chunks).onWay n
  · have hsofar := feed_events (.running r.toPacketState) (pendingBytes r.input)
    rw [hheading.rest] at hsofar
    have hpart : r.events <+: ReceiverEvent.announceAll none (WirePacket.messages ps) :=
      hsofar.trans hshown
    refine ⟨hheading.intact, hpart.trans (List.prefix_append _ _), fun hmem => ?_⟩
    exact absurd (hpart.subset hmem) (ReceiverEvent.closed_not_mem_announceAll _ _)
  · -- the parser has stopped, so all of the stream has come
    have hall := stream_end hbye hps ⟨rest, hrest⟩ hp
    refine ⟨hclosed.intact, ?_, fun _ => hall⟩
    have hp' : final = p := by
      rw [hall, hfinal] at hp
      cases hp
      rfl
    have hclosing := congrArg PacketState.events hclosed.parser
    change r.events = p.events ++ [.closed] at hclosing
    rw [← hp', hevents] at hclosing
    exact ⟨[], (List.append_nil _).trans hclosing⟩
  · rw [hp, feed_faulted] at hwhole
    cases hwhole

/-- Once all has been read that there is, the receiver has emitted the events of all packets that
have come. -/
theorem truncated_complete (hbye : .bye ∉ ps) (hps : ∀ m ∈ WirePacket.messages ps, m.Fits)
    (fd : Nat) (doClose : Bool) (hchunks : chunks.flatten = WirePacket.encodeAll ps) {n : Nat}
    (hn : chunks.flatten.length + chunks.length ≤ n) :
    ((dispatch ReceiverHandlers.passive)^[n] (new fd doClose (chunks.map .data))).events =
      ReceiverEvent.announceAll none (WirePacket.messages ps) := by
  obtain ⟨q, last, hq, hboundary⟩ := feed_packets new_atBoundary hbye hps
  rw [← hchunks] at hq
  have hheading := new_heading fd doClose chunks
  rw [hq] at hheading
  obtain ⟨hlast, hleft⟩ | ⟨p, hp, _⟩ | ⟨p, hp, _⟩ := hheading.steps n
  · have hnone : pendingBytes ((dispatch ReceiverHandlers.passive)^[n]
        (new fd doClose (chunks.map .data))).input = [] := by
      obtain hnil | hleft := hleft
      · exact hnil
      · rw [new_readsLeft] at hleft
        have hzero : readsLeft ((dispatch ReceiverHandlers.passive)^[n]
          (new fd doClose (chunks.map .data))).input = 0 := by omega
        unfold readsLeft at hzero
        exact List.length_eq_zero_iff.mp (by omega)
    have hrest := hlast.rest
    rw [hnone, feed_nil] at hrest
    have hstate := Feed.running.inj hrest
    exact (congrArg PacketState.events hstate).trans hboundary.events
  · cases hp
  · cases hp

end DBusLogReceiver

end DBusLog

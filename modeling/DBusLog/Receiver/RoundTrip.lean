import DBusLog.Receiver.Chunks
import DBusLog.Receiver.Packets
import DBusLog.Sender.Packet

/-!
# The wire round trip

A receiver whose channel delivers a stream of packets that ends with a BYE is either still reading
it or has closed. Every dispatch of a reading one makes progress, so the stream is read to its end
however the channel cuts it, and the events are those of its messages.
-/

namespace DBusLog

namespace Feed

open PacketState

/-- The parser state behind the status. -/
def state : Feed → PacketState
  | .running p | .stopped p | .faulted p => p

theorem handled_events (p : PacketState) : p.events <+: (handled p).state.events := by
  unfold handled PacketState.handlePacket
  by_cases hm : p.packetType = PacketType.message.toByte
  · rw [if_pos hm]
    change p.events <+: p.events ++ _ ++ _
    rw [List.append_assoc]
    exact List.prefix_append _ _
  · rw [if_neg hm]
    by_cases hbye : p.packetType = PacketType.bye.toByte
    · simp only [hbye, ne_eq, not_true_eq_false, decide_false]
      exact List.prefix_rfl
    · simp only [hbye, ne_eq, not_false_eq_true, decide_true]
      exact List.prefix_rfl

theorem settle_events (p : PacketState) : p.events <+: (settle p).state.events := by
  cases hp : p.phase with
  | some ph =>
    rw [settle_running hp]
    exact List.prefix_rfl
  | none =>
    rw [settle_handled hp]
    exact handled_events p

theorem after_events (p : PacketState) (ph : Phase) : (p.after ph).events = p.events := by
  cases ph with
  | header => rfl
  | fixed =>
    change p.allocBuffer.events = p.events
    unfold allocBuffer
    split <;> rfl
  | data => rfl

theorem feedByte_events (f : Feed) (b : UInt8) : f.state.events <+: (feedByte f b).state.events := by
  cases f with
  | running p =>
    cases hp : p.phase with
    | none =>
      unfold feedByte
      simp only [hp]
      exact List.prefix_rfl
    | some ph =>
      rw [feedByte_running hp]
      change p.events <+: _
      unfold arrive
      cases hput : p.put [b] ph with
      | none => exact List.prefix_rfl
      | some q =>
        have hq := (put_frame hput).2.2.2
        have hsettle := settle_events (q.after ph)
        rw [after_events, hq] at hsettle
        by_cases hlt : q.packetRead < p.limit ph
        · simp only [if_pos hlt]
          exact ⟨[], (List.append_nil _).trans hq.symm⟩
        · simp only [if_neg hlt]
          exact hsettle
  | stopped p => exact List.prefix_rfl
  | faulted p => exact List.prefix_rfl

/-- Feeding only adds events. -/
theorem feed_events (f : Feed) (bytes : List UInt8) :
    f.state.events <+: (feed f bytes).state.events := by
  induction bytes generalizing f with
  | nil => exact List.prefix_rfl
  | cons b bytes ih => exact (feedByte_events f b).trans (ih (feedByte f b))

end Feed

namespace DBusLogReceiver

open Feed

/-! ## The receiver in the main loop -/

/-- A receiver that still has to read a stream which leads to `final`. -/
structure Reading (final : PacketState) (r : DBusLogReceiver) : Prop where
  onlyData : OnlyData r.input
  waits : ∃ ph, r.phase = some ph
  rest : feed (.running r.toPacketState) (pendingBytes r.input) = .stopped final
  opened : r.io.isSome
  watched : r.watches = [r.readWatchId]
  intact : r.faulted = false

/-- A receiver that has read the stream and closed. -/
structure Finished (final : PacketState) (r : DBusLogReceiver) : Prop where
  events : r.events = final.events ++ [.closed]
  closed : r.io = none
  unwatched : r.watches = []
  intact : r.faulted = false

theorem Reading.input_ne_nil {final : PacketState} {r : DBusLogReceiver} (h : Reading final r) :
    r.input ≠ [] := by
  intro hnil
  have hrest := h.rest
  rw [hnil] at hrest
  cases hrest

theorem Reading.events {final : PacketState} {r : DBusLogReceiver} (h : Reading final r) :
    r.events <+: final.events := by
  have hprefix := feed_events (.running r.toPacketState) (pendingBytes r.input)
  rw [h.rest] at hprefix
  exact hprefix

theorem Reading.heading {final : PacketState} {r : DBusLogReceiver} (h : Reading final r) :
    Heading (.stopped final) r := ⟨h.onlyData, h.waits, h.rest, h.opened, h.watched, h.intact⟩

theorem Closed.finished {final : PacketState} {r : DBusLogReceiver} (h : Closed final r) :
    Finished final r where
  events := by
    rw [h.parser]
    rfl
  closed := h.closed
  unwatched := h.unwatched
  intact := h.intact

/-- One dispatch reads on, with less left to read, or finishes. -/
theorem Reading.step {final : PacketState} {r : DBusLogReceiver} (h : Reading final r) :
    (Reading final (dispatch ReceiverHandlers.passive r) ∧
      readsLeft (dispatch ReceiverHandlers.passive r).input < readsLeft r.input) ∨
    Finished final (dispatch ReceiverHandlers.passive r) := by
  obtain ⟨hnext, _, hless⟩ | ⟨p, hp, hclosed⟩ | ⟨p, hp, _⟩ := h.heading.step
  · exact .inl ⟨⟨hnext.onlyData, hnext.waits, hnext.rest, hnext.opened, hnext.watched,
      hnext.intact⟩, hless h.input_ne_nil⟩
  · cases hp
    exact .inr hclosed.finished
  · -- payload without a buffer: the stream does not lead there
    cases hp

theorem Finished.step {final : PacketState} {r : DBusLogReceiver} (h : Finished final r) :
    Finished final (dispatch ReceiverHandlers.passive r) := by
  have hsame : dispatch ReceiverHandlers.passive r = r := by
    unfold dispatch
    rw [h.intact, h.unwatched]
    rfl
  rw [hsame]
  exact h

/-- Any number of dispatches: every one of them has made progress, or the stream is finished. -/
theorem Reading.steps {final : PacketState} {r : DBusLogReceiver} (h : Reading final r)
    (n : Nat) :
    (Reading final ((dispatch ReceiverHandlers.passive)^[n] r) ∧
      readsLeft ((dispatch ReceiverHandlers.passive)^[n] r).input + n ≤
        readsLeft r.input) ∨
    Finished final ((dispatch ReceiverHandlers.passive)^[n] r) := by
  induction n with
  | zero => exact .inl ⟨h, le_rfl⟩
  | succ n ih =>
    rw [Function.iterate_succ_apply']
    obtain ⟨hreading, hleft⟩ | hfinished := ih
    · obtain ⟨hreading', hless⟩ | hfinished := hreading.step
      · exact .inl ⟨hreading', by omega⟩
      · exact .inr hfinished
    · exact .inr hfinished.step

theorem new_reading {final : PacketState} (fd : Nat) (doClose : Bool)
    {chunks : List (List UInt8)}
    (h : feed (.running .new) chunks.flatten = .stopped final) :
    Reading final (new fd doClose (chunks.map .data)) := by
  have hheading := new_heading fd doClose chunks
  exact ⟨hheading.onlyData, hheading.waits, hheading.rest.trans h, hheading.opened,
    hheading.watched, hheading.intact⟩

/-- A stream that stops the parser is read to its end. -/
theorem new_finished {final : PacketState} (fd : Nat) (doClose : Bool)
    {chunks : List (List UInt8)}
    (h : feed (.running .new) chunks.flatten = .stopped final) {n : Nat}
    (hn : chunks.flatten.length + chunks.length ≤ n) :
    Finished final ((dispatch ReceiverHandlers.passive)^[n] (new fd doClose (chunks.map .data))) := by
  obtain ⟨hreading, hleft⟩ | hfinished := (new_reading fd doClose h).steps n
  · have hpos : 0 < readsLeft ((dispatch ReceiverHandlers.passive)^[n]
        (new fd doClose (chunks.map .data))).input :=
      Nat.lt_of_lt_of_le (List.length_pos_iff.mpr hreading.input_ne_nil) (Nat.le_add_left _ _)
    rw [new_readsLeft] at hleft
    omega
  · exact hfinished

end DBusLogReceiver

/-! ## Both ends of the pipe -/

namespace DBusLogSender

/-- A sender that has prepared the packet. -/
def prepare (s : DBusLogSender) : WirePacket → DBusLogSender
  | .ping => { s with currentMessage := none }.fillHeader 0 .ping
  | .message m => { s with currentMessage := some m }.prepareCurrentMessage
  | .bye => { s with currentMessage := none }.prepareBye

/-- The bytes that `write` has to get out for the packet in flight. -/
def packetBytes (s : DBusLogSender) : List UInt8 :=
  s.packet.bytes.take s.packetFixedPart ++
    s.messageData.take (s.packetSize - s.packetFixedPart)

/-- The bytes of one packet after another. -/
def streamBytes : DBusLogSender → List WirePacket → List UInt8
  | _, [] => []
  | s, p :: ps => (s.prepare p).packetBytes ++ (s.prepare p).streamBytes ps

theorem packetBytes_prepare (s : DBusLogSender) {p : WirePacket}
    (h : ∀ m, p.message? = some m → m.Fits) : (s.prepare p).packetBytes = p.encode := by
  have hflight : InFlight (s.prepare p) p := by
    cases p with
    | ping => exact inFlight_ping (s := { s with currentMessage := none }) rfl
    | message m => exact inFlight_message (s := { s with currentMessage := some m }) rfl (h m rfl)
    | bye => exact inFlight_bye (s := { s with currentMessage := none }) rfl
  have hlen := congrArg List.length hflight.bytes
  rw [List.length_append, hflight.fixed_length, ← hflight.size] at hlen
  have hdata : (s.prepare p).messageData.take
      ((s.prepare p).packetSize - (s.prepare p).packetFixedPart) = (s.prepare p).messageData :=
    List.take_of_length_le (by omega)
  rw [packetBytes, hdata, hflight.bytes]

theorem streamBytes_eq (s : DBusLogSender) {ps : List WirePacket}
    (h : ∀ m ∈ WirePacket.messages ps, m.Fits) : s.streamBytes ps = WirePacket.encodeAll ps := by
  induction ps generalizing s with
  | nil => rfl
  | cons p ps ih =>
    have hp : ∀ m, p.message? = some m → m.Fits :=
      fun m hm => h m (List.mem_filterMap.mpr ⟨p, List.mem_cons_self, hm⟩)
    have hps : ∀ m ∈ WirePacket.messages ps, m.Fits := by
      intro m hm
      obtain ⟨q, hq, hqm⟩ := List.mem_filterMap.mp hm
      exact h m (List.mem_filterMap.mpr ⟨q, List.mem_cons_of_mem p hq, hqm⟩)
    rw [streamBytes, packetBytes_prepare s hp, ih _ hps, WirePacket.encodeAll_cons]

end DBusLogSender

namespace DBusLogReceiver

/-- Whatever pings and messages a sender prepares before its BYE, and wherever the channel cuts
them, the receiver emits those messages in order, and then closes, and that is all. -/
theorem wireRoundTrip (s : DBusLogSender) (ps : List WirePacket) (hbye : .bye ∉ ps)
    (hps : ∀ m ∈ WirePacket.messages ps, m.Sendable) (fd : Nat) (doClose : Bool)
    (chunks : List (List UInt8)) (hchunks : chunks.flatten = s.streamBytes (ps ++ [.bye])) :
    ∃ events : List ReceiverEvent,
      (events.filterMap ReceiverEvent.message?).map (·.content) =
        (WirePacket.messages ps).map (·.content) ∧
      .closed ∉ events ∧
      ∀ n, let r := (dispatch ReceiverHandlers.passive)^[n] (new fd doClose (chunks.map .data))
        r.faulted = false ∧
        ((r.io.isSome ∧ r.events <+: events) ∨ (r.io = none ∧ r.events = events ++ [.closed])) ∧
        (chunks.flatten.length + chunks.length ≤ n → r.io = none) := by
  have hmessages : WirePacket.messages (ps ++ [.bye]) = WirePacket.messages ps := by
    rw [WirePacket.messages_append]
    exact List.append_nil _
  have hfits : ∀ m ∈ WirePacket.messages (ps ++ [.bye]), m.Fits := by
    intro m hm
    rw [hmessages] at hm
    exact (hps m hm).1
  obtain ⟨final, hfinal, hevents⟩ := Feed.feed_stream hbye fun m hm => (hps m hm).1
  rw [← s.streamBytes_eq hfits, ← hchunks] at hfinal
  refine ⟨final.events, ?_, ?_, fun n => ?_⟩
  · rw [hevents, ReceiverEvent.announceAll_messages, List.map_map]
    refine List.map_congr_left fun m hm => ?_
    exact DBusLogMessage.content_received (hps m hm)
  · rw [hevents]
    exact ReceiverEvent.closed_not_mem_announceAll _ _
  · obtain ⟨hreading, _⟩ | hfinished := (new_reading fd doClose hfinal).steps n
    · refine ⟨hreading.intact, .inl ⟨hreading.opened, hreading.events⟩, fun hn => ?_⟩
      exact (new_finished fd doClose hfinal hn).closed
    · exact ⟨hfinished.intact, .inr ⟨hfinished.closed, hfinished.events⟩,
        fun _ => hfinished.closed⟩

/-- A ping and a message of two bytes, cut inside the headers and inside the text. -/
theorem wireRoundTrip_cut :
    let m := { DBusLogMessage.new (some [72, 105]) with
      timestamp := 0x0102030405060708, index := 7, category := 2, level := Level.info }
    let chunks : List (List UInt8) := [[0, 0, 0], [], [0, 0, 19, 0, 0, 0, 1, 8],
      [7, 6, 5, 4, 3, 2, 1, 7, 0, 0, 0, 2, 0, 0, 0, 6, 72], [105, 0, 0], [0, 0, 2]]
    ∃ events : List ReceiverEvent,
      (events.filterMap ReceiverEvent.message?).map (·.content) = [m.content] ∧
      .closed ∉ events ∧
      ∀ n, let r := (dispatch ReceiverHandlers.passive)^[n] (new 3 true (chunks.map .data))
        r.faulted = false ∧
        ((r.io.isSome ∧ r.events <+: events) ∨ (r.io = none ∧ r.events = events ++ [.closed])) ∧
        (chunks.flatten.length + chunks.length ≤ n → r.io = none) :=
  wireRoundTrip (DBusLogSender.new "test" 0 3 4)
    [.ping, .message { DBusLogMessage.new (some [72, 105]) with
      timestamp := 0x0102030405060708, index := 7, category := 2, level := Level.info }]
    (by decide) (by decide) 3 true
    [[0, 0, 0], [], [0, 0, 19, 0, 0, 0, 1, 8],
      [7, 6, 5, 4, 3, 2, 1, 7, 0, 0, 0, 2, 0, 0, 0, 6, 72], [105, 0, 0], [0, 0, 2]]
    (by decide)

end DBusLogReceiver

end DBusLog

import DBusLog.Receiver.Feed
import Mathlib.Data.List.GetD

/-!
# Feeding complete packets

At a packet boundary the parser has read nothing and owns no buffer. The bytes of a PING lead from
a boundary to a boundary, those of a MESSAGE also announce the message, and those of a BYE stop the
parser.
-/

namespace DBusLog

namespace DBusLogMessage

/-- What a message says: every field, with a missing text read as an empty one. -/
def content (m : DBusLogMessage) : UInt64 × UInt32 × UInt32 × Level × Nat × List UInt8 :=
  (m.timestamp, m.index, m.category, m.level, m.length, m.text)

/-- The message as the receiver rebuilds it. The level has travelled in one byte, and an empty text
gets no buffer. -/
def received (m : DBusLogMessage) : DBusLogMessage :=
  { m with
    level := m.level.toUInt8.toUInt32
    string := if m.length = 0 then none else some m.text }

/-- The level survives in the single byte that the protocol has for it. -/
def Sendable (m : DBusLogMessage) : Prop := m.Fits ∧ m.level < 256

instance (m : DBusLogMessage) : Decidable m.Sendable := inferInstanceAs (Decidable (_ ∧ _))

theorem content_received {m : DBusLogMessage} (hm : m.Sendable) :
    m.received.content = m.content := by
  obtain ⟨h, hlevel⟩ := hm
  have hlev : m.level.toUInt8.toUInt32 = m.level := by
    have hlt : m.level.toNat < 256 := hlevel
    apply UInt32.toNat_inj.mp
    rw [UInt8.toNat_toUInt32, UInt32.toNat_toUInt8]
    exact Nat.mod_eq_of_lt hlt
  have htext : m.received.text = m.text := by
    by_cases hzero : m.length = 0
    · have hnil : m.text = [] := List.length_eq_zero_iff.mp (h.1.trans hzero)
      simp only [received, if_pos hzero, hnil]
      rfl
    · simp only [received, if_neg hzero]
      rfl
  have hlevel' : m.received.level = m.level := hlev
  simp only [content, htext, hlevel']
  rfl

end DBusLogMessage

namespace ReceiverEvent

/-- The message that an event delivers. -/
def message? : ReceiverEvent → Option DBusLogMessage
  | .message m => some m
  | _ => none

/-- The SKIP signal for an index after the last one received. -/
def skip? (last : Option UInt32) (index : UInt32) : Option ReceiverEvent :=
  last.bind fun last =>
    if index ≠ last + 1 then
      some (.skip (if index > last + 1 then index - (last + 1) else last + 1 - index))
    else none

/-- The events for one message. -/
def announce (last : Option UInt32) (m : DBusLogMessage) : List ReceiverEvent :=
  (skip? last m.index).toList ++ [.message m.received]

/-- The events for a sequence of messages. -/
def announceAll : Option UInt32 → List DBusLogMessage → List ReceiverEvent
  | _, [] => []
  | last, m :: ms => announce last m ++ announceAll (some m.index) ms

theorem skip?_message (last : Option UInt32) (index : UInt32) :
    (skip? last index).toList.filterMap message? = [] := by
  cases last with
  | none => rfl
  | some last =>
    unfold skip?
    simp only [Option.bind_some]
    split <;> rfl

theorem announceAll_messages (last : Option UInt32) (ms : List DBusLogMessage) :
    (announceAll last ms).filterMap message? = ms.map (·.received) := by
  induction ms generalizing last with
  | nil => rfl
  | cons m ms ih =>
    rw [announceAll, announce, List.filterMap_append, List.filterMap_append, skip?_message, ih]
    rfl

theorem closed_not_mem_announceAll (last : Option UInt32) (ms : List DBusLogMessage) :
    closed ∉ announceAll last ms := by
  induction ms generalizing last with
  | nil => exact List.not_mem_nil
  | cons m ms ih =>
    intro hmem
    simp only [announceAll, announce, List.mem_append, Option.mem_toList] at hmem
    obtain (hskip | hmsg) | hrest := hmem
    · cases last with
      | none => cases hskip
      | some last =>
        unfold skip? at hskip
        simp only [Option.bind_some] at hskip
        split at hskip <;> cases hskip
    · cases List.mem_singleton.mp hmsg
    · exact ih _ hrest

end ReceiverEvent

/-! ## Reading the fixed part back -/

namespace PacketArray

theorem prefix_store {p : PacketArray} {pre : List UInt8} (bytes : List UInt8)
    (h : pre <+: p.bytes) (hle : pre.length + bytes.length ≤ 22) :
    pre ++ bytes <+: (p.store pre.length bytes).bytes := by
  induction bytes generalizing p pre with
  | nil =>
    rw [List.append_nil]
    exact h
  | cons b bytes ih =>
    rw [List.length_cons] at hle
    have hset := prefix_set pre.length b h rfl (by omega)
    have hrest := ih hset (by
      rw [List.length_append, List.length_singleton]
      omega)
    rw [List.append_assoc, List.singleton_append, List.length_append, List.length_singleton]
      at hrest
    exact hrest

end PacketArray

namespace PacketState

theorem header_size {p : PacketState} {payload : Nat} {type : PacketType}
    (h : WirePacket.header payload type <+: p.packet.bytes) :
    p.packet.getUint32 packetSizeOffset = UInt32.ofNat payload :=
  PacketArray.getUint32_of_prefix ((List.prefix_append _ _).trans h)

theorem header_type {p : PacketState} {payload : Nat} {type : PacketType}
    (h : WirePacket.header payload type <+: p.packet.bytes) : p.packetType = type.toByte :=
  PacketArray.get_of_prefix h (i := 4) (by simp)

/-- The fields of a message, read from the fixed part that the sender has filled in. -/
theorem message_fields {p : PacketState} {m : DBusLogMessage}
    (h : p.packet.bytes = WirePacket.header (messagePrefixSize + m.length) .message ++
      WirePacket.messagePrefix m) :
    p.packet.getUint64 messageTimestampOffset = m.timestamp ∧
      p.packet.getUint32 messageIndexOffset = m.index ∧
      p.packet.getUint32 messageCategoryOffset = m.category ∧
      p.packet.get messageLevelOffset = m.level.toUInt8 := by
  have hget : ∀ i, p.packet.get i = (WirePacket.header (messagePrefixSize + m.length) .message ++
      WirePacket.messagePrefix m).getD i 0 := by
    intro i
    rw [← h]
    rfl
  refine ⟨?_, ?_, ?_, ?_⟩
  · simp only [PacketArray.getUint64, PacketArray.getUint32, hget]
    have hlow := LittleEndian.word32_bytes m.timestamp.toUInt32
    have hhigh := LittleEndian.word32_bytes (m.timestamp >>> 32).toUInt32
    have hwhole := LittleEndian.word64_halves m.timestamp
    rw [← hlow, ← hhigh] at hwhole
    exact hwhole
  · simp only [PacketArray.getUint32, hget]
    exact LittleEndian.word32_bytes m.index
  · simp only [PacketArray.getUint32, hget]
    exact LittleEndian.word32_bytes m.category
  · rw [hget]
    rfl

end PacketState

/-! ## Packets through the parser -/

namespace Feed

open PacketState

/-- A packet boundary: nothing of the next packet has been read. -/
structure AtBoundary (p : PacketState) (last : Option UInt32) (events : List ReceiverEvent) :
    Prop where
  read : p.packetRead = 0
  buffer : p.packetBuffer = none
  last : (if p.messageReceived then some p.lastMessageIndex else none) = last
  events : p.events = events

theorem AtBoundary.phase {p : PacketState} {last : Option UInt32} {events : List ReceiverEvent}
    (h : AtBoundary p last events) : p.phase = some .header := by
  unfold PacketState.phase
  rw [h.read]
  exact if_pos (by decide)

theorem AtBoundary.skip? {p : PacketState} {last : Option UInt32} {events : List ReceiverEvent}
    (h : AtBoundary p last events) (index : UInt32) :
    (p.skipped index).map ReceiverEvent.skip = ReceiverEvent.skip? last index := by
  rw [← h.last]
  unfold skipped ReceiverEvent.skip?
  cases hm : p.messageReceived with
  | false => simp
  | true =>
    by_cases hindex : index = p.lastMessageIndex + 1
    · simp [hindex]
    · simp [hindex]

theorem new_atBoundary : AtBoundary PacketState.new none [] := ⟨rfl, rfl, rfl, rfl⟩

/-- The state in which the parser has just read a header. -/
def headerRead (p : PacketState) (payload : Nat) (type : PacketType) : PacketState :=
  { p with
    packet := p.packet.store 0 (WirePacket.header payload type)
    packetRead := packetHeaderSize }

theorem headerRead_packet (p : PacketState) (payload : Nat) (type : PacketType) :
    WirePacket.header payload type <+: (headerRead p payload type).packet.bytes :=
  PacketArray.prefix_store (WirePacket.header payload type)
    (List.nil_prefix (l := p.packet.bytes)) (by simp)

theorem feed_header {p : PacketState} {last : Option UInt32} {events : List ReceiverEvent}
    (h : AtBoundary p last events) (payload : Nat) (type : PacketType) :
    feed (.running p) (WirePacket.header payload type) =
      settle (headerRead p payload type).parseHeader := by
  have hread := h.read
  have hne : WirePacket.header payload type ≠ [] := List.cons_ne_nil _ _
  have hle : p.packetRead + (WirePacket.header payload type).length ≤ p.limit .header := by
    rw [hread]
    exact le_rfl
  rw [feed_phase h.phase hne hle]
  unfold arrive headerRead
  simp only [put, hread, WirePacket.header_length, Nat.zero_add]
  exact if_neg (lt_irrefl packetHeaderSize)

/-- A packet of a header only leads straight to its handling. -/
theorem feed_headerOnly {p : PacketState} {last : Option UInt32} {events : List ReceiverEvent}
    (h : AtBoundary p last events) (type : PacketType) (htype : type ≠ .message) :
    feed (.running p) (WirePacket.header 0 type) =
      handled (headerRead p 0 type).parseHeader := by
  have hpacket := headerRead_packet p 0 type
  have hsize : (headerRead p 0 type).parseHeader.packetSize = packetHeaderSize := by
    simp only [parseHeader, header_size hpacket]
    decide
  have hfixed : (headerRead p 0 type).parseHeader.packetFixedPart = packetHeaderSize := by
    simp only [parseHeader, header_type hpacket]
    cases type with
    | ping => decide
    | bye => decide
    | message => exact absurd rfl htype
  have hphase : (headerRead p 0 type).parseHeader.phase = none := by
    unfold PacketState.phase
    rw [hsize, hfixed]
    rfl
  rw [feed_header h, settle_handled hphase]

theorem feed_ping {p : PacketState} {last : Option UInt32} {events : List ReceiverEvent}
    (h : AtBoundary p last events) :
    ∃ q, feed (.running p) (WirePacket.encode .ping) = .running q ∧ AtBoundary q last events := by
  have hfeed := feed_headerOnly h .ping nofun
  have htype : (headerRead p 0 .ping).parseHeader.packetType = PacketType.ping.toByte :=
    header_type (headerRead_packet p 0 .ping)
  unfold handled PacketState.handlePacket at hfeed
  rw [htype] at hfeed
  exact ⟨_, hfeed, rfl, rfl, h.last, h.events⟩

theorem feed_bye {p : PacketState} {last : Option UInt32} {events : List ReceiverEvent}
    (h : AtBoundary p last events) :
    ∃ q, feed (.running p) (WirePacket.encode .bye) = .stopped q ∧ q.events = events := by
  have hfeed := feed_headerOnly h .bye nofun
  have htype : (headerRead p 0 .bye).parseHeader.packetType = PacketType.bye.toByte :=
    header_type (headerRead_packet p 0 .bye)
  unfold handled PacketState.handlePacket at hfeed
  rw [htype] at hfeed
  exact ⟨_, hfeed, h.events⟩

/-- The state in which the parser has just read the fixed part of a message. -/
def prefixRead (p : PacketState) (m : DBusLogMessage) : PacketState :=
  let p := (headerRead p (messagePrefixSize + m.length) .message).parseHeader
  { p with
    packet := p.packet.store packetHeaderSize (WirePacket.messagePrefix m)
    packetRead := packetHeaderSize + messagePrefixSize }

theorem prefixRead_packet (p : PacketState) (m : DBusLogMessage) :
    (prefixRead p m).packet.bytes =
      WirePacket.header (messagePrefixSize + m.length) .message ++ WirePacket.messagePrefix m := by
  have hhead := headerRead_packet p (messagePrefixSize + m.length) .message
  have hwhole := PacketArray.prefix_store (WirePacket.messagePrefix m) hhead (by simp)
  exact PacketArray.bytes_eq_of_prefix hwhole rfl

/-- Size and fixed part of a message packet, as its header tells them. -/
theorem prefixRead_size (p : PacketState) {m : DBusLogMessage} (hfits : m.Fits) :
    (prefixRead p m).packetSize = 22 + m.length ∧ (prefixRead p m).packetFixedPart = 22 := by
  have hpacket := headerRead_packet p (messagePrefixSize + m.length) .message
  have hle := hfits.2
  constructor
  · change (((headerRead p _ .message).packet.getUint32 packetSizeOffset).toNat + packetHeaderSize)
      % 2 ^ 32 = _
    rw [header_size hpacket, UInt32.toNat_ofNat']
    simp only [packetHeaderSize, messagePrefixSize]
    omega
  · change (if _ then _ else _) = 22
    rw [header_type hpacket]
    decide

/-- The fixed part of a message, from a boundary. -/
theorem feed_prefix {p : PacketState} {last : Option UInt32} {events : List ReceiverEvent}
    (h : AtBoundary p last events) {m : DBusLogMessage} (hfits : m.Fits) :
    feed (.running p) (WirePacket.header (messagePrefixSize + m.length) .message ++
      WirePacket.messagePrefix m) = settle (prefixRead p m).allocBuffer := by
  obtain ⟨hsize, hfixed⟩ := prefixRead_size p hfits
  have hphase : (headerRead p (messagePrefixSize + m.length) .message).parseHeader.phase =
      some .fixed := by
    have hfixed : (headerRead p (messagePrefixSize + m.length) .message).parseHeader.packetFixedPart
      = 22 := hfixed
    unfold PacketState.phase
    rw [hfixed]
    rfl
  have hlimit : (headerRead p (messagePrefixSize + m.length) .message).parseHeader.limit .fixed =
      22 := hfixed
  have hne : WirePacket.messagePrefix m ≠ [] := List.cons_ne_nil _ _
  rw [feed_append, feed_header h, settle_running hphase,
    feed_phase hphase hne (by rw [hlimit]; exact le_rfl)]
  unfold arrive
  rw [hlimit]
  rfl

/-- The fixed part of the message has been read, after the messages up to `last`. -/
structure AtPrefix (p : PacketState) (m : DBusLogMessage) (last : Option UInt32)
    (events : List ReceiverEvent) : Prop where
  read : p.packetRead = 22
  size : p.packetSize = 22 + m.length
  fixed : p.packetFixedPart = 22
  buffer : p.packetBuffer = none
  packet : p.packet.bytes = WirePacket.header (messagePrefixSize + m.length) .message ++
    WirePacket.messagePrefix m
  skip : (p.skipped m.index).map ReceiverEvent.skip = ReceiverEvent.skip? last m.index
  events : p.events = events

/-- Nothing has been received in the meantime. -/
theorem prefixRead_frame (p : PacketState) (m : DBusLogMessage) :
    (prefixRead p m).packetBuffer = p.packetBuffer ∧ (prefixRead p m).events = p.events ∧
      (prefixRead p m).messageReceived = p.messageReceived ∧
      (prefixRead p m).lastMessageIndex = p.lastMessageIndex := by
  simp only [prefixRead, parseHeader, headerRead, and_self]

theorem prefixRead_atPrefix {p : PacketState} {last : Option UInt32} {events : List ReceiverEvent}
    (h : AtBoundary p last events) {m : DBusLogMessage} (hfits : m.Fits) :
    AtPrefix (prefixRead p m) m last events := by
  obtain ⟨hbuffer, hevents, hreceived, hlast⟩ := prefixRead_frame p m
  have hskip := h.skip? m.index
  unfold skipped at hskip
  rw [← hreceived, ← hlast] at hskip
  exact ⟨rfl, (prefixRead_size p hfits).1, (prefixRead_size p hfits).2, hbuffer.trans h.buffer,
    prefixRead_packet p m, hskip, hevents.trans h.events⟩

/-- A complete message packet is announced. -/
theorem handled_message {p : PacketState} {last : Option UInt32} {events : List ReceiverEvent}
    {m : DBusLogMessage} (hevents : p.events = events)
    (hskip : (p.skipped m.index).map ReceiverEvent.skip = ReceiverEvent.skip? last m.index)
    (htype : p.packetType = PacketType.message.toByte) (hmsg : p.receivedMessage = m.received) :
    ∃ q, handled p = .running q ∧
      AtBoundary q (some m.index) (events ++ ReceiverEvent.announce last m) := by
  have hindex : p.receivedMessage.index = m.index := by
    rw [hmsg]
    rfl
  unfold handled PacketState.handlePacket
  rw [if_pos htype]
  refine ⟨_, rfl, rfl, rfl, congrArg some hindex, ?_⟩
  rw [hindex, hskip, hmsg, hevents, ReceiverEvent.announce, List.append_assoc]

/-- The message of a packet that is complete, whichever buffer holds its text. -/
theorem AtPrefix.receivedMessage {p q : PacketState} {m : DBusLogMessage} {last : Option UInt32}
    {events : List ReceiverEvent} (h : AtPrefix p m last events)
    (hpacket : q.packet = p.packet) (hsize : q.packetSize = p.packetSize)
    (hfixed : q.packetFixedPart = p.packetFixedPart)
    (hbuffer : q.packetBuffer.map (·.data) = if m.length = 0 then none else some m.text) :
    q.receivedMessage = m.received := by
  obtain ⟨htime, hindex, hcategory, hlevel⟩ := message_fields h.packet
  unfold PacketState.receivedMessage DBusLogMessage.received
  rw [hpacket, htime, hindex, hcategory, hlevel, hsize, hfixed, h.size, h.fixed, ← hbuffer,
    Nat.add_sub_cancel_left]
  cases hbuf : q.packetBuffer with
  | none =>
    rw [hbuf] at hbuffer
    have hzero : m.length = 0 := by
      by_contra hne
      rw [if_neg hne] at hbuffer
      cases hbuffer
    rw [hzero]
    rfl
  | some buffer => rfl

/-- The text of a message, after its fixed part. -/
theorem AtPrefix.feed_text {p : PacketState} {m : DBusLogMessage} {last : Option UInt32}
    {events : List ReceiverEvent} (h : AtPrefix p m last events) (hm : m.Fits) :
    ∃ q, feed (settle p.allocBuffer) m.text = .running q ∧
      AtBoundary q (some m.index) (events ++ ReceiverEvent.announce last m) := by
  have htype : p.packetType = PacketType.message.toByte := header_type ⟨_, h.packet.symm⟩
  have hlength := hm.1
  have hheader : packetHeaderSize = 5 := rfl
  by_cases hzero : m.length = 0
  · -- an empty text gets no buffer, and the packet is complete
    have hnil : m.text = [] := List.length_eq_zero_iff.mp (hlength.trans hzero)
    have halloc : p.allocBuffer = p := by
      unfold allocBuffer
      rw [h.size, h.fixed, if_neg (by omega)]
    have hphase : p.phase = none := by
      unfold PacketState.phase
      rw [h.read, h.size, h.fixed, if_neg (by omega), if_neg (by omega), if_neg (by omega)]
    have hbuffer : p.packetBuffer.map (·.data) = if m.length = 0 then none else some m.text := by
      rw [h.buffer, if_pos hzero]
      rfl
    rw [halloc, settle_handled hphase, hnil]
    exact handled_message h.events h.skip htype (h.receivedMessage rfl rfl rfl hbuffer)
  · have hne : m.text ≠ [] := List.ne_nil_of_length_pos (by omega)
    have halloc : p.allocBuffer = { p with packetBuffer := some ⟨m.length + 1, []⟩ } := by
      unfold allocBuffer
      rw [h.size, h.fixed, if_pos (by omega), Nat.add_sub_cancel_left]
    rw [halloc]
    have hphase : ({ p with packetBuffer := some ⟨m.length + 1, []⟩ } : PacketState).phase =
        some .data := by
      change p.phase = some .data
      unfold PacketState.phase
      rw [h.read, h.size, h.fixed, if_neg (by omega), if_neg (by omega), if_pos (by omega)]
    have hlimit : ({ p with packetBuffer := some ⟨m.length + 1, []⟩ } : PacketState).limit .data =
        22 + m.length := h.size
    have hle : p.packetRead + m.text.length ≤
        ({ p with packetBuffer := some ⟨m.length + 1, []⟩ } : PacketState).limit .data := by
      rw [hlimit, h.read, hlength]
    rw [settle_running hphase, feed_phase hphase hne hle]
    have hread : p.packetRead + m.text.length = 22 + m.length := by
      rw [h.read, hlength]
    unfold arrive
    simp only [put, Option.map_some, List.take_nil, List.nil_append, hlimit, hread,
      if_neg (lt_irrefl _), after]
    have hdone : ({ p with
        packetBuffer := some ⟨m.length + 1, m.text⟩
        packetRead := 22 + m.length } : PacketState).phase = none := by
      unfold PacketState.phase
      simp only [h.size, h.fixed]
      rw [if_neg (by omega), if_neg (by omega), if_neg (by omega)]
    rw [settle_handled hdone]
    refine handled_message h.events h.skip htype (h.receivedMessage rfl rfl rfl ?_)
    rw [if_neg hzero]
    rfl

theorem feed_message {p : PacketState} {last : Option UInt32} {events : List ReceiverEvent}
    (h : AtBoundary p last events) {m : DBusLogMessage} (hm : m.Fits) :
    ∃ q, feed (.running p) (WirePacket.encode (.message m)) = .running q ∧
      AtBoundary q (some m.index) (events ++ ReceiverEvent.announce last m) := by
  rw [WirePacket.encode, feed_append, feed_prefix h hm]
  exact (prefixRead_atPrefix h hm).feed_text hm

/-! ## Whole streams -/

/-- A stream of pings and messages leads from a boundary to a boundary. -/
theorem feed_packets {p : PacketState} {last : Option UInt32} {events : List ReceiverEvent}
    (h : AtBoundary p last events) {ps : List WirePacket} (hbye : .bye ∉ ps)
    (hps : ∀ m ∈ WirePacket.messages ps, m.Fits) :
    ∃ q last', feed (.running p) (WirePacket.encodeAll ps) = .running q ∧
      AtBoundary q last'
        (events ++ ReceiverEvent.announceAll last (WirePacket.messages ps)) := by
  induction ps generalizing p last events with
  | nil =>
    refine ⟨p, last, rfl, ?_⟩
    rw [WirePacket.messages_nil, ReceiverEvent.announceAll, List.append_nil]
    exact h
  | cons packet ps ih =>
    have hbye' : .bye ∉ ps := fun hmem => hbye (List.mem_cons_of_mem _ hmem)
    rw [WirePacket.encodeAll_cons, feed_append]
    cases packet with
    | ping =>
      obtain ⟨q, hq, hboundary⟩ := feed_ping h
      rw [hq]
      exact ih hboundary hbye' hps
    | message m =>
      have hrest : ∀ m ∈ WirePacket.messages ps, m.Fits :=
        fun m' hm' => hps m' (List.mem_cons_of_mem _ hm')
      obtain ⟨q, hq, hboundary⟩ := feed_message h (hps m List.mem_cons_self)
      obtain ⟨q', last', hq', hboundary'⟩ := ih hboundary hbye' hrest
      rw [List.append_assoc] at hboundary'
      rw [hq]
      exact ⟨q', last', hq', hboundary'⟩
    | bye => exact absurd List.mem_cons_self hbye

/-- A stream that ends with a BYE stops the parser, after the events for its messages. -/
theorem feed_stream {ps : List WirePacket} (hbye : .bye ∉ ps)
    (hps : ∀ m ∈ WirePacket.messages ps, m.Fits) :
    ∃ q, feed (.running .new) (WirePacket.encodeAll (ps ++ [.bye])) = .stopped q ∧
      q.events = ReceiverEvent.announceAll none (WirePacket.messages ps) := by
  obtain ⟨q, last, hq, hboundary⟩ := feed_packets new_atBoundary hbye hps
  obtain ⟨q', hq', hevents⟩ := feed_bye hboundary
  refine ⟨q', ?_, hevents⟩
  rw [WirePacket.encodeAll_append, feed_append, hq, WirePacket.encodeAll_cons,
    WirePacket.encodeAll_nil, List.append_nil, hq']

end Feed

end DBusLog

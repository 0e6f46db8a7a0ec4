import DBusLog.Receiver.RoundTrip

/-!
# How many bytes a packet takes

The header of a packet, whatever it says, determines how many bytes the receiver takes for it: the
fixed part for the type, or the declared size with the header if that is more, in 32-bit arithmetic.
A PING or a BYE that declares data has no buffer to read them into.
-/

namespace DBusLog

/-- The header of a packet of any type. -/
def packetHeader (size : UInt32) (type : UInt8) : List UInt8 :=
  LittleEndian.bytes32 size ++ [type]

@[simp] theorem packetHeader_length (size : UInt32) (type : UInt8) :
    (packetHeader size type).length = 5 := rfl

/-- The packets that consist of a header only. -/
def HeaderOnly (type : UInt8) : Prop :=
  type = PacketType.ping.toByte ∨ type = PacketType.bye.toByte

instance (type : UInt8) : Decidable (HeaderOnly type) := inferInstanceAs (Decidable (_ ∨ _))

/-- `packet_fixed_part` for a type. -/
def fixedPart (type : UInt8) : Nat :=
  if HeaderOnly type then packetHeaderSize else packetMaxFixedPart

/-- `packet_size` for a declared size. -/
def wholeSize (size : UInt32) : Nat := (size.toNat + packetHeaderSize) % 2 ^ 32

/-- The bytes that the receiver takes for a packet. -/
def packetLength (size : UInt32) (type : UInt8) : Nat := max (fixedPart type) (wholeSize size)

/-- The packet declares data, and the receiver never allocates a buffer for them. -/
def Unbuffered (size : UInt32) (type : UInt8) : Prop :=
  HeaderOnly type ∧ packetHeaderSize < wholeSize size

instance (size : UInt32) (type : UInt8) : Decidable (Unbuffered size type) :=
  inferInstanceAs (Decidable (_ ∧ _))

/-! ## The header -/

namespace PacketState

theorem packetHeader_size {p : PacketState} {size : UInt32} {type : UInt8}
    (h : packetHeader size type <+: p.packet.bytes) :
    p.packet.getUint32 packetSizeOffset = size :=
  PacketArray.getUint32_of_prefix ((List.prefix_append _ _).trans h)

theorem packetHeader_type {p : PacketState} {size : UInt32} {type : UInt8}
    (h : packetHeader size type <+: p.packet.bytes) : p.packetType = type :=
  PacketArray.get_of_prefix h (i := 4) (by simp)

/-- The header has been read and looked at, after the events of `p`. -/
structure Parsed (size : UInt32) (type : UInt8) (p q : PacketState) : Prop where
  packet : packetHeader size type <+: q.packet.bytes
  whole : q.packetSize = wholeSize size
  fixed : q.packetFixedPart = fixedPart type
  events : q.events = p.events

theorem parseHeader_parsed {p : PacketState} {size : UInt32} {type : UInt8}
    (h : packetHeader size type <+: p.packet.bytes) : Parsed size type p p.parseHeader where
  packet := h
  whole := by
    simp only [parseHeader, packetHeader_size h]
    rfl
  fixed := by
    simp only [parseHeader, packetHeader_type h]
    unfold fixedPart
    by_cases honly : HeaderOnly type
    · rw [if_pos honly]
      exact if_pos honly
    · rw [if_neg honly]
      refine (if_neg honly).trans ?_
      split <;> rfl
  events := rfl

theorem allocBuffer_packet (p : PacketState) : p.allocBuffer.packet = p.packet := by
  unfold allocBuffer
  split <;> rfl

theorem allocBuffer_capacity {p : PacketState} (h : p.packetFixedPart < p.packetSize) :
    p.allocBuffer.packetBuffer.map (·.capacity) = some (p.packetSize - p.packetFixedPart + 1) := by
  unfold allocBuffer
  rw [if_pos h]
  rfl

end PacketState

namespace Feed

open PacketState

variable {p q : PacketState} {ph : Phase} {bytes : List UInt8} {size : UInt32} {type : UInt8}

/-- A parser that has stayed in its phase. -/
structure Onward (p : PacketState) (count : Nat) (q : PacketState) : Prop where
  read : q.packetRead = p.packetRead + count
  size : q.packetSize = p.packetSize
  fixed : q.packetFixedPart = p.packetFixedPart
  events : q.events = p.events
  capacity : q.packetBuffer.map (·.capacity) = p.packetBuffer.map (·.capacity)

theorem put_onward (h : p.put bytes ph = some q) : Onward p bytes.length q := by
  obtain ⟨hsize, hfixed, hread, hevents⟩ := put_frame h
  refine ⟨hread, hsize, hfixed, hevents, ?_⟩
  cases ph with
  | header | fixed =>
    cases h
    rfl
  | data =>
    obtain ⟨buffer, hbuffer, rfl⟩ := Option.map_eq_some_iff.mp h
    rw [hbuffer]
    rfl

/-- Bytes that end before their phase. -/
theorem feed_span (bytes : List UInt8) (hp : p.phase = some ph)
    (hlt : p.packetRead + bytes.length < p.limit ph) (hbuffer : ph = .data → p.packetBuffer.isSome) :
    ∃ q, feed (.running p) bytes = .running q ∧ Onward p bytes.length q := by
  by_cases hnil : bytes = []
  · subst hnil
    exact ⟨p, rfl, rfl, rfl, rfl, rfl, rfl⟩
  · obtain ⟨q, hput⟩ : ∃ q, p.put bytes ph = some q := by
      cases ph with
      | header | fixed => exact ⟨_, rfl⟩
      | data =>
        obtain ⟨buffer, hbuf⟩ := Option.isSome_iff_exists.mp (hbuffer rfl)
        exact ⟨_, Option.map_eq_some_iff.mpr ⟨buffer, hbuf, rfl⟩⟩
    have honward := put_onward hput
    have hread := honward.read
    refine ⟨q, ?_, honward⟩
    rw [feed_phase hp hnil hlt.le]
    unfold arrive
    simp only [hput]
    exact if_pos (by omega)

/-- Bytes that end with their phase. -/
theorem feed_fill (hp : p.phase = some ph) (hlimit : p.packetRead + bytes.length = p.limit ph)
    (hput : p.put bytes ph = some q) : feed (.running p) bytes = settle (q.after ph) := by
  have hread := (put_frame hput).2.2.1
  have hlt := phase_limit hp
  have hnil : bytes ≠ [] := by
    rintro rfl
    exact absurd hlimit hlt.ne
  rw [feed_phase hp hnil hlimit.le]
  unfold arrive
  simp only [hput]
  exact if_neg (by omega)

/-! ## From a boundary through one packet -/

/-- The header, from a boundary. -/
theorem feed_packetHeader (hread : p.packetRead = 0) (hbuffer : p.packetBuffer = none)
    (size : UInt32) (type : UInt8) :
    ∃ q, feed (.running p) (packetHeader size type) = settle q ∧ Parsed size type p q ∧
      q.packetRead = packetHeaderSize ∧ q.packetBuffer = none := by
  have hphase : p.phase = some .header := if_pos (by rw [hread]; decide)
  have hpacket : packetHeader size type <+: (p.packet.store 0 (packetHeader size type)).bytes :=
    PacketArray.prefix_store (packetHeader size type) (List.nil_prefix (l := p.packet.bytes))
      (by simp)
  have hlimit : p.packetRead + (packetHeader size type).length = p.limit .header := by
    rw [hread]
    rfl
  refine ⟨_, feed_fill hphase hlimit rfl, ?_, ?_, hbuffer⟩
  · have hparsed := parseHeader_parsed (p := { p with
      packet := p.packet.store p.packetRead (packetHeader size type)
      packetRead := p.packetRead + (packetHeader size type).length })
      (by rw [hread]; exact hpacket : packetHeader size type <+: _)
    exact ⟨hparsed.packet, hparsed.whole, hparsed.fixed, hparsed.events⟩
  · change p.packetRead + _ = _
    rw [hread]
    rfl

theorem fixedPart_cases (type : UInt8) :
    (HeaderOnly type ∧ fixedPart type = 5) ∨ (¬HeaderOnly type ∧ fixedPart type = 22) := by
  unfold fixedPart
  by_cases h : HeaderOnly type
  · rw [if_pos h]
    exact .inl ⟨h, rfl⟩
  · rw [if_neg h]
    exact .inr ⟨h, rfl⟩

/-- The packet in the middle of which the parser is, after the events of `p`. -/
structure InPacket (size : UInt32) (type : UInt8) (p q : PacketState) : Prop where
  header : packetHeaderSize ≤ q.packetRead
  whole : q.packetSize = wholeSize size
  fixed : q.packetFixedPart = fixedPart type
  events : q.events = p.events
  capacity : q.packetBuffer.map (·.capacity) =
    if q.packetRead < fixedPart type ∨ Unbuffered size type then none
    else some (wholeSize size - fixedPart type + 1)

theorem packetLength_pos (size : UInt32) (type : UInt8) : 5 ≤ packetLength size type := by
  refine le_trans ?_ (le_max_left _ _)
  rcases fixedPart_cases type with ⟨_, he⟩ | ⟨_, he⟩ <;> omega

/-- What has been taken ends in the header, or goes on with the body. -/
theorem taken_cases {rest : List UInt8} (hpre : bytes <+: packetHeader size type ++ rest) :
    bytes.length < 5 ∨ ∃ body, bytes = packetHeader size type ++ body ∧ body <+: rest := by
  rcases List.prefix_or_prefix_of_prefix hpre (List.prefix_append _ rest) with hshort | ⟨body, rfl⟩
  · by_cases hsame : bytes = packetHeader size type
    · exact .inr ⟨[], by rw [hsame, List.append_nil], List.nil_prefix⟩
    · have hlen := hshort.length_le
      have hdiff : bytes.length ≠ (packetHeader size type).length :=
        fun he => hsame (hshort.eq_of_length he)
      rw [packetHeader_length] at hlen hdiff
      exact .inl (by omega)
  · exact .inr ⟨body, rfl, (List.prefix_append_right_inj _).mp hpre⟩

/-- The data, once the fixed part is complete and has found its buffer. -/
theorem feed_data (bytes : List UInt8) (hparsed : Parsed size type p q)
    (hread : q.packetRead = fixedPart type) (hbuffered : ¬Unbuffered size type)
    (hbuffer : fixedPart type < wholeSize size →
      q.packetBuffer.map (·.capacity) = some (wholeSize size - fixedPart type + 1))
    (hle : bytes.length + fixedPart type ≤ packetLength size type) :
    (bytes.length + fixedPart type < packetLength size type →
      ∃ v, feed (settle q) bytes = .running v ∧
        v.packetRead = bytes.length + fixedPart type ∧ InPacket size type p v) ∧
    (bytes.length + fixedPart type = packetLength size type →
      ∃ v, feed (settle q) bytes = handled v ∧ v.packetType = type ∧ v.events = p.events) := by
  have hheader : packetHeaderSize ≤ q.packetRead := by
    rw [hread]
    rcases fixedPart_cases type with ⟨_, he⟩ | ⟨_, he⟩ <;> rw [he] <;> decide
  have hfixed : q.packetFixedPart ≤ q.packetRead := by
    rw [hread, hparsed.fixed]
  have hlength : packetLength size type = max (fixedPart type) (wholeSize size) := rfl
  by_cases hmore : fixedPart type < wholeSize size
  · have hphase : q.phase = some .data := by
      unfold PacketState.phase
      rw [if_neg (Nat.not_lt.mpr hheader), if_neg (Nat.not_lt.mpr hfixed),
        if_pos (by rw [hread, hparsed.whole]; exact hmore)]
    have hlimit : q.limit .data = wholeSize size := hparsed.whole
    rw [settle_running hphase]
    obtain ⟨buffer, hbuf, _⟩ := Option.map_eq_some_iff.mp (hbuffer hmore)
    refine ⟨fun hlt => ?_, fun heq => ?_⟩
    · obtain ⟨v, hv, honward⟩ := feed_span bytes hphase (by omega)
        (fun _ => by rw [hbuf]; rfl)
      have hcount := honward.read
      refine ⟨v, hv, by omega, by omega, honward.size.trans hparsed.whole,
        honward.fixed.trans hparsed.fixed, honward.events.trans hparsed.events, ?_⟩
      rw [honward.capacity, hbuffer hmore, if_neg (not_or.mpr ⟨by omega, hbuffered⟩)]
    · -- the last byte completes the packet
      have hput : q.put bytes .data = some { q with
          packetBuffer := some { buffer with
            data := buffer.data.take (q.packetRead - q.packetFixedPart) ++ bytes }
          packetRead := q.packetRead + bytes.length } :=
        Option.map_eq_some_iff.mpr ⟨buffer, hbuf, rfl⟩
      have hdone : ({ q with
          packetBuffer := some { buffer with
            data := buffer.data.take (q.packetRead - q.packetFixedPart) ++ bytes }
          packetRead := q.packetRead + bytes.length } : PacketState).phase = none := by
        refine DBusLogReceiver.phase_none ?_ ?_ ?_
        · exact hheader.trans (Nat.le_add_right _ _)
        · exact hfixed.trans (Nat.le_add_right _ _)
        · change q.packetSize ≤ q.packetRead + bytes.length
          rw [hparsed.whole]
          omega
      refine ⟨_, (feed_fill hphase (by omega) hput).trans (settle_handled hdone), ?_,
        hparsed.events⟩
      exact packetHeader_type hparsed.packet
  · have hnil : bytes = [] := List.length_eq_zero_iff.mp (by omega)
    have hphase : q.phase = none :=
      DBusLogReceiver.phase_none hheader hfixed (by rw [hparsed.whole]; omega)
    subst hnil
    rw [settle_handled hphase]
    exact ⟨fun hlt => absurd hlt (by rw [List.length_nil]; omega),
      fun _ => ⟨q, rfl, packetHeader_type hparsed.packet, hparsed.events⟩⟩

/-- A part of the header. -/
theorem feed_headerPart (hread : p.packetRead = 0) (hlt : bytes.length < packetHeaderSize) :
    ∃ v, feed (.running p) bytes = .running v ∧ v.packetRead = bytes.length ∧
      v.events = p.events ∧ (p.packetBuffer = none → v.packetBuffer = none) := by
  have hphase : p.phase = some .header := if_pos (by rw [hread]; decide)
  obtain ⟨v, hv, honward⟩ := feed_span bytes hphase
    (by rw [hread, Nat.zero_add]; exact hlt) (fun he => nomatch he)
  have hcount := honward.read
  refine ⟨v, hv, by omega, honward.events, fun hnone => ?_⟩
  have hcapacity := honward.capacity
  rw [hnone] at hcapacity
  exact Option.map_eq_none_iff.mp hcapacity

/-- A packet that is either still being read or complete. The type decides where its fixed part
ends, and only a longer fixed part makes the receiver allocate a buffer. -/
theorem feed_body {body : List UInt8} (hread : p.packetRead = 0) (hbuffer : p.packetBuffer = none)
    (hbuffered : ¬Unbuffered size type)
    (hle : 5 + body.length ≤ packetLength size type) :
    (5 + body.length < packetLength size type →
      ∃ v, feed (.running p) (packetHeader size type ++ body) = .running v ∧
        v.packetRead = 5 + body.length ∧ InPacket size type p v) ∧
    (5 + body.length = packetLength size type →
      ∃ v, feed (.running p) (packetHeader size type ++ body) = handled v ∧
        v.packetType = type ∧ v.events = p.events) := by
  obtain ⟨q, hq, hparsed, hfive, hnone⟩ := feed_packetHeader hread hbuffer size type
  have hfive : q.packetRead = 5 := hfive
  rw [feed_append, hq]
  rcases fixedPart_cases type with ⟨honly, hfixed⟩ | ⟨honly, hfixed⟩
  · have hsmall : ¬fixedPart type < wholeSize size := by
      rw [hfixed]
      exact fun hlt => hbuffered ⟨honly, hlt⟩
    have hdata := feed_data body hparsed (hfive.trans hfixed.symm) hbuffered
      (fun hlt => absurd hlt hsmall) (by omega)
    rw [hfixed, Nat.add_comm body.length] at hdata
    exact hdata
  · have hphase : q.phase = some .fixed := by
      unfold PacketState.phase
      rw [hfive, hparsed.fixed, hfixed]
      rfl
    have hlimit : q.limit .fixed = 22 := hparsed.fixed.trans hfixed
    have hlong : 22 ≤ packetLength size type := by
      rw [← hfixed]
      exact le_max_left _ _
    rw [settle_running hphase]
    by_cases hpart : body.length < 17
    · obtain ⟨v, hv, honward⟩ := feed_span body hphase (by omega)
        (fun he => nomatch he)
      have hcount := honward.read
      refine ⟨fun _ => ⟨v, hv, by omega, (show 5 ≤ v.packetRead by omega),
        honward.size.trans hparsed.whole, honward.fixed.trans hparsed.fixed,
        honward.events.trans hparsed.events, ?_⟩, fun he => by omega⟩
      rw [honward.capacity, hnone, if_pos (.inl (by omega))]
      rfl
    · -- the fixed part is filled up, and the rest is data
      obtain ⟨fixed, data, rfl, hlen⟩ : ∃ fixed data, body = fixed ++ data ∧ fixed.length = 17 :=
        ⟨body.take 17, body.drop 17, (List.take_append_drop 17 body).symm, by
          rw [List.length_take]
          omega⟩
      have hpacket : packetHeader size type ++ fixed <+: (q.packet.store 5 fixed).bytes :=
        PacketArray.prefix_store fixed hparsed.packet (by
          rw [packetHeader_length, hlen])
      rw [feed_append, feed_fill hphase (by omega) rfl]
      obtain ⟨hsize, hfix, hcount⟩ := DBusLogReceiver.allocBuffer_frame { q with
        packet := q.packet.store q.packetRead fixed
        packetRead := q.packetRead + fixed.length }
      have hevents := after_events { q with
        packet := q.packet.store q.packetRead fixed
        packetRead := q.packetRead + fixed.length } .fixed
      have hparsed' : Parsed size type p ({ q with
          packet := q.packet.store q.packetRead fixed
          packetRead := q.packetRead + fixed.length } : PacketState).allocBuffer := by
        refine ⟨?_, hsize.trans hparsed.whole, hfix.trans hparsed.fixed,
          hevents.trans hparsed.events⟩
        rw [allocBuffer_packet]
        change _ <+: (q.packet.store q.packetRead fixed).bytes
        rw [hfive]
        exact (List.prefix_append _ _).trans hpacket
      have hdata := feed_data data hparsed'
        (by rw [hcount, hfixed]; change q.packetRead + fixed.length = 22; omega) hbuffered
        (fun hlt => by
          rw [← hparsed.fixed, ← hparsed.whole] at hlt ⊢
          exact allocBuffer_capacity hlt)
        (by rw [List.length_append] at hle; omega)
      have hsum : 5 + (fixed ++ data).length = data.length + 22 := by
        rw [List.length_append]
        omega
      rw [hfixed] at hdata
      rw [hsum]
      exact hdata

/-- A PING or a BYE that declares data: the first of them finds no buffer. -/
theorem feed_unbuffered (body : List UInt8) (hread : p.packetRead = 0)
    (hbuffer : p.packetBuffer = none) (hun : Unbuffered size type) :
    (body = [] → ∃ v, feed (.running p) (packetHeader size type ++ body) = .running v ∧
      v.packetRead = 5 ∧ InPacket size type p v) ∧
    (body ≠ [] → ∃ v, feed (.running p) (packetHeader size type ++ body) = .faulted v ∧
      v.packetRead = 5) := by
  obtain ⟨honly, hmore⟩ := id hun
  obtain ⟨q, hq, hparsed, hfive, hnone⟩ := feed_packetHeader hread hbuffer size type
  have hfixed : q.packetFixedPart = packetHeaderSize := hparsed.fixed.trans (if_pos honly)
  have hphase : q.phase = some .data := by
    unfold PacketState.phase
    rw [hfive, hfixed, hparsed.whole, if_neg (lt_irrefl _), if_neg (lt_irrefl _), if_pos hmore]
  rw [feed_append, hq, settle_running hphase]
  refine ⟨?_, fun hne => ?_⟩
  · rintro rfl
    refine ⟨q, rfl, hfive, hfive.ge, hparsed.whole, hparsed.fixed, hparsed.events, ?_⟩
    rw [hnone, if_pos (.inr hun)]
    rfl
  · obtain ⟨b, body, rfl⟩ := List.exists_cons_of_ne_nil hne
    refine ⟨q, ?_, hfive⟩
    rw [feed_cons, feedByte_running hphase]
    unfold arrive
    have hput : q.put [b] .data = none := Option.map_eq_none_iff.mpr hnone
    simp only [hput]
    exact feed_faulted q body

/-- What follows a complete packet, other than a BYE. -/
theorem handled_running {v : PacketState} (htype : v.packetType ≠ PacketType.bye.toByte) :
    ∃ q, handled v = .running q ∧ q.packetRead = 0 ∧ q.packetBuffer = none ∧
      (v.packetType ≠ PacketType.message.toByte → q.events = v.events) := by
  unfold handled PacketState.handlePacket
  by_cases hmessage : v.packetType = PacketType.message.toByte
  · rw [if_pos hmessage]
    exact ⟨_, rfl, rfl, rfl, fun hne => absurd hmessage hne⟩
  · rw [if_neg hmessage]
    simp only [decide_eq_true htype]
    exact ⟨_, rfl, rfl, rfl, fun _ => rfl⟩

theorem handled_stopped {v : PacketState} (htype : v.packetType = PacketType.bye.toByte) :
    ∃ q, handled v = .stopped q := by
  unfold handled PacketState.handlePacket
  rw [htype]
  exact ⟨_, rfl⟩

end Feed

end DBusLog

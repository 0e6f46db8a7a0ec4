import DBusLog.Receiver.Framing

/-!
# Where the receiver reads to

Header and prefix go to the packet array, and the data go to the buffer that has been allocated for
the packet. `headersOf` cuts a stream into packets the way the receiver does, so that a condition on
the headers of a stream can be stated without the receiver.
-/

namespace DBusLog

/-- The headers of the packets of a stream, up to a BYE. -/
def headersOf : List UInt8 → List (UInt32 × UInt8)
  | b0 :: b1 :: b2 :: b3 :: type :: body =>
    (LittleEndian.word32 b0 b1 b2 b3, type) ::
      if type = PacketType.bye.toByte then []
      else headersOf (body.drop (packetLength (LittleEndian.word32 b0 b1 b2 b3) type - 5))
  | _ => []
termination_by bytes => bytes.length
decreasing_by
  rw [List.length_drop]
  simp only [List.length_cons]
  omega

theorem headersOf_packet (size : UInt32) (type : UInt8) (rest : List UInt8) :
    headersOf (packetHeader size type ++ rest) =
      (size, type) :: if type = PacketType.bye.toByte then []
        else headersOf (rest.drop (packetLength size type - 5)) := by
  have hword := LittleEndian.word32_bytes size
  change headersOf (_ :: _ :: _ :: _ :: type :: rest) = _
  rw [headersOf, hword]

/-- Five bytes are the header of a packet. -/
theorem exists_packetHeader {bytes : List UInt8} (h : 5 ≤ bytes.length) :
    ∃ size type rest, bytes = packetHeader size type ++ rest := by
  match bytes, h with
  | b0 :: b1 :: b2 :: b3 :: type :: rest, _ =>
    refine ⟨LittleEndian.word32 b0 b1 b2 b3, type, rest, ?_⟩
    unfold packetHeader
    rw [LittleEndian.bytes32_word32]
    rfl

/-! ## Requests -/

/-- One call of `dbus_log_receiver_read_chars`: the part of the packet that is read, and the parser
as it is at the call. -/
structure ReadRequest where
  phase : PacketState.Phase
  parser : PacketState

namespace ReadRequest

/-- Where the bytes go: in the packet array, or in the buffer when they are data. -/
def offset (q : ReadRequest) : Nat :=
  match q.phase with
  | .header | .fixed => q.parser.packetRead
  | .data => q.parser.packetRead - q.parser.packetFixedPart

def count (q : ReadRequest) : Nat := q.parser.limit q.phase - q.parser.packetRead

/-- Header and prefix bytes go to the packet array while there is no buffer. The data go to a buffer
of the right size, and its last byte is left alone. -/
def InBounds (q : ReadRequest) : Prop :=
  match q.phase with
  | .header | .fixed =>
    q.offset + q.count ≤ packetMaxFixedPart ∧ q.parser.packetBuffer = none
  | .data => ∃ buffer, q.parser.packetBuffer = some buffer ∧
      buffer.capacity = q.parser.packetSize - q.parser.packetFixedPart + 1 ∧
      q.parser.packetFixedPart ≤ q.parser.packetRead ∧ q.offset + q.count < buffer.capacity

end ReadRequest

namespace DBusLogReceiver

open PacketState Feed

/-- What one call of `dbus_log_receiver_read` asks the channel for. -/
def requests (r : DBusLogReceiver) : List ReadRequest :=
  (if r.packetRead < packetHeaderSize then [⟨.header, r.toPacketState⟩] else []) ++
    match r.readHeader with
    | (.complete, r) =>
      (if r.packetRead < r.packetFixedPart then [⟨.fixed, r.toPacketState⟩] else []) ++
        match r.readFixedPart with
        | (.complete, r) => if r.packetRead < r.packetSize then [⟨.data, r.toPacketState⟩] else []
        | _ => []
    | _ => []

/-- What the next dispatch by the main loop asks the channel for. -/
def dispatchRequests (r : DBusLogReceiver) : List ReadRequest :=
  if r.faulted then []
  else
    match r.watches with
    | [] => []
    | _ :: _ => r.requests

/-- The next dispatch keeps to the memory it may use, and at a packet boundary there is no buffer. -/
def Disciplined (r : DBusLogReceiver) : Prop :=
  (∀ q ∈ r.dispatchRequests, q.InBounds) ∧ (r.packetRead = 0 → r.packetBuffer = none)

end DBusLogReceiver

/-! ## The parser in the middle of a stream -/

namespace Feed

open PacketState

variable {p q : PacketState}

/-- The parser is in the header of a packet, or past one of the headers of the stream. -/
def Tracked (stream : List UInt8) (q : PacketState) : Prop :=
  (q.packetRead < packetHeaderSize ∧ q.packetBuffer = none) ∨
    ∃ size type p, (size, type) ∈ headersOf stream ∧ InPacket size type p q

theorem feed_tracked {stream pre : List UInt8} (hread : p.packetRead = 0)
    (hbuffer : p.packetBuffer = none) (hpre : pre <+: stream)
    (hfeed : feed (.running p) pre = .running q) : Tracked stream q := by
  -- packet by packet: what is left of the stream after the first packet is shorter
  induction hlength : stream.length using Nat.strong_induction_on generalizing stream pre p with
  | _ length ih =>
    subst hlength
    have hheader : ∀ {bytes}, bytes.length < 5 → feed (.running p) bytes = .running q →
        Tracked stream q := by
      intro bytes hlt hq
      obtain ⟨v, hv, hcount, _, hnone⟩ := feed_headerPart hread (show bytes.length < 5 from hlt)
      cases hq.symm.trans hv
      exact .inl ⟨by rw [hcount]; exact hlt, hnone hbuffer⟩
    by_cases hshort : stream.length < 5
    · exact hheader (lt_of_le_of_lt hpre.length_le hshort) hfeed
    · obtain ⟨size, type, rest, rfl⟩ := exists_packetHeader (Nat.le_of_not_lt hshort)
      have hmem : (size, type) ∈ headersOf (packetHeader size type ++ rest) := by
        rw [headersOf_packet]
        exact List.mem_cons_self
      rcases taken_cases hpre with hlt | ⟨body, rfl, hbody⟩
      · exact hheader hlt hfeed
      · by_cases hun : Unbuffered size type
        · obtain ⟨hempty, hmore⟩ := feed_unbuffered body hread hbuffer hun
          by_cases hnil : body = []
          · obtain ⟨v, hv, _, hin⟩ := hempty hnil
            cases hfeed.symm.trans hv
            exact .inr ⟨size, type, p, hmem, hin⟩
          · obtain ⟨v, hv, _⟩ := hmore hnil
            cases hfeed.symm.trans hv
        · have hpos := packetLength_pos size type
          by_cases hlt : 5 + body.length < packetLength size type
          · obtain ⟨v, hv, _, hin⟩ := (feed_body hread hbuffer hun hlt.le).1 hlt
            cases hfeed.symm.trans hv
            exact .inr ⟨size, type, p, hmem, hin⟩
          · obtain ⟨xs, ys, rfl, hlen⟩ : ∃ xs ys, body = xs ++ ys ∧
                5 + xs.length = packetLength size type :=
              ⟨body.take (packetLength size type - 5), body.drop (packetLength size type - 5),
                (List.take_append_drop _ _).symm, by rw [List.length_take]; omega⟩
            obtain ⟨v, hv, htype, _⟩ := (feed_body hread hbuffer hun hlen.le).2 hlen
            rw [← List.append_assoc, feed_append, hv] at hfeed
            by_cases hbye : type = PacketType.bye.toByte
            · obtain ⟨u, hu⟩ := handled_stopped (htype.trans hbye)
              rw [hu, feed_stopped] at hfeed
              cases hfeed
            · obtain ⟨u, hu, hzero, hnone, _⟩ := handled_running (v := v) (by rwa [htype])
              obtain ⟨zs, hzs⟩ := hbody
              have hdrop : rest.drop (packetLength size type - 5) = ys ++ zs := by
                rw [← hzs, List.append_assoc, show packetLength size type - 5 = xs.length by omega,
                  List.drop_left]
              rw [hu] at hfeed
              have hshorter : (ys ++ zs).length < (packetHeader size type ++ rest).length := by
                rw [← hdrop, List.length_append, packetHeader_length, List.length_drop]
                omega
              have htracked := ih _ hshorter hzero hnone (List.prefix_append ys zs) hfeed rfl
              rcases htracked with hhead | ⟨size', type', p', hmem', hin⟩
              · exact .inl hhead
              · refine .inr ⟨size', type', p', ?_, hin⟩
                rw [headersOf_packet, if_neg hbye, hdrop]
                exact List.mem_cons_of_mem _ hmem'

theorem arrive_faulted {ph : Phase} {bytes : List UInt8} (h : arrive p ph bytes = .faulted q)
    (hp : p.phase = some ph) : q.phase = some .data := by
  have hsettle : ∀ v, settle v ≠ .faulted q := by
    intro v hv
    unfold settle at hv
    split at hv
    · cases hv
    · unfold handled at hv
      split at hv <;> cases hv
  unfold arrive at h
  cases hput : p.put bytes ph with
  | none =>
    simp only [hput] at h
    cases h
    cases ph with
    | header | fixed => cases hput
    | data => exact hp
  | some v =>
    simp only [hput] at h
    split at h
    · cases h
    · exact absurd h (hsettle _)

/-- A parser faults among the data of a packet. -/
theorem feed_faulted_data {bytes : List UInt8} (h : feed (.running p) bytes = .faulted q) :
    q.phase = some .data := by
  induction bytes generalizing p with
  | nil => cases h
  | cons b bytes ih =>
    rw [feed_cons] at h
    cases hp : p.phase with
    | none =>
      rw [show feedByte (.running p) b = .running p by unfold feedByte; simp only [hp]] at h
      exact ih h
    | some ph =>
      rw [feedByte_running hp] at h
      cases hnext : arrive p ph [b] with
      | running v =>
        rw [hnext] at h
        exact ih h
      | stopped v =>
        rw [hnext, feed_stopped] at h
        cases h
      | faulted v =>
        rw [hnext, feed_faulted] at h
        cases h
        exact arrive_faulted hnext hp

end Feed

namespace DBusLogReceiver

open PacketState Feed

variable {r : DBusLogReceiver} {q : ReadRequest}

/-- A request is made by a parser on the way, in the phase that it is in. -/
theorem Waiting.requested (h : Waiting r) (hq : q ∈ r.requests) :
    q.parser.phase = some q.phase ∧
      ∃ bytes, bytes <+: pendingBytes r.input ∧
        feed (.running r.toPacketState) bytes = .running q.parser := by
  obtain ⟨ph, hph⟩ := h.waits
  rw [← settle_running hph]
  unfold requests at hq
  rcases List.mem_append.mp hq with hq | hq
  · split at hq
    next hlt =>
      cases List.mem_singleton.mp hq
      have hphase : r.phase = some .header := if_pos hlt
      exact ⟨hphase, [], List.nil_prefix, settle_running hphase⟩
    next => cases hq
  · cases hhead : r.readHeader with
    | mk out u =>
      obtain ⟨hreached, hheader⟩ := readHeader_reached h.onlyData hhead
      obtain ⟨xs, hxs, hfed⟩ := hreached.fed
      cases out with
      | complete =>
        have hheader := Nat.not_lt.mpr (hheader rfl)
        rw [hhead] at hq
        rcases List.mem_append.mp hq with hq | hq
        · split at hq
          next hlt =>
            cases List.mem_singleton.mp hq
            have hphase : u.phase = some .fixed := (if_neg hheader).trans (if_pos hlt)
            exact ⟨hphase, xs, ⟨_, hxs.symm⟩, hfed.1.trans (settle_running hphase)⟩
          next => cases hq
        · cases hfix : u.readFixedPart with
          | mk out v =>
            obtain ⟨hreached', hfixed⟩ := readFixedPart_reached hreached.onlyData
              (Nat.le_of_not_lt hheader) hfix
            obtain ⟨ys, hys, hfed'⟩ := hreached'.fed
            cases out with
            | complete =>
              obtain ⟨hfive, hfixed⟩ := hfixed rfl
              simp only [hfix] at hq
              split at hq
              next hlt =>
                cases List.mem_singleton.mp hq
                have hphase : v.phase = some .data := (if_neg (Nat.not_lt.mpr hfive)).trans
                  ((if_neg (Nat.not_lt.mpr hfixed)).trans (if_pos hlt))
                refine ⟨hphase, xs ++ ys, ⟨pendingBytes v.input, ?_⟩, ?_⟩
                · rw [hxs, hys, List.append_assoc]
                · rw [feed_append, hfed.1, hfed'.1, settle_running hphase]
              next => cases hq
            | wait | failed | fault =>
              simp only [hfix] at hq
              cases hq
      | wait | failed | fault =>
        rw [hhead] at hq
        cases hq

/-- A request in a stream all of whose packets have a buffer for their data. -/
theorem inBounds_of_tracked {stream : List UInt8}
    (hbuffered : ∀ packet ∈ headersOf stream, ¬Unbuffered packet.1 packet.2)
    (htracked : Tracked stream q.parser) (hphase : q.parser.phase = some q.phase) :
    q.InBounds := by
  have hlimit := phase_limit hphase
  rcases htracked with ⟨hlt, hnone⟩ | ⟨size, type, p, hmem, hin⟩
  · have hheader : q.phase = .header := by
      have hfirst : q.parser.phase = some .header := if_pos hlt
      rw [hfirst] at hphase
      exact (Option.some.inj hphase).symm
    unfold ReadRequest.InBounds ReadRequest.offset ReadRequest.count
    rw [hheader] at hlimit ⊢
    refine ⟨?_, hnone⟩
    change q.parser.packetRead + (packetHeaderSize - q.parser.packetRead) ≤ 22
    have hfive : packetHeaderSize = 5 := rfl
    omega
  · have hnot := hbuffered _ hmem
    have hcapacity := hin.capacity
    have hfixed := hin.fixed
    have hpart : fixedPart type ≤ 22 := by
      rcases fixedPart_cases type with ⟨_, he⟩ | ⟨_, he⟩ <;> omega
    unfold ReadRequest.InBounds ReadRequest.offset ReadRequest.count
    cases hph : q.phase with
    | header =>
      rw [hph] at hlimit
      exact absurd hin.header (Nat.not_le.mpr hlimit)
    | fixed =>
      rw [hph] at hlimit
      have hlt : q.parser.packetRead < q.parser.packetFixedPart := hlimit
      rw [if_pos (.inl (by omega))] at hcapacity
      refine ⟨?_, Option.map_eq_none_iff.mp hcapacity⟩
      change q.parser.packetRead + (q.parser.packetFixedPart - q.parser.packetRead) ≤ 22
      omega
    | data =>
      rw [hph] at hlimit hphase
      have hlt : q.parser.packetRead < q.parser.packetSize := hlimit
      obtain ⟨_, hge⟩ := phase_data hphase
      rw [if_neg (not_or.mpr ⟨by omega, hnot⟩)] at hcapacity
      obtain ⟨buffer, hbuffer, hsize⟩ := Option.map_eq_some_iff.mp hcapacity
      rw [← hin.whole, ← hfixed] at hsize
      refine ⟨buffer, hbuffer, hsize, hge, ?_⟩
      change q.parser.packetRead - q.parser.packetFixedPart +
        (q.parser.packetSize - q.parser.packetRead) < buffer.capacity
      omega

/-- However a stream is split into reads: if no PING and no BYE in it declares data, the receiver
stays within its memory at every read, and it has no buffer at a packet boundary. -/
theorem bufferDiscipline (fd : Nat) (doClose : Bool) (chunks : List (List UInt8))
    (h : ∀ packet ∈ headersOf chunks.flatten, ¬Unbuffered packet.1 packet.2) (n : Nat) :
    Disciplined (driven fd doClose chunks n) := by
  have hnew := new_waiting fd doClose chunks
  have hstream := new_pending fd doClose chunks
  obtain ⟨bytes, htook⟩ := hnew.dispatched_took n
  change Took _ bytes (driven fd doClose chunks n) at htook
  have htaken := htook.taken
  rw [hstream] at htaken
  obtain ⟨hwait, hrun⟩ | ⟨p, _, hclosed⟩ | ⟨p, hfaulted, hbroken⟩ := htook.led
  · refine ⟨fun q hq => ?_, fun hzero => ?_⟩
    · have hrequest : q ∈ (driven fd doClose chunks n).requests := by
        unfold dispatchRequests at hq
        rw [hwait.intact, hwait.watched] at hq
        exact hq
      obtain ⟨hphase, xs, hxs, hfeed⟩ := hwait.requested hrequest
      have hpre : bytes ++ xs <+: chunks.flatten := by
        rw [htaken]
        exact (List.prefix_append_right_inj bytes).mpr hxs
      rw [← hrun, ← feed_append] at hfeed
      rw [new_packetState] at hfeed
      exact inBounds_of_tracked h (feed_tracked rfl rfl hpre hfeed) hphase
    · rw [new_packetState] at hrun
      rcases feed_tracked rfl rfl ⟨_, htaken.symm⟩ hrun with ⟨_, hnone⟩ | ⟨_, _, _, _, hin⟩
      · exact hnone
      · have hheader := hin.header
        rw [hzero] at hheader
        exact absurd hheader (by decide)
  · refine ⟨fun q hq => ?_, fun _ => ?_⟩
    · unfold dispatchRequests at hq
      rw [hclosed.intact, hclosed.unwatched] at hq
      cases hq
    · rw [hclosed.parser]
      rfl
  · refine ⟨fun q hq => ?_, fun hzero => ?_⟩
    · unfold dispatchRequests at hq
      rw [if_pos hbroken.faulted] at hq
      cases hq
    · have hdata := (phase_data (feed_faulted_data hfaulted)).1
      rw [← hbroken.parser, hzero] at hdata
      exact absurd hdata (by decide)

/-- A message with two bytes of text and a ping, in pieces. -/
theorem bufferDiscipline_pieces :
    Disciplined (driven 3 true [[19, 0, 0], [0, 1] ++ List.replicate 17 0 ++ [65],
      [66, 0, 0, 0], [0, 0]] 2) := by
  refine bufferDiscipline 3 true _ ?_ 2
  have hheaders : headersOf (packetHeader 19 1 ++ (List.replicate 17 0 ++ [65, 66] ++
      (packetHeader 0 0 ++ []))) = [(19, 1), (0, 0)] := by
    rw [headersOf_packet, if_neg (by decide)]
    change _ :: headersOf (packetHeader 0 0 ++ []) = _
    rw [headersOf_packet, if_neg (by decide)]
    change _ :: _ :: headersOf [] = _
    rw [headersOf]
    nofun
  rw [show List.flatten _ = packetHeader 19 1 ++ (List.replicate 17 0 ++ [65, 66] ++
    (packetHeader 0 0 ++ [])) from rfl, hheaders]
  intro packet hmem
  obtain rfl | hmem := List.mem_cons.mp hmem
  · decide
  · rw [List.mem_singleton.mp hmem]
    decide

/-- A PING that declares three bytes of data: they are read to a buffer that is not there. -/
theorem disciplined_pingWithData : ¬Disciplined (driven 3 true [[3, 0, 0, 0, 0, 9, 9, 9]] 0) := by
  rintro ⟨hrequests, _⟩
  have hlast := hrequests
    ((driven 3 true [[3, 0, 0, 0, 0, 9, 9, 9]] 0).dispatchRequests.getLast (List.cons_ne_nil _ _))
    (List.getLast_mem _)
  obtain ⟨buffer, hbuffer, _⟩ := hlast
  cases hbuffer

end DBusLogReceiver

end DBusLog

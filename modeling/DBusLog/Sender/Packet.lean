import DBusLog.Sender.Recursion

/-!
# The packet in flight

`InFlight s p` says that the fixed part and the current message of the sender are the complete
bytes of the packet `p`. The prepare functions establish it, and then the I/O part of `write`
moves exactly the bytes of `p` that are still missing.
-/

namespace DBusLog.DBusLogSender

/-- The packet array and the current message together hold the bytes of the packet. -/
structure InFlight (s : DBusLogSender) (p : WirePacket) : Prop where
  size : s.packetSize = p.encode.length
  fixed : s.packetFixedPart = min packetMaxFixedPart s.packetSize
  bytes : s.packet.bytes.take s.packetFixedPart ++ s.messageData = p.encode

theorem InFlight.fixed_le {s : DBusLogSender} {p : WirePacket} (h : InFlight s p) :
    s.packetFixedPart ≤ s.packetSize := by
  rw [h.fixed]
  exact Nat.min_le_right _ _

theorem InFlight.size_pos {s : DBusLogSender} {p : WirePacket} (h : InFlight s p) :
    0 < s.packetSize := by
  rw [h.size]
  cases p with
  | ping => decide
  | message m =>
    rw [WirePacket.encode_message_length]
    omega
  | bye => decide

/-! ## Preparing a packet -/

theorem fillHeader_packet (s : DBusLogSender) (payload : Nat) (type : PacketType) :
    WirePacket.header payload type <+: (s.fillHeader payload type).packet.bytes := by
  have h0 := PacketArray.prefix_putUint32 packetSizeOffset (UInt32.ofNat payload)
    (List.nil_prefix (l := s.packet.bytes)) rfl (by decide)
  exact PacketArray.prefix_set packetTypeOffset type.toByte h0 rfl (by decide)

/-- A packet that consists of its header only. -/
theorem inFlight_header {s : DBusLogSender} {p : WirePacket} {type : PacketType}
    (hp : p.encode = WirePacket.header 0 type) (hm : s.currentMessage = none) :
    InFlight (s.fillHeader 0 type) p where
  size := by rw [hp]; rfl
  fixed := rfl
  bytes := by
    have hdata : (s.fillHeader 0 type).messageData = [] := by
      change (s.currentMessage.map (·.text)).getD [] = []
      rw [hm]
      rfl
    rw [hdata, List.append_nil, hp]
    exact PacketArray.take_eq_of_prefix (fillHeader_packet s 0 type)

theorem inFlight_ping {s : DBusLogSender} (hm : s.currentMessage = none) :
    InFlight (s.fillHeader 0 .ping) .ping :=
  inFlight_header rfl hm

theorem inFlight_bye {s : DBusLogSender} (hm : s.currentMessage = none) :
    InFlight s.prepareBye .bye :=
  inFlight_header (s := { s with bye := false }) rfl hm

theorem prepareCurrentMessage_packet {s : DBusLogSender} {m : DBusLogMessage}
    (hm : s.currentMessage = some m) :
    s.prepareCurrentMessage.packet.bytes =
      WirePacket.header (messagePrefixSize + m.length) .message ++ WirePacket.messagePrefix m := by
  have h0 := fillHeader_packet s (messagePrefixSize + m.length) .message
  have h1 := PacketArray.prefix_putUint64 messageTimestampOffset m.timestamp h0 rfl (by decide)
  have h2 := PacketArray.prefix_putUint32 messageIndexOffset m.index h1 rfl (by decide)
  have h3 := PacketArray.prefix_putUint32 messageCategoryOffset m.category h2 rfl (by decide)
  have h4 := PacketArray.prefix_set messageLevelOffset m.level.toUInt8 h3 rfl (by decide)
  unfold prepareCurrentMessage
  split
  next hnone => cases hnone.symm.trans hm
  next msg hmsg =>
    cases hmsg.symm.trans hm
    rw [PacketArray.bytes_eq_of_prefix h4 rfl]
    simp only [WirePacket.messagePrefix, List.append_assoc]

/-- The packet of a message that fits. -/
theorem inFlight_message {s : DBusLogSender} {m : DBusLogMessage}
    (hm : s.currentMessage = some m) (hfits : m.Fits) :
    InFlight s.prepareCurrentMessage (.message m) := by
  have hsize := hfits.wireSize_eq
  have hpacket := prepareCurrentMessage_packet hm
  obtain ⟨packet, hframe⟩ := prepareCurrentMessage_frame hm
  have hfixed : s.prepareCurrentMessage.packetFixedPart = 22 := by
    rw [hframe]
    simp only [packetMaxFixedPart, packetHeaderSize, messagePrefixSize]
    omega
  refine ⟨?_, ?_, ?_⟩
  · rw [WirePacket.encode_message_length, hfits.1, hframe]
    exact hsize
  · rw [hframe]
  · have hdata : s.prepareCurrentMessage.messageData = m.text := by
      unfold messageData
      rw [hframe]
      simp only [hm]
      rfl
    rw [hfixed, hdata, hpacket]
    rfl

/-! ## Moving its bytes -/

/-- `accepted` ends inside the packet: before it come the bytes `out`. -/
structure Sending (out : List UInt8) (p : WirePacket) (s : DBusLogSender) : Prop
    extends InFlight s p where
  written : s.packetWritten ≤ s.packetSize
  accepted : s.accepted = out ++ p.encode.take s.packetWritten

/-- What one channel write takes is what is missing at `written`. -/
theorem take_extend {e buf : List UInt8} {written limit k : Nat} (hk : k ≤ limit - written)
    (hbuf : buf.take (limit - written) = (e.drop written).take (limit - written)) :
    e.take written ++ buf.take k = e.take (written + k) := by
  have htake : buf.take k = (e.drop written).take k := by
    have := congrArg (List.take k) hbuf
    rwa [List.take_take, List.take_take, Nat.min_eq_left hk] at this
  rw [htake, List.take_add]

/-- The result of one call of `g_io_channel_write_chars`. -/
theorem writeChars_cases (s : DBusLogSender) (buf : List UInt8) (count : Nat) :
    (∃ answers, s.answers = .error :: answers ∧
      s.writeChars buf count = (none, { s with answers := answers })) ∨
    (∃ k answers, k ≤ count ∧ answers ⊆ s.answers ∧ s.writeChars buf count =
      (some k, { s with answers := answers, accepted := s.accepted ++ buf.take k })) := by
  unfold writeChars
  split
  next => exact .inr ⟨0, s.answers, Nat.zero_le _, List.Subset.refl _, by simp⟩
  next => exact .inr ⟨0, s.answers, Nat.zero_le _, List.Subset.refl _, by simp⟩
  next n answers _ ha =>
    refine .inr ⟨min n count, answers, Nat.min_le_right _ _, ?_, rfl⟩
    rw [ha]
    exact List.subset_cons_self _ _
  next answers _ ha => exact .inl ⟨answers, ha, rfl⟩

/-- What a part of `write` guarantees that is to bring the bytes `e` up to `limit`. -/
structure Moved (out e : List UInt8) (limit : Nat) (s t : DBusLogSender) (r : WriteOutcome) :
    Prop where
  written : t.packetWritten ≤ limit
  accepted : t.accepted = out ++ e.take t.packetWritten
  sent : r = .sent → t.packetWritten = limit
  wait : r = .wait → t.packetWritten < limit
  failed : r = .failed → .error ∈ s.answers
  answers : t.answers ⊆ s.answers

theorem writeUpTo_moved {s t : DBusLogSender} {limit : Nat} {buf e out : List UInt8}
    {r : WriteOutcome} (hle : s.packetWritten ≤ limit)
    (hbuf : buf.take (limit - s.packetWritten) =
      (e.drop s.packetWritten).take (limit - s.packetWritten))
    (hacc : s.accepted = out ++ e.take s.packetWritten)
    (h : s.writeUpTo limit buf = (r, t)) : Moved out e limit s t r := by
  unfold writeUpTo at h
  rcases writeChars_cases s buf (limit - s.packetWritten) with
    ⟨answers, ha, hw⟩ | ⟨k, answers, hk, ha, hw⟩
  · rw [hw] at h
    cases h
    refine ⟨hle, hacc, nofun, nofun, fun _ => ?_, ?_⟩
    · rw [ha]
      exact List.mem_cons_self
    · rw [ha]
      exact List.subset_cons_self _ _
  · rw [hw] at h
    have htaken : (s.accepted ++ buf.take k) = out ++ e.take (s.packetWritten + k) := by
      rw [hacc, List.append_assoc, take_extend hk hbuf]
    have hlimit : s.packetWritten + k ≤ limit := by omega
    by_cases hlt : s.packetWritten + k < limit
    · simp only [if_pos hlt] at h
      cases h
      exact ⟨hlimit, htaken, nofun, fun _ => hlt, nofun, ha⟩
    · simp only [if_neg hlt] at h
      cases h
      exact ⟨hlimit, htaken, fun _ => Nat.le_antisymm hlimit (Nat.le_of_not_lt hlt), nofun, nofun,
        ha⟩

theorem InFlight.fixed_length {s : DBusLogSender} {p : WirePacket} (h : InFlight s p) :
    (s.packet.bytes.take s.packetFixedPart).length = s.packetFixedPart := by
  have h22 : s.packetFixedPart ≤ 22 := by
    rw [h.fixed]
    exact Nat.min_le_left _ _
  rw [List.length_take, PacketArray.bytes_length, Nat.min_eq_left h22]

/-- The missing bytes of the fixed part. -/
theorem InFlight.fixed_bytes {s : DBusLogSender} {p : WirePacket} (h : InFlight s p) (w : Nat) :
    (s.packet.bytes.drop w).take (s.packetFixedPart - w) =
      (p.encode.drop w).take (s.packetFixedPart - w) := by
  rw [← List.drop_take, ← List.drop_take, ← h.bytes, List.take_left' h.fixed_length]

/-- The missing bytes of the data. -/
theorem InFlight.data_bytes {s : DBusLogSender} {p : WirePacket} (h : InFlight s p) {w : Nat}
    (hw : s.packetFixedPart ≤ w) :
    s.messageData.drop (w - s.packetFixedPart) = p.encode.drop w := by
  have hlen := h.fixed_length
  have hnil : (s.packet.bytes.take s.packetFixedPart).drop w = [] :=
    List.drop_eq_nil_of_le (by rw [hlen]; exact hw)
  rw [← h.bytes, List.drop_append, hnil, hlen, List.nil_append]

/-- The data of the packet in flight, once the fixed part is out. -/
theorem writeMessageData_moved {s t : DBusLogSender} {p : WirePacket} {out : List UInt8}
    {r : WriteOutcome} (h : Sending out p s) (hfix : s.packetFixedPart ≤ s.packetWritten)
    (hw : s.writeMessageData = (r, t)) : Moved out p.encode s.packetSize s t r := by
  unfold writeMessageData at hw
  by_cases hlt : s.packetWritten < s.packetSize
  · rw [if_pos hlt] at hw
    refine writeUpTo_moved h.written ?_ h.accepted hw
    rw [h.data_bytes hfix]
  · rw [if_neg hlt] at hw
    cases hw
    have heq := Nat.le_antisymm h.written (Nat.le_of_not_lt hlt)
    exact ⟨h.written, h.accepted, fun _ => heq, nofun, nofun, List.Subset.refl _⟩

/-- The I/O part of `write` moves the bytes of the packet in flight and nothing else. -/
theorem writePacket_moved {s t : DBusLogSender} {p : WirePacket} {out : List UInt8}
    {r : WriteOutcome} (h : Sending out p s) (hw : s.writePacket = (r, t)) :
    Moved out p.encode s.packetSize s t r := by
  unfold writePacket at hw
  by_cases hlt : s.packetWritten < s.packetSize
  · rw [if_pos hlt] at hw
    by_cases hfix : s.packetWritten < s.packetFixedPart
    · -- the fixed part first
      cases hf : s.writeFixedPart with
      | mk r' u =>
        rw [hf] at hw
        unfold writeFixedPart at hf
        rw [if_pos hfix] at hf
        have hu := writeUpTo_moved hfix.le (h.fixed_bytes _) h.accepted hf
        have hle : u.packetWritten ≤ s.packetSize := hu.written.trans h.fixed_le
        cases r' with
        | wait =>
          cases hw
          refine ⟨hle, hu.accepted, nofun, fun _ => ?_, nofun, hu.answers⟩
          exact (hu.wait rfl).trans_le h.fixed_le
        | failed =>
          cases hw
          exact ⟨hle, hu.accepted, nofun, nofun, hu.failed, hu.answers⟩
        | sent =>
          obtain ⟨answers, accepted, written, hframe⟩ := writeUpTo_frame hf
          have hsize : u.packetSize = s.packetSize := by rw [hframe]
          have hsending : Sending out p u := by
            refine ⟨?_, by rw [hsize]; exact hle, hu.accepted⟩
            rw [hframe]
            exact ⟨h.size, h.fixed, h.bytes⟩
          have hdone : u.packetFixedPart ≤ u.packetWritten := by
            rw [hu.sent rfl, hframe]
          have ht := writeMessageData_moved hsending hdone hw
          rw [hsize] at ht
          exact ⟨ht.written, ht.accepted, ht.sent, ht.wait, fun hr => hu.answers (ht.failed hr),
            List.Subset.trans ht.answers hu.answers⟩
    · have hf : s.writeFixedPart = (.sent, s) := if_neg hfix
      rw [hf] at hw
      exact writeMessageData_moved h (Nat.le_of_not_lt hfix) hw
  · rw [if_neg hlt] at hw
    cases hw
    have heq := Nat.le_antisymm h.written (Nat.le_of_not_lt hlt)
    exact ⟨h.written, h.accepted, fun _ => heq, nofun, nofun, List.Subset.refl _⟩

end DBusLog.DBusLogSender

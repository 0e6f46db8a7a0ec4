import DBusLog.Receiver.Framing

/-!
# The text of a delivered message

Any 17 bytes are the prefix of some message, so every MESSAGE packet that declares at least its
prefix is the packet of a message. The buffer that becomes the string of the message is allocated
only for data, so a message without data has no string at all.
-/

namespace DBusLog

namespace DBusLogMessage

/-- The buffer behind the string; `none` is the NULL pointer. The buffer has one byte more than the
data that have been read, which is `extra` until `msg->string[msg->length] = 0`, at the end of the
packet. -/
def memory (extra : UInt8) (m : DBusLogMessage) : Option (List UInt8) :=
  m.string.map fun data => (data ++ [extra]).set m.length 0

/-- What is printed for the string as text; for NULL nothing is known. -/
def printed (extra : UInt8) (m : DBusLogMessage) : Option (List UInt8) :=
  (m.memory extra).map (List.takeWhile (· ≠ 0))

/-- The string is `body` as a string of C, whatever the extra byte has been. -/
structure HasText (m : DBusLogMessage) (body : List UInt8) : Prop where
  memory : ∀ extra, m.memory extra = some (body ++ [0])
  length : m.length = body.length
  printed : ∀ extra, m.printed extra = some body

/-- The NUL is written behind the data. -/
theorem memory_eq {m : DBusLogMessage} {body : List UInt8} (hstring : m.string = some body)
    (hlength : m.length = body.length) (extra : UInt8) : m.memory extra = some (body ++ [0]) := by
  unfold memory
  rw [hstring, hlength, Option.map_some, List.set_append_right _ _ (Nat.le_refl _), Nat.sub_self,
    List.set_cons_zero]

theorem printed_eq {m : DBusLogMessage} {body : List UInt8} (hstring : m.string = some body)
    (hlength : m.length = body.length) (hnul : 0 ∉ body) (extra : UInt8) :
    m.printed extra = some body := by
  have hall : ∀ b ∈ body, decide (b ≠ 0) = true := by
    intro b hb
    rw [decide_eq_true_eq]
    rintro rfl
    exact hnul hb
  unfold printed
  rw [memory_eq hstring hlength, Option.map_some, List.takeWhile_append_of_pos hall]
  simp

end DBusLogMessage

/-- Any 17 bytes are the prefix of a message, and the prefix does not depend on the text. -/
theorem exists_messagePrefix {pre : List UInt8} (h : pre.length = 17) (body : List UInt8) :
    ∃ m : DBusLogMessage, WirePacket.messagePrefix m = pre ∧ m.length = body.length ∧
      m.string = some body := by
  match pre, h with
  | [b0, b1, b2, b3, b4, b5, b6, b7, b8, b9, b10, b11, b12, b13, b14, b15, b16], _ =>
    refine ⟨⟨LittleEndian.word64 (LittleEndian.word32 b0 b1 b2 b3)
      (LittleEndian.word32 b4 b5 b6 b7), LittleEndian.word32 b8 b9 b10 b11,
      LittleEndian.word32 b12 b13 b14 b15, b16.toUInt32, body.length, some body⟩, ?_, rfl, rfl⟩
    have hlevel : b16.toUInt32.toUInt8 = b16 := by simp
    simp only [WirePacket.messagePrefix, LittleEndian.bytes64_word64, LittleEndian.bytes32_word32,
      hlevel]
    rfl

namespace DBusLogReceiver

open Feed

variable {r : DBusLogReceiver} {n n' : Nat}

/-- The first message that the receiver has delivered since `r`. -/
def firstMessage (r : DBusLogReceiver) (n : Nat) : Option DBusLogMessage :=
  ((r.dispatched n).events.drop r.events.length).findSome? ReceiverEvent.message?

/-- A receiver only adds events. -/
theorem Waiting.events_prefix (h : Waiting r) (n : Nat) : r.events <+: (r.dispatched n).events := by
  obtain ⟨bytes, htook⟩ := h.dispatched_took n
  have hgrow := feed_events (.running r.toPacketState) bytes
  obtain ⟨_, hrun⟩ | ⟨p, hstopped, hclosed⟩ | ⟨p, hfaulted, hbroken⟩ := htook.led
  · rw [hrun] at hgrow
    exact hgrow
  · rw [hstopped] at hgrow
    rw [hclosed.parser]
    exact hgrow.trans (List.prefix_append _ _)
  · rw [hfaulted] at hgrow
    rw [hbroken.parser]
    exact hgrow

theorem Waiting.events_mono (h : Waiting r) (hle : n ≤ n') :
    (r.dispatched n).events <+: (r.dispatched n').events := by
  obtain ⟨m, rfl⟩ := Nat.exists_eq_add_of_le hle
  by_cases hwait : Waiting (r.dispatched n)
  · rw [dispatched_add]
    exact hwait.events_prefix m
  · have hsame := h.ended hwait m
    exact ⟨[], by rw [hsame, List.append_nil]⟩

theorem Waiting.firstMessage_mono (h : Waiting r) (hle : n ≤ n') {m : DBusLogMessage}
    (hm : r.firstMessage n = some m) : r.firstMessage n' = some m := by
  obtain ⟨later, hlater⟩ := h.events_mono hle
  unfold firstMessage at hm ⊢
  rw [← hlater, List.drop_append_of_le_length (h.events_prefix n).length_le]
  exact List.IsPrefix.findSome?_eq_some (List.prefix_append _ _) hm

theorem Waiting.firstMessage_unique (h : Waiting r) {m m' : DBusLogMessage}
    (hm : r.firstMessage n = some m) (hm' : r.firstMessage n' = some m') : m = m' := by
  rcases Nat.le_total n n' with hle | hle
  · have hlater := h.firstMessage_mono hle hm
    exact Option.some.inj (hlater.symm.trans hm')
  · have hlater := h.firstMessage_mono hle hm'
    exact Option.some.inj (hm.symm.trans hlater)

/-- The packet of a message at a boundary: the receiver delivers what it has rebuilt of it. -/
theorem AtPacket.delivers (h : AtPacket r) {m : DBusLogMessage} (hm : m.Fits) {rest : List UInt8}
    (hin : pendingBytes r.input = WirePacket.encode (.message m) ++ rest) :
    ∃ n, r.firstMessage n = some m.received := by
  have hstart : AtBoundary r.toPacketState
      (if r.messageReceived then some r.lastMessageIndex else none) r.events :=
    ⟨h.read, h.buffer, rfl, rfl⟩
  obtain ⟨q, hq, hboundary⟩ := feed_message hstart hm
  obtain ⟨n, htook⟩ := h.rests ⟨rest, hin.symm⟩ hq hboundary.read
  have hevents : (r.dispatched n).events = q.events := by
    obtain ⟨_, hrun⟩ | ⟨p, hstopped, _⟩ | ⟨p, hfaulted, _⟩ := htook.led
    · cases hq.symm.trans hrun
      rfl
    · cases hq.symm.trans hstopped
    · cases hq.symm.trans hfaulted
  refine ⟨n, ?_⟩
  unfold firstMessage
  rw [hevents, hboundary.events, List.drop_left]
  unfold ReceiverEvent.announce
  have hskip := ReceiverEvent.skip?_message
    (if r.messageReceived then some r.lastMessageIndex else none) m.index
  rw [List.findSome?_append, ← List.head?_filterMap, hskip]
  rfl

/-- However the stream is split into reads, the message of a MESSAGE packet has its body for a
string exactly when the body is not empty. -/
theorem textDelivered (h : AtPacket r) {size : UInt32} {pre body rest : List UInt8}
    (hpre : pre.length = 17) (hsize : size.toNat = 17 + body.length)
    (hmax : size.toNat ≤ 2 ^ 32 - 6) (hnul : 0 ∉ body)
    (hin : pendingBytes r.input =
      packetHeader size PacketType.message.toByte ++ pre ++ body ++ rest) :
    (∃ n m, r.firstMessage n = some m) ∧
      ((∀ n m, r.firstMessage n = some m → m.HasText body) ↔ 17 < size.toNat) := by
  obtain ⟨m, hprefix, hlength, hstring⟩ := exists_messagePrefix hpre body
  have hfits : m.Fits := by
    refine ⟨?_, by omega⟩
    unfold DBusLogMessage.text
    rw [hstring, hlength]
    rfl
  have hencode : pendingBytes r.input = WirePacket.encode (.message m) ++ rest := by
    have hofNat : UInt32.ofNat (messagePrefixSize + m.length) = size := by
      apply UInt32.toNat_inj.mp
      rw [UInt32.toNat_ofNat', hlength, hsize]
      have hseventeen : messagePrefixSize = 17 := rfl
      omega
    have htext : m.text = body := by
      unfold DBusLogMessage.text
      rw [hstring]
      rfl
    rw [hin]
    change _ = WirePacket.header (messagePrefixSize + m.length) .message ++
      WirePacket.messagePrefix m ++ m.text ++ rest
    unfold WirePacket.header packetHeader
    rw [hofNat, hprefix, htext]
  obtain ⟨n, hn⟩ := h.delivers hfits hencode
  have hall : (∀ n m, r.firstMessage n = some m → m.HasText body) ↔ m.received.HasText body :=
    ⟨fun hevery => hevery n _ hn, fun htext n' m' hm' => h.firstMessage_unique hn hm' ▸ htext⟩
  refine ⟨⟨n, _, hn⟩, ?_⟩
  rw [hall]
  by_cases hempty : m.length = 0
  · -- without data there is no buffer, and the string of the new message stays NULL
    have hnone : m.received.string = none := if_pos hempty
    refine iff_of_false (fun htext => ?_) (by omega)
    have hmemory := htext.memory 0
    unfold DBusLogMessage.memory at hmemory
    rw [hnone] at hmemory
    cases hmemory
  · have hsome : m.received.string = some body := by
      refine (if_neg hempty).trans ?_
      unfold DBusLogMessage.text
      rw [hstring]
      rfl
    refine iff_of_true ⟨DBusLogMessage.memory_eq hsome hlength, hlength, ?_⟩ (by omega)
    exact DBusLogMessage.printed_eq hsome hlength hnul

/-- A message with the text `hi`, cut in the middle of it. -/
theorem textDelivered_cut :
    (∃ n m, (new 3 true [.data ([19, 0, 0, 0, 1] ++ List.replicate 17 0 ++ [104]),
      .data [105]]).firstMessage n = some m) ∧
    ∀ n m, (new 3 true [.data ([19, 0, 0, 0, 1] ++ List.replicate 17 0 ++ [104]),
      .data [105]]).firstMessage n = some m → m.HasText [104, 105] := by
  have hpacket : AtPacket (new 3 true [.data ([19, 0, 0, 0, 1] ++ List.replicate 17 0 ++ [104]),
      .data [105]]) :=
    ⟨new_waiting 3 true [[19, 0, 0, 0, 1] ++ List.replicate 17 0 ++ [104], [105]], rfl, rfl⟩
  obtain ⟨hdelivered, hiff⟩ := textDelivered hpacket rfl (by decide) (by decide) (by decide)
    (by decide : _ = packetHeader 19 1 ++ List.replicate 17 0 ++ [104, 105] ++ [])
  exact ⟨hdelivered, hiff.mpr (by decide)⟩

/-- A message with an empty text is delivered without a string. -/
theorem textDelivered_empty :
    ∃ m, (new 3 true [.data ([17, 0, 0, 0, 1] ++ List.replicate 17 0)]).firstMessage 1 = some m ∧
      ¬m.HasText [] :=
  ⟨_, rfl, fun htext => nomatch htext.memory 0⟩

end DBusLogReceiver

end DBusLog

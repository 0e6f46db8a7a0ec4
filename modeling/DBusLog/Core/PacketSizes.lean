import DBusLog.Core.System
import DBusLog.Sender.Packet

/-!
# The sizes of the packets

The length of a message passes through the `int` of the formatter, the `gsize` of the message, a
`guint` and a field of 32 bits, with an addition at each step. What the packet declares in the end
is exact as long as the formatter has not failed and none of the sums has wrapped.
-/

namespace DBusLog

/-- `g_vasprintf` has failed: the call has no text, and a length of -1. -/
def CoreOp.FormatterFailed : CoreOp → Prop
  | .logv _ _ _ none => True
  | _ => False

namespace DBusLogSender

/-- The packet declares, and the sender expects to write, what a body of `b` bytes needs. -/
structure SizedFor (b : Nat) (s : DBusLogSender) : Prop where
  payload : (s.packet.getUint32 packetSizeOffset).toNat = messagePrefixSize + b
  size : s.packetSize = packetMaxFixedPart + b
  fixedPart : s.packetFixedPart = packetMaxFixedPart

section Sizes

variable {s : DBusLogSender} {m : DBusLogMessage}

/-- The sizes in the packet of any message, in 32-bit arithmetic. -/
theorem prepareCurrentMessage_sizes (hm : s.currentMessage = some m) :
    (s.prepareCurrentMessage.packet.getUint32 packetSizeOffset).toNat =
        (messagePrefixSize + m.length) % 2 ^ 32 ∧
      s.prepareCurrentMessage.packetSize = m.wireSize ∧
      s.prepareCurrentMessage.packetFixedPart = min packetMaxFixedPart m.wireSize := by
  obtain ⟨packet, hframe⟩ := prepareCurrentMessage_frame hm
  refine ⟨?_, ?_, ?_⟩
  · have hheader : LittleEndian.bytes32 (UInt32.ofNat (messagePrefixSize + m.length)) <+:
        s.prepareCurrentMessage.packet.bytes := by
      rw [prepareCurrentMessage_packet hm]
      exact (List.prefix_append _ _).trans (List.prefix_append _ _)
    rw [PacketArray.getUint32_of_prefix hheader]
    exact UInt32.toNat_ofNat
  · rw [hframe]
  · rw [hframe]

/-- With a true length the sizes are exact unless they need more than 32 bits. -/
theorem sizedFor_iff (hm : s.currentMessage = some m) {b : Nat} (hlength : m.length = b) :
    s.prepareCurrentMessage.SizedFor b ↔ b ≤ 2 ^ 32 - 23 := by
  obtain ⟨hpayload, hsize, hfixed⟩ := prepareCurrentMessage_sizes hm
  rw [DBusLogMessage.wireSize, hlength] at hsize hfixed
  rw [hlength] at hpayload
  simp only [packetMaxFixedPart, packetHeaderSize, messagePrefixSize] at *
  constructor
  · intro h
    have hexact := h.size
    simp only [packetMaxFixedPart, packetHeaderSize, messagePrefixSize] at hexact
    omega
  · intro hb
    refine ⟨?_, ?_, ?_⟩
    · simp only [messagePrefixSize]
      omega
    · simp only [packetMaxFixedPart, packetHeaderSize, messagePrefixSize]
      omega
    · simp only [packetMaxFixedPart, packetHeaderSize, messagePrefixSize]
      omega

/-- The length of a failed formatter declares one byte less than the prefix has. -/
theorem not_sizedFor_failed (hm : s.currentMessage = some m) (hlength : m.length = 2 ^ 64 - 1)
    (b : Nat) : ¬s.prepareCurrentMessage.SizedFor b := by
  intro h
  obtain ⟨hpayload, _, _⟩ := prepareCurrentMessage_sizes hm
  have hexact := h.payload
  rw [hpayload, hlength] at hexact
  simp only [messagePrefixSize] at hexact
  omega

end Sizes

end DBusLogSender

namespace DBusLogCore

open DBusLogSender

/-- What an accepted call has made of its text. -/
theorem acceptedCall_length {c : DBusLogCore} {op : CoreOp} {call : AcceptedCall}
    (hcall : c.acceptedCall op = some call) :
    (¬op.FormatterFailed ∧ call.message.length = call.message.text.length) ∨
      (op.FormatterFailed ∧ call.message.length = 2 ^ 64 - 1) := by
  cases op with
  | log ctx level cname message =>
    obtain ⟨_, hmade⟩ := Option.ite_none_right_eq_some.mp hcall
    cases hmade
    refine .inl ⟨id, ?_⟩
    cases message with
    | none => rfl
    | some str => rfl
  | logv ctx level cname formatted =>
    obtain ⟨_, hmade⟩ := Option.ite_none_right_eq_some.mp hcall
    cases hmade
    cases formatted with
    | none => exact .inr ⟨trivial, rfl⟩
    | some str => exact .inl ⟨id, rfl⟩
  | _ => cases hcall

/-- The packet that any sender prepares for the message of an accepted call has exact sizes, that
is, those for the bytes of the body that exist, if and only if the formatter has not failed and the
whole packet is shorter than 4 GiB. -/
theorem exactSizes {c : DBusLogCore} {op : CoreOp} {call : AcceptedCall}
    (hcall : c.acceptedCall op = some call) (index : UInt32) {s : DBusLogSender}
    (hcurrent : s.currentMessage = some (call.indexed index)) :
    s.prepareCurrentMessage.SizedFor call.message.text.length ↔
      ¬op.FormatterFailed ∧ call.message.text.length ≤ 2 ^ 32 - 23 := by
  obtain ⟨hok, hlength⟩ | ⟨hfailed, hlength⟩ := acceptedCall_length hcall
  · rw [sizedFor_iff hcurrent hlength]
    exact (and_iff_right hok).symm
  · refine iff_of_false (not_sizedFor_failed hcurrent hlength _) fun hboth => hboth.1 hfailed

/-- A core with a sender, and a call on it. -/
def sizedCall (formatted : Option (List UInt8)) : Option AcceptedCall :=
  ((new 0 true).newSender "Test" (some (3, 4))).2.acceptedCall
    (.logv ⟨false, 0, fun _ => []⟩ Level.info none formatted)

/-- The sender that has got the message of a call, before it prepares the packet. -/
def sizedSender (call : AcceptedCall) : DBusLogSender :=
  { DBusLogSender.new "Test" 0 3 4 with currentMessage := some (call.indexed 0) }

theorem exactSizes_hi : ∃ call, sizedCall (some [72, 105]) = some call ∧
    (sizedSender call).prepareCurrentMessage.SizedFor call.message.text.length := by
  have hcall : sizedCall (some [72, 105]) = some ((sizedCall (some [72, 105])).get (by decide)) :=
    (Option.some_get _).symm
  exact ⟨_, hcall, (exactSizes hcall 0 (s := sizedSender _) rfl).mpr ⟨id, by decide⟩⟩

/-- The formatter fails: the packet declares 16 bytes, and its fixed part is 21 bytes long. -/
theorem exactSizes_failed : ∃ call, sizedCall none = some call ∧
    (sizedSender call).prepareCurrentMessage.packet.getUint32 packetSizeOffset = 16 ∧
    (sizedSender call).prepareCurrentMessage.packetFixedPart = 21 ∧
    ¬(sizedSender call).prepareCurrentMessage.SizedFor call.message.text.length :=
  ⟨(sizedCall none).get (by decide), by decide, by decide, by decide,
    not_sizedFor_failed (s := sizedSender _) rfl (by decide) _⟩

end DBusLogCore

end DBusLog

import DBusLog.Lib.LittleEndian

/-!
# The wire protocol, log levels, category flags and log messages

Constants of `dbuslog_protocol.h`, the message record of `dbuslog_message.h` with its two
constructors, and the packets that travel through the log pipe. All multi-byte fields are
little-endian.
-/

namespace DBusLog

/-! ## Constants -/

/-- `DBUSLOG_PACKET_HEADER_SIZE` -/
def packetHeaderSize : Nat := 5

/-- `DBUSLOG_PACKET_SIZE_OFFSET` -/
def packetSizeOffset : Nat := 0

/-- `DBUSLOG_PACKET_TYPE_OFFSET` -/
def packetTypeOffset : Nat := 4

def messageTimestampOffset : Nat := packetHeaderSize + 0

def messageIndexOffset : Nat := packetHeaderSize + 8

def messageCategoryOffset : Nat := packetHeaderSize + 12

def messageLevelOffset : Nat := packetHeaderSize + 16

/-- `DBUSLOG_MESSAGE_PREFIX_SIZE` -/
def messagePrefixSize : Nat := 17

/-- `DBUSLOG_PACKET_MAX_FIXED_PART` -/
def packetMaxFixedPart : Nat := packetHeaderSize + messagePrefixSize

/-- `DBUSLOG_PACKET_TYPE` -/
inductive PacketType
  | ping
  | message
  | bye
  deriving DecidableEq, Repr

def PacketType.toByte : PacketType → UInt8
  | .ping => 0
  | .message => 1
  | .bye => 2

/-- `DBUSLOG_LEVEL` is an unsigned enumeration of C, in which any 32-bit value can be passed. -/
abbrev Level := UInt32

namespace Level

def undefined : Level := 0
def always : Level := 1
def critical : Level := 2
def error : Level := 3
def warning : Level := 4
def notice : Level := 5
def info : Level := 6
def debug : Level := 7
def verbose : Level := 8
def count : Level := 9

end Level

namespace CategoryFlag

def enabled : UInt64 := 0x01
def enabledByDefault : UInt64 := 0x02
def hideName : UInt64 := 0x04
def mask : UInt64 := 0x07

end CategoryFlag

/-! ## Messages -/

/-- `DBusLogMessage`. The text is kept without its terminating NUL. -/
structure DBusLogMessage where
  timestamp : UInt64
  index : UInt32
  category : UInt32
  level : Level
  length : Nat
  string : Option (List UInt8)
  deriving DecidableEq

namespace DBusLogMessage

/-- `dbus_log_message_alloc` zeroes the whole record. -/
def alloc : DBusLogMessage := ⟨0, 0, 0, Level.undefined, 0, none⟩

/-- `dbus_log_message_new` -/
def new (str : Option (List UInt8)) : DBusLogMessage :=
  match str with
  | some s => { alloc with length := s.length, string := some s }
  | none => alloc

/-- `dbus_log_message_new_va`. `formatted` is what `g_vasprintf` leaves: `none` is its failure,
for which it returns -1 and clears the string, and -1 becomes the largest `gsize`. -/
def newVa (formatted : Option (List UInt8)) : DBusLogMessage :=
  match formatted with
  | some s => { alloc with length := s.length, string := some s }
  | none => { alloc with length := 2 ^ 64 - 1, string := none }

/-- The bytes of the message that exist in memory. -/
def text (m : DBusLogMessage) : List UInt8 := m.string.getD []

/-- The declared length is that of the text, and the whole packet fits its 32-bit size. -/
def Fits (m : DBusLogMessage) : Prop :=
  m.text.length = m.length ∧ m.length ≤ 2 ^ 32 - 23

instance (m : DBusLogMessage) : Decidable m.Fits :=
  inferInstanceAs (Decidable (_ ∧ _))

/-- The `packet_size` that the sender computes for the message, in 32-bit arithmetic. -/
def wireSize (m : DBusLogMessage) : Nat :=
  (packetHeaderSize + (messagePrefixSize + m.length) % 2 ^ 32) % 2 ^ 32

theorem Fits.wireSize_eq {m : DBusLogMessage} (h : m.Fits) : m.wireSize = 22 + m.length := by
  have := h.2
  simp only [wireSize, packetHeaderSize, messagePrefixSize]
  omega

end DBusLogMessage

/-- A text of 22 bytes less than 4 GiB. The size of its packet wraps to zero. -/
def hugeMessage : DBusLogMessage :=
  { DBusLogMessage.alloc with
    length := 2 ^ 32 - 22
    string := some (List.replicate (2 ^ 32 - 22) 65) }

/-! ## The fixed part of a packet -/

/-- `guchar packet[DBUSLOG_PACKET_MAX_FIXED_PART]`, as both ends of the pipe keep it. -/
def PacketArray := { bytes : List UInt8 // bytes.length = packetMaxFixedPart }
  deriving DecidableEq

namespace PacketArray

def zero : PacketArray := ⟨List.replicate packetMaxFixedPart 0, List.length_replicate⟩

def bytes (p : PacketArray) : List UInt8 := p.1

def get (p : PacketArray) (offset : Nat) : UInt8 := p.bytes.getD offset 0

def set (p : PacketArray) (offset : Nat) (b : UInt8) : PacketArray :=
  ⟨p.1.set offset b, by rw [List.length_set]; exact p.2⟩

/-- `dbus_log_sender_put_uint32` -/
def putUint32 (p : PacketArray) (offset : Nat) (data : UInt32) : PacketArray :=
  (((p.set offset (data &&& 0xff).toUInt8).set (offset + 1) ((data >>> 8) &&& 0xff).toUInt8).set
    (offset + 2) ((data >>> 16) &&& 0xff).toUInt8).set (offset + 3) ((data >>> 24) &&& 0xff).toUInt8

/-- `dbus_log_sender_put_uint64` -/
def putUint64 (p : PacketArray) (offset : Nat) (data : UInt64) : PacketArray :=
  (p.putUint32 offset data.toUInt32).putUint32 (offset + 4) (data >>> 32).toUInt32

/-- `dbus_log_receiver_get_uint32` -/
def getUint32 (p : PacketArray) (offset : Nat) : UInt32 :=
  LittleEndian.word32 (p.get offset) (p.get (offset + 1)) (p.get (offset + 2)) (p.get (offset + 3))

/-- `dbus_log_receiver_get_uint64` -/
def getUint64 (p : PacketArray) (offset : Nat) : UInt64 :=
  LittleEndian.word64 (p.getUint32 offset) (p.getUint32 (offset + 4))

@[simp] theorem bytes_length (p : PacketArray) : p.bytes.length = 22 := p.2

/-- Writing the byte after a known beginning extends that beginning. -/
theorem prefix_set {p : PacketArray} {pre : List UInt8} (offset : Nat) (b : UInt8)
    (h : pre <+: p.bytes) (ho : pre.length = offset) (hlt : offset < 22) :
    pre ++ [b] <+: (p.set offset b).bytes := by
  obtain ⟨rest, hrest⟩ := h
  have hlen : pre.length + rest.length = 22 := by
    rw [← List.length_append, hrest, bytes_length]
  obtain ⟨c, rest, rfl⟩ := List.exists_cons_of_length_pos (by omega : 0 < rest.length)
  refine ⟨rest, ?_⟩
  change _ = p.bytes.set offset b
  rw [← hrest, ← ho, List.set_append_right _ _ le_rfl, Nat.sub_self, List.set_cons_zero,
    List.append_assoc, List.singleton_append]

theorem prefix_putUint32 {p : PacketArray} {pre : List UInt8} (offset : Nat) (x : UInt32)
    (h : pre <+: p.bytes) (ho : pre.length = offset) (hlt : offset + 4 ≤ 22) :
    pre ++ LittleEndian.bytes32 x <+: (p.putUint32 offset x).bytes := by
  have h0 := prefix_set offset (x &&& 0xff).toUInt8 h ho (by omega)
  have h1 := prefix_set (offset + 1) ((x >>> 8) &&& 0xff).toUInt8 h0
    (by simp [ho]) (by omega)
  have h2 := prefix_set (offset + 2) ((x >>> 16) &&& 0xff).toUInt8 h1
    (by simp [ho]) (by omega)
  have h3 := prefix_set (offset + 3) ((x >>> 24) &&& 0xff).toUInt8 h2
    (by simp [ho]) (by omega)
  simp only [List.append_assoc] at h3
  exact h3

theorem prefix_putUint64 {p : PacketArray} {pre : List UInt8} (offset : Nat) (x : UInt64)
    (h : pre <+: p.bytes) (ho : pre.length = offset) (hlt : offset + 8 ≤ 22) :
    pre ++ LittleEndian.bytes64 x <+: (p.putUint64 offset x).bytes := by
  have h0 := prefix_putUint32 offset x.toUInt32 h ho (by omega)
  have h1 := prefix_putUint32 (offset + 4) (x >>> 32).toUInt32 h0
    (by simp [ho]) (by omega)
  simp only [List.append_assoc] at h1
  exact h1

/-- A beginning of full length is the whole array. -/
theorem bytes_eq_of_prefix {p : PacketArray} {pre : List UInt8} (h : pre <+: p.bytes)
    (hlen : pre.length = 22) : p.bytes = pre :=
  (h.eq_of_length (by rw [hlen, bytes_length])).symm

theorem take_eq_of_prefix {p : PacketArray} {pre : List UInt8} (h : pre <+: p.bytes) :
    p.bytes.take pre.length = pre :=
  (List.prefix_iff_eq_take.mp h).symm

theorem get_of_prefix {p : PacketArray} {pre : List UInt8} (h : pre <+: p.bytes) {i : Nat}
    (hi : i < pre.length) : p.get i = pre.getD i 0 := by
  obtain ⟨rest, hrest⟩ := h
  unfold get
  rw [← hrest, List.getD_eq_getElem?_getD, List.getD_eq_getElem?_getD, List.getElem?_append_left hi]

/-- The size that a packet begins with. -/
theorem getUint32_of_prefix {p : PacketArray} {x : UInt32} (h : LittleEndian.bytes32 x <+: p.bytes) :
    p.getUint32 packetSizeOffset = x := by
  have h0 := get_of_prefix h (i := 0) (by simp)
  have h1 := get_of_prefix h (i := 1) (by simp)
  have h2 := get_of_prefix h (i := 2) (by simp)
  have h3 := get_of_prefix h (i := 3) (by simp)
  simp only [getUint32, packetSizeOffset, h0, h1, h2, h3]
  exact LittleEndian.word32_bytes x

end PacketArray

/-! ## Packets -/

/-- What the log pipe carries. -/
inductive WirePacket
  | ping
  | message (m : DBusLogMessage)
  | bye
  deriving DecidableEq

namespace WirePacket

/-- The message that a packet carries. -/
def message? : WirePacket → Option DBusLogMessage
  | .message m => some m
  | _ => none

def header (payload : Nat) (type : PacketType) : List UInt8 :=
  LittleEndian.bytes32 (UInt32.ofNat payload) ++ [type.toByte]

/-- Timestamp, index, category and level. -/
def messagePrefix (m : DBusLogMessage) : List UInt8 :=
  LittleEndian.bytes64 m.timestamp ++ LittleEndian.bytes32 m.index ++
    LittleEndian.bytes32 m.category ++ [m.level.toUInt8]

/-- The complete bytes of a packet, as the protocol lays them out. -/
def encode : WirePacket → List UInt8
  | .ping => header 0 .ping
  | .message m => header (messagePrefixSize + m.length) .message ++ messagePrefix m ++ m.text
  | .bye => header 0 .bye

def encodeAll (ps : List WirePacket) : List UInt8 := ps.flatMap encode

/-- The messages among the packets, in order. -/
def messages (ps : List WirePacket) : List DBusLogMessage := ps.filterMap message?

@[simp] theorem header_length (n : Nat) (t : PacketType) : (header n t).length = 5 := rfl

@[simp] theorem messagePrefix_length (m : DBusLogMessage) : (messagePrefix m).length = 17 := rfl

@[simp] theorem encode_ping_length : (encode .ping).length = 5 := rfl

@[simp] theorem encode_bye_length : (encode .bye).length = 5 := rfl

theorem encode_message_length (m : DBusLogMessage) :
    (encode (.message m)).length = 22 + m.text.length := by
  simp only [encode, List.length_append, header_length, messagePrefix_length]

@[simp] theorem encodeAll_nil : encodeAll [] = [] := rfl

@[simp] theorem encodeAll_append (ps qs : List WirePacket) :
    encodeAll (ps ++ qs) = encodeAll ps ++ encodeAll qs := List.flatMap_append

@[simp] theorem encodeAll_cons (p : WirePacket) (ps : List WirePacket) :
    encodeAll (p :: ps) = p.encode ++ encodeAll ps := rfl

@[simp] theorem messages_nil : messages [] = [] := rfl

@[simp] theorem messages_append (ps qs : List WirePacket) :
    messages (ps ++ qs) = messages ps ++ messages qs := List.filterMap_append

theorem messages_concat (ps : List WirePacket) (p : WirePacket) :
    messages (ps ++ [p]) = messages ps ++ p.message?.toList := by
  rw [messages_append]
  cases p <;> rfl

@[simp] theorem messages_cons_message (m : DBusLogMessage) (ps : List WirePacket) :
    messages (.message m :: ps) = m :: messages ps := rfl

@[simp] theorem messages_cons_ping (ps : List WirePacket) :
    messages (.ping :: ps) = messages ps := rfl

@[simp] theorem messages_cons_bye (ps : List WirePacket) :
    messages (.bye :: ps) = messages ps := rfl

@[simp] theorem messages_map_message (ms : List DBusLogMessage) :
    messages (ms.map .message) = ms := by
  induction ms with
  | nil => rfl
  | cons m ms ih => rw [List.map_cons, messages_cons_message, ih]

end WirePacket

end DBusLog

import DBusLog.Protocol

/-!
# The log receiver

The client's end of one log pipe, `dbuslog_receiver.c`. `PacketState` holds the fields that
`dbus_log_receiver_read` works on and the signals emitted so far; `ReceiverWorld` holds what the
channel is going to deliver and the live sources of the main loop. The signal handlers are a
parameter, since they may call back into the receiver.
-/

namespace DBusLog

/-- What a channel read finds: some bytes (none at all means "try again"), the end of the stream,
or an error. Bytes that a read does not ask for stay for the next one. -/
inductive ReadAnswer
  | data (bytes : List UInt8)
  | eof
  | error
  deriving DecidableEq

/-- The signals of a receiver. -/
inductive ReceiverEvent
  | message (msg : DBusLogMessage)
  | skip (count : UInt32)
  | closed
  deriving DecidableEq

/-- The memory behind `packet_buffer`: its size and the bytes read into it. -/
structure PacketBuffer where
  capacity : Nat
  data : List UInt8
  deriving DecidableEq

/-- The state of the packet parser. -/
structure PacketState where
  lastMessageIndex : UInt32
  messageReceived : Bool
  packet : PacketArray
  packetSize : Nat
  packetFixedPart : Nat
  packetRead : Nat
  packetBuffer : Option PacketBuffer
  events : List ReceiverEvent
  deriving DecidableEq

/-- The surroundings of a receiver. -/
structure ReceiverWorld where
  input : List ReadAnswer
  /-- The live I/O watches that the receiver has created. -/
  watches : List Nat
  lastWatchId : Nat
  closedFds : List Nat
  /-- Payload has been read into a missing buffer. -/
  faulted : Bool
  deriving DecidableEq

/-- `struct dbus_log_receiver`. The channel remembers its descriptor and whether to close it. -/
structure DBusLogReceiver extends PacketState, ReceiverWorld where
  io : Option (Nat × Bool)
  /-- An `int`; beyond its range the compiled code wraps around. -/
  paused : Int32
  readWatchId : Nat
  deriving DecidableEq

/-- The handlers connected to a receiver: what they do to it when a signal is emitted. -/
abbrev ReceiverHandlers := ReceiverEvent → DBusLogReceiver → DBusLogReceiver

/-- Handlers that do not touch the receiver. -/
def ReceiverHandlers.passive : ReceiverHandlers := fun _ r => r

/-- How far the reading of a packet gets. -/
inductive ReadOutcome
  | wait
  | failed
  | fault
  | complete
  deriving DecidableEq

/-! ## Parsing -/

namespace PacketArray

/-- The bytes of one channel read. -/
def store (p : PacketArray) (offset : Nat) : List UInt8 → PacketArray
  | [] => p
  | b :: bytes => (p.set offset b).store (offset + 1) bytes

end PacketArray

namespace PacketState

def new : PacketState := ⟨0, false, PacketArray.zero, 0, 0, 0, none, []⟩

def packetType (p : PacketState) : UInt8 := p.packet.get packetTypeOffset

/-- The size and the fixed part, once the header is complete. -/
def parseHeader (p : PacketState) : PacketState :=
  { p with
    packetSize := ((p.packet.getUint32 packetSizeOffset).toNat + packetHeaderSize) % 2 ^ 32
    packetFixedPart :=
      if p.packetType = PacketType.ping.toByte ∨ p.packetType = PacketType.bye.toByte then
        packetHeaderSize
      else if p.packetType = PacketType.message.toByte then packetHeaderSize + messagePrefixSize
      else packetMaxFixedPart }

/-- The buffer for the rest of the data, once the fixed part is complete. -/
def allocBuffer (p : PacketState) : PacketState :=
  if p.packetSize > p.packetFixedPart then
    { p with packetBuffer := some ⟨p.packetSize - p.packetFixedPart + 1, []⟩ }
  else p

/-- The message of a complete packet. -/
def receivedMessage (p : PacketState) : DBusLogMessage :=
  let msg := { DBusLogMessage.new none with
    timestamp := p.packet.getUint64 messageTimestampOffset
    index := p.packet.getUint32 messageIndexOffset
    category := p.packet.getUint32 messageCategoryOffset
    level := (p.packet.get messageLevelOffset).toUInt32 }
  match p.packetBuffer with
  | some buffer =>
    { msg with length := p.packetSize - p.packetFixedPart, string := some buffer.data }
  | none => msg

/-- The number of messages that a SKIP signal reports, if there is one. -/
def skipped (p : PacketState) (index : UInt32) : Option UInt32 :=
  let expected := p.lastMessageIndex + 1
  if p.messageReceived ∧ index ≠ expected then
    some (if index > expected then index - expected else expected - index)
  else none

end PacketState

namespace DBusLogReceiver

/-! ## Signals, pause, resume and close -/

def emit (h : ReceiverHandlers) (e : ReceiverEvent) (r : DBusLogReceiver) : DBusLogReceiver :=
  h e { r with events := r.events ++ [e] }

/-- A source is removed from the main loop. -/
def removeSource (r : DBusLogReceiver) (id : Nat) : DBusLogReceiver :=
  { r with watches := r.watches.filter (· ≠ id) }

/-- `g_source_remove` of the recorded watch. -/
def removeWatch (r : DBusLogReceiver) : DBusLogReceiver :=
  if r.readWatchId = 0 then r else { r.removeSource r.readWatchId with readWatchId := 0 }

/-- `dbus_log_receiver_pause` -/
def pause (r : DBusLogReceiver) : DBusLogReceiver :=
  { r with paused := r.paused + 1 }.removeWatch

/-- `dbus_log_receiver_resume` -/
def resume (r : DBusLogReceiver) : DBusLogReceiver :=
  if 0 < r.paused then
    let r := { r with paused := r.paused - 1 }
    -- only the last resume has the channel watched again
    if r.paused = 0 ∧ r.io.isSome then
      { r with
        watches := (r.lastWatchId + 1) :: r.watches
        lastWatchId := r.lastWatchId + 1
        readWatchId := r.lastWatchId + 1 }
    else r
  else r

/-- `dbus_log_receiver_close` -/
def close (h : ReceiverHandlers) (r : DBusLogReceiver) : DBusLogReceiver :=
  let r := { r with packetSize := 0, packetFixedPart := 0, packetRead := 0, packetBuffer := none }
  let r := r.removeWatch
  match r.io with
  | some (fd, _) => emit h .closed { r with io := none, closedFds := r.closedFds ++ [fd] }
  | none => r

/-- `dbus_log_receiver_new` on a channel that is going to deliver `input`. -/
def new (fd : Nat) (doClose : Bool) (input : List ReadAnswer) : DBusLogReceiver :=
  resume {
    PacketState.new with
    input := input
    watches := []
    lastWatchId := 0
    closedFds := []
    faulted := false
    io := some (fd, doClose)
    paused := 1
    readWatchId := 0 }

/-! ## Reading -/

/-- `dbus_log_receiver_read_chars`; `none` stands for FALSE. -/
def readChars (r : DBusLogReceiver) (count : Nat) : Option (List UInt8) × DBusLogReceiver :=
  match r.input with
  | [] => (some [], r)
  | .data bytes :: input =>
    (some (bytes.take count),
      { r with input := if bytes.length ≤ count then input else .data (bytes.drop count) :: input })
  | .eof :: input | .error :: input => (none, { r with input := input })

/-- The header of a packet. -/
def readHeader (r : DBusLogReceiver) : ReadOutcome × DBusLogReceiver :=
  if r.packetRead < packetHeaderSize then
    match r.readChars (packetHeaderSize - r.packetRead) with
    | (none, r) => (.failed, r)
    | (some bytes, r) =>
      let r := { r with
        packet := r.packet.store r.packetRead bytes
        packetRead := r.packetRead + bytes.length }
      if r.packetRead < packetHeaderSize then (.wait, r)
      else (.complete, { r with toPacketState := r.toPacketState.parseHeader })
  else (.complete, r)

/-- The fixed part of a packet. -/
def readFixedPart (r : DBusLogReceiver) : ReadOutcome × DBusLogReceiver :=
  if r.packetRead < r.packetFixedPart then
    match r.readChars (r.packetFixedPart - r.packetRead) with
    | (none, r) => (.failed, r)
    | (some bytes, r) =>
      let r := { r with
        packet := r.packet.store r.packetRead bytes
        packetRead := r.packetRead + bytes.length }
      if r.packetRead < r.packetFixedPart then (.wait, r)
      else (.complete, { r with toPacketState := r.toPacketState.allocBuffer })
  else (.complete, r)

/-- The rest of the data. A channel read that finds bytes for a missing buffer is a fault. -/
def readData (r : DBusLogReceiver) : ReadOutcome × DBusLogReceiver :=
  if r.packetRead < r.packetSize then
    match r.readChars (r.packetSize - r.packetRead) with
    | (none, r) => (.failed, r)
    | (some [], r) => (.wait, r)
    | (some bytes, r) =>
      match r.packetBuffer with
      | none => (.fault, { r with faulted := true })
      | some buffer =>
        let r := { r with
          packetBuffer := some { buffer with
            data := buffer.data.take (r.packetRead - r.packetFixedPart) ++ bytes }
          packetRead := r.packetRead + bytes.length }
        (if r.packetRead < r.packetSize then .wait else .complete, r)
  else (.complete, r)

/-- All the reading that `dbus_log_receiver_read` does. -/
def readPacket (r : DBusLogReceiver) : ReadOutcome × DBusLogReceiver :=
  match r.readHeader with
  | (.complete, r) =>
    match r.readFixedPart with
    | (.complete, r) => r.readData
    | result => result
  | result => result

/-- What `dbus_log_receiver_read` does with a complete packet. -/
def handlePacket (h : ReceiverHandlers) (r : DBusLogReceiver) : Bool × DBusLogReceiver :=
  if r.packetType = PacketType.message.toByte then
    let msg := r.receivedMessage
    let r := { r with packetBuffer := none }
    -- SKIP handlers run before the packet is over, MESSAGE handlers after it
    let r := match r.skipped msg.index with
      | some count => emit h (.skip count) r
      | none => r
    let r := { r with
      messageReceived := true
      lastMessageIndex := msg.index
      packetSize := 0
      packetFixedPart := 0
      packetRead := 0 }
    (true, emit h (.message msg) r)
  else
    (r.packetType ≠ PacketType.bye.toByte,
      { r with packetSize := 0, packetFixedPart := 0, packetRead := 0, packetBuffer := none })

/-- `dbus_log_receiver_read` returns TRUE or FALSE, or does not return. -/
def read (h : ReceiverHandlers) (r : DBusLogReceiver) : Option Bool × DBusLogReceiver :=
  match r.readPacket with
  | (.wait, r) => (some true, r)
  | (.failed, r) => (some false, r)
  | (.fault, r) => (none, r)
  | (.complete, r) => ((r.handlePacket h).1, (r.handlePacket h).2)

/-- `dbus_log_receiver_read_callback` for the watch `id`; `inp` tells whether the condition has
`G_IO_IN`. The source is removed unless the callback asks to continue. -/
def readCallback (h : ReceiverHandlers) (r : DBusLogReceiver) (id : Nat) (inp : Bool) :
    DBusLogReceiver :=
  match if inp then r.read h else (some false, r) with
  | (some true, r) => r
  | (some false, r) => (close h { r with readWatchId := 0 }).removeSource id
  | (none, r) => r

/-- The main loop calls back for a live watch whose channel is readable. -/
def dispatch (h : ReceiverHandlers) (r : DBusLogReceiver) : DBusLogReceiver :=
  if r.faulted then r
  else
    match r.watches with
    | [] => r
    | id :: _ => r.readCallback h id true

end DBusLogReceiver

end DBusLog

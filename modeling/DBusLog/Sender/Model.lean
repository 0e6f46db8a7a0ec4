import DBusLog.Protocol
import DBusLog.Lib.BoundedRing

/-!
# The log sender

The server's end of one log pipe, `dbuslog_sender.c`. `DBusLogSender` holds the fields of the
object and of its private part; `SenderWorld` holds what its calls leave behind outside: the
bytes taken by the pipe, the sources of the main loop and the CLOSED signal.

`dbus_log_sender_write` and `dbus_log_sender_schedule_write` call each other. The pair runs here
on fuel, one unit for each nested call of `write`; `Sender.Recursion` shows how much is enough.
-/

namespace DBusLog

/-- What one call of `g_io_channel_write_chars` does: take up to `n` bytes, or fail. -/
inductive WriteAnswer
  | accept (n : Nat)
  | error
  deriving DecidableEq

/-- The surroundings of a sender. -/
structure SenderWorld where
  /-- All bytes the pipe has taken so far. -/
  accepted : List UInt8
  /-- What the next channel writes will do. When none is left the pipe is full. -/
  answers : List WriteAnswer
  /-- The live I/O watches that the sender has created. -/
  watches : List Nat
  /-- The last id that `g_io_add_watch` gave out. -/
  lastWatchId : Nat
  /-- The number of calls of `g_io_add_watch` with a NULL channel. -/
  nullWatches : Nat
  /-- The write callbacks that worker threads have scheduled in the main context. -/
  pending : Nat
  closedSignals : Nat
  closedFds : List Nat
  deriving DecidableEq

/-- `DBusLogSender` and its private part. A descriptor of -1 and a NULL channel are `none`. -/
structure DBusLogSender extends SenderWorld where
  name : String
  readfd : Option Nat
  done : Bool
  bye : Bool
  io : Option Nat
  writeWatchId : Nat
  buffer : BoundedRing DBusLogMessage
  packet : PacketArray
  packetSize : Nat
  packetFixedPart : Nat
  packetWritten : Nat
  currentMessage : Option DBusLogMessage
  deriving DecidableEq

/-- How far the I/O part of `write` gets. -/
inductive WriteOutcome
  | wait
  | failed
  | sent
  deriving DecidableEq

namespace DBusLogSender

/-- `dbus_log_sender_normalize_backlog`; a negative size is `GUTIL_RING_UNLIMITED_SIZE`. -/
def normalizeBacklog (backlog : Int32) : Int32 :=
  if backlog > 0 then backlog else if backlog = 0 then 1000 else -1

/-- The bound of the ring created with a normalized backlog. -/
def ringMaxSize (backlog : Int32) : Option Nat :=
  if backlog < 0 then none else some backlog.toInt.toNat

/-- `dbus_log_sender_new` after a successful `pipe`. -/
def new (name : String) (backlog : Int32) (readfd writefd : Nat) : DBusLogSender where
  accepted := []
  answers := []
  watches := []
  lastWatchId := 0
  nullWatches := 0
  pending := 0
  closedSignals := 0
  closedFds := []
  name := name
  readfd := some readfd
  done := false
  bye := false
  io := some writefd
  writeWatchId := 0
  buffer := BoundedRing.empty (ringMaxSize (normalizeBacklog backlog))
  packet := PacketArray.zero
  packetSize := 0
  packetFixedPart := 0
  packetWritten := 0
  currentMessage := none

/-! ## Preparing packets -/

/-- `dbus_log_sender_fill_header` -/
def fillHeader (s : DBusLogSender) (payload : Nat) (type : PacketType) : DBusLogSender :=
  let size := (packetHeaderSize + payload % 2 ^ 32) % 2 ^ 32
  { s with
    packet := (s.packet.putUint32 packetSizeOffset (UInt32.ofNat payload)).set packetTypeOffset
      type.toByte
    packetSize := size
    packetWritten := 0
    packetFixedPart := min packetMaxFixedPart size }

/-- `dbus_log_sender_prepare_bye` -/
def prepareBye (s : DBusLogSender) : DBusLogSender :=
  { s with bye := false }.fillHeader 0 .bye

/-- `dbus_log_sender_prepare_current_message` -/
def prepareCurrentMessage (s : DBusLogSender) : DBusLogSender :=
  match s.currentMessage with
  | none => s
  | some msg =>
    let s := s.fillHeader (messagePrefixSize + msg.length) .message
    { s with
      packet := (((s.packet.putUint64 messageTimestampOffset msg.timestamp).putUint32
        messageIndexOffset msg.index).putUint32 messageCategoryOffset msg.category).set
        messageLevelOffset msg.level.toUInt8 }

/-! ## Channel, watches and shutdown -/

/-- `g_io_channel_write_chars`. On a NULL channel it complains and takes nothing. -/
def writeChars (s : DBusLogSender) (buf : List UInt8) (count : Nat) : Option Nat × DBusLogSender :=
  match s.io, s.answers with
  | none, _ => (some 0, s)
  | some _, [] => (some 0, s)
  | some _, .accept n :: answers =>
    (some (min n count),
      { s with answers := answers, accepted := s.accepted ++ buf.take (min n count) })
  | some _, .error :: answers => (none, { s with answers := answers })

/-- `g_io_add_watch` recorded in `write_watch_id`. On a NULL channel it complains and returns 0. -/
def addWatch (s : DBusLogSender) : DBusLogSender :=
  match s.io with
  | none => { s with nullWatches := s.nullWatches + 1, writeWatchId := 0 }
  | some _ =>
    { s with
      watches := (s.lastWatchId + 1) :: s.watches
      lastWatchId := s.lastWatchId + 1
      writeWatchId := s.lastWatchId + 1 }

/-- A source is removed from the main loop. -/
def removeSource (s : DBusLogSender) (id : Nat) : DBusLogSender :=
  { s with watches := s.watches.filter (· ≠ id) }

/-- `dbus_log_sender_shutdown`. The channel is not buffered, so `flush` has no effect. -/
def shutdown (s : DBusLogSender) (_flush : Bool) : DBusLogSender :=
  { s with
    packetSize := 0
    packetWritten := 0
    done := true
    bye := false
    readfd := none
    closedFds := s.closedFds ++ s.readfd.toList ++ s.io.toList
    watches := if s.writeWatchId = 0 then s.watches else s.watches.filter (· ≠ s.writeWatchId)
    writeWatchId := 0
    io := none
    -- the call that closes the channel emits CLOSED
    closedSignals := if s.io.isSome then s.closedSignals + 1 else s.closedSignals }

/-! ## Writing -/

/-- One channel write that is to bring `packet_written` up to `limit`. -/
def writeUpTo (s : DBusLogSender) (limit : Nat) (buf : List UInt8) :
    WriteOutcome × DBusLogSender :=
  match s.writeChars buf (limit - s.packetWritten) with
  | (none, s) => (.failed, s)
  | (some bytesWritten, s) =>
    (if s.packetWritten + bytesWritten < limit then .wait else .sent,
      { s with packetWritten := s.packetWritten + bytesWritten })

/-- The fixed part of the packet in flight. -/
def writeFixedPart (s : DBusLogSender) : WriteOutcome × DBusLogSender :=
  if s.packetWritten < s.packetFixedPart then
    s.writeUpTo s.packetFixedPart (s.packet.bytes.drop s.packetWritten)
  else (.sent, s)

/-- The text of the current message. -/
def messageData (s : DBusLogSender) : List UInt8 :=
  (s.currentMessage.map (·.text)).getD []

/-- The message data of the packet in flight. -/
def writeMessageData (s : DBusLogSender) : WriteOutcome × DBusLogSender :=
  if s.packetWritten < s.packetSize then
    s.writeUpTo s.packetSize (s.messageData.drop (s.packetWritten - s.packetFixedPart))
  else (.sent, s)

/-- The unlocked I/O at the start of `dbus_log_sender_write`. -/
def writePacket (s : DBusLogSender) : WriteOutcome × DBusLogSender :=
  if s.packetWritten < s.packetSize then
    match s.writeFixedPart with
    | (.sent, s) => s.writeMessageData
    | (.wait, s) => (.wait, s)
    | (.failed, s) => (.failed, s)
  else (.sent, s)

/-- The locked section of `dbus_log_sender_write`: release the message that has been sent and
prepare the next packet. The flag tells whether there is one. -/
def nextPacket (s : DBusLogSender) : Bool × DBusLogSender :=
  let s := { s with
    currentMessage := s.buffer.get.1
    buffer := s.buffer.get.2
    packetWritten := 0
    packetSize := 0
    packetFixedPart := 0 }
  if s.currentMessage.isSome then (true, s.prepareCurrentMessage)
  -- BYE waits until all messages have been sent
  else if s.bye then (true, s.prepareBye)
  else (false, s)

/-- The end of `dbus_log_sender_write` when nothing is left to send. -/
def finish (s : DBusLogSender) : DBusLogSender :=
  let s := { s with writeWatchId := 0 }
  if s.done then s.shutdown true else s

/-- The error path of `dbus_log_sender_write`. -/
def fail (s : DBusLogSender) : DBusLogSender :=
  { s with writeWatchId := 0 }.shutdown false

/-- `dbus_log_sender_schedule_write`, given the `write` that it calls. -/
def scheduleWriteWith (write : DBusLogSender → Option (Bool × DBusLogSender))
    (s : DBusLogSender) : Option DBusLogSender :=
  if s.io.isSome ∧ s.writeWatchId = 0 then
    -- a watch is for what `write` has not got rid of
    (write s).map fun
      | (true, s) => s.addWatch
      | (false, s) => s
  else some s

/-- `dbus_log_sender_write` with at most `fuel` nested calls of itself. -/
def writeFuel : Nat → DBusLogSender → Option (Bool × DBusLogSender)
  | 0, _ => none
  | fuel + 1, s =>
    match s.writePacket with
    | (.wait, s) => some (true, s)
    | (.failed, s) => some (false, s.fail)
    | (.sent, s) =>
      match s.nextPacket with
      | (true, s) => (s.scheduleWriteWith (writeFuel fuel)).map fun s => (true, s)
      | (false, s) => some (false, s.finish)

def scheduleWriteFuel (fuel : Nat) (s : DBusLogSender) : Option DBusLogSender :=
  s.scheduleWriteWith (writeFuel fuel)

end DBusLogSender

end DBusLog

import DBusLog.Lib.RefMemory
import DBusLog.Sender.WireSafety

/-!
# The references to the messages

Messages are reference-counted objects (`dbuslog_message.c`). Here the current message and the
ring of a sender are pointers, and every access of the source to a message is an access to the
memory, which notices an object that is gone. The bytes that are to be read of a text have to
exist as well.

In every interleaving nothing is ever misused, and the counts are those of the references that
the sender and the others own. A message becomes garbage when a worker's send overwrites the
current message between the halves of `write`; without such a send nothing outlives the sender
and the other owners.
-/

namespace DBusLog

/-- Where the text of a message comes from: `dbus_log_message_new` or `dbus_log_message_new_va`. -/
inductive MessageText
  | new (str : Option (List UInt8))
  | newVa (formatted : Option (List UInt8))
  deriving DecidableEq

def MessageText.message : MessageText → DBusLogMessage
  | .new str => .new str
  | .newVa formatted => .newVa formatted

/-- The fields of a message have been filled in by the logger. -/
def DBusLogMessage.Made (m : DBusLogMessage) : Prop :=
  ∃ text : MessageText, m.length = text.message.length ∧ m.string = text.message.string

/-- A step of a sender that is not a send. -/
abbrev SilentAction := { a : Action // a.message? = none }

/-- A sender, the objects of the messages, and who owns references to them. -/
structure SenderMemory where
  thread : Thread
  messages : RefMemory DBusLogMessage
  /-- The pointer `current_message`. -/
  current : Option Nat
  /-- The pointers in `buffer`. -/
  buffer : BoundedRing Nat
  /-- The references owned by the loggers and by other senders. -/
  outside : List Nat
  /-- The references of pointers that have been overwritten. No code has these references. -/
  leaked : List Nat
  finalized : Bool
  deriving DecidableEq

/-- A step of the sender or of another owner of messages. -/
inductive MemoryAction
  | create (text : MessageText) (timestamp : UInt64) (index category : UInt32) (level : Level)
  | ref (a : Nat)
  | unref (a : Nat)
  | workerSend (a : Nat)
  | send (a : Nat)
  | call (a : SilentAction)
  | finalize
  deriving DecidableEq

namespace SenderMemory

open DBusLogSender

def new (name : String) (backlog : Int32) (readfd writefd : Nat) : SenderMemory where
  thread := Thread.new name backlog readfd writefd
  messages := RefMemory.empty
  current := none
  buffer := BoundedRing.empty (ringMaxSize (normalizeBacklog backlog))
  outside := []
  leaked := []
  finalized := false

/-! ## Accesses to messages -/

/-- The queueing of `dbus_log_sender_send`: `gutil_ring_drop_last` unrefs what it drops, and only
a message that the ring has taken gets a reference. -/
def queueMessage (m : SenderMemory) (a : Nat) : SenderMemory :=
  let count := if m.buffer.canPut 1 then 0 else m.buffer.size / 2
  let dropped := m.buffer.items.drop (m.buffer.size - count)
  let messages := m.messages.unrefAll dropped
  match (m.buffer.dropLast count).put? a with
  | some buffer => { m with messages := messages.ref a, buffer := buffer }
  | none => { m with messages := messages, buffer := m.buffer.dropLast count }

/-- The locked section of `dbus_log_sender_send`. An old current message would be overwritten. -/
def sendLocked (m : SenderMemory) (a : Nat) : SenderMemory :=
  if m.thread.sender.done then m
  else if m.thread.sender.Idle then
    { m with
      messages := (m.messages.ref a).use a
      current := some a
      leaked := m.current.toList ++ m.leaked }
  else m.queueMessage a

/-- The locked section of `dbus_log_sender_write`: the current message is unreferenced, and the
reference of the ring to the next one passes on. -/
def nextPacket (m : SenderMemory) : SenderMemory :=
  let messages := m.messages.unrefAll m.current.toList
  { m with
    -- `dbus_log_sender_prepare_current_message` reads the message
    messages := m.buffer.get.1.elim messages messages.use
    current := m.buffer.get.1
    buffer := m.buffer.get.2 }

/-- The sender when `dbus_log_sender_write` comes to the message data, if it does. -/
def beforeText (s : DBusLogSender) : Option DBusLogSender :=
  if s.packetWritten < s.packetSize then
    match s.writeFixedPart with
    | (.sent, s) => if s.packetWritten < s.packetSize then some s else none
    | _ => none
  else none

/-- The bytes of the text that the second channel write may read exist. -/
def textExists (s : DBusLogSender) (msg : DBusLogMessage) : Bool :=
  msg.string.isSome &&
    s.packetWritten - s.packetFixedPart + (s.packetSize - s.packetWritten) ≤ msg.text.length

/-- The accesses of the unlocked half of `dbus_log_sender_write`. -/
def readText (m : SenderMemory) (answers : List WriteAnswer) : SenderMemory :=
  match beforeText { m.thread.sender with answers := answers } with
  | none => m
  | some s =>
    let messages := m.messages.deref m.current
    { m with messages := { messages with
        faulted := messages.faulted || !(m.current.bind m.messages.read).any (textExists s) } }

/-- What a step that is not a send does to the messages. -/
def touch (m : SenderMemory) : Action → SenderMemory
  | .io answers => m.readText answers
  | .locked => m.nextPacket
  | _ => m

/-- `dbus_log_sender_dispose` and `dbus_log_sender_finalize` -/
def finalize (m : SenderMemory) : SenderMemory :=
  let s := m.thread.sender.shutdown false
  { m with
    thread := ⟨{ s with currentMessage := none, buffer := s.buffer.dropLast s.buffer.size }, .idle⟩
    messages := (m.messages.unrefAll m.buffer.items).unrefAll m.current.toList
    current := none
    buffer := m.buffer.dropLast m.buffer.size
    finalized := true }

/-! ## Steps -/

/-- The sender makes a step, and `touched` is what it does to the messages. -/
def advance (m : SenderMemory) (a : Action) (touched : SenderMemory) : Option SenderMemory :=
  if m.finalized then none
  else (m.thread.step a).map fun c => { touched with thread := c }

/-- A step; `none` when it is not enabled. Only an owner may pass a message on. The sender is
finalized when nothing refers to it: no call, and no callback of a worker. -/
def step (m : SenderMemory) : MemoryAction → Option SenderMemory
  | .create text timestamp index category level => some
    { m with
      messages := m.messages.alloc { text.message with
        timestamp := timestamp, index := index, category := category, level := level }
      outside := m.messages.heap.length :: m.outside }
  | .ref a =>
    if a ∈ m.outside then some { m with messages := m.messages.ref a, outside := a :: m.outside }
    else none
  | .unref a =>
    if a ∈ m.outside then
      some { m with messages := m.messages.unref a, outside := m.outside.erase a }
    else none
  | .workerSend a =>
    if a ∈ m.outside then
      (m.messages.read a).bind fun msg => m.advance (.workerSend msg) (m.sendLocked a)
    else none
  | .send a =>
    if a ∈ m.outside then
      (m.messages.read a).bind fun msg => m.advance (.send msg) (m.sendLocked a)
    else none
  | .call a => m.advance a (m.touch a)
  | .finalize =>
    if m.finalized = false ∧ m.thread.control = .idle ∧ m.thread.sender.pending = 0 then
      some m.finalize
    else none

abbrev run (m : SenderMemory) (actions : List MemoryAction) : Option SenderMemory :=
  Runs.run step m actions

/-! ## The sender between two steps -/

/-- The message data belongs to the current message. -/
def Prepared (s : DBusLogSender) : Prop :=
  s.packetFixedPart < s.packetSize → ∃ msg, s.currentMessage = some msg ∧
    s.packetSize = msg.wireSize ∧ s.packetFixedPart = min packetMaxFixedPart msg.wireSize

/-- The messages of two senders are the same, and so is what is known about the data. -/
structure Follows (s t : DBusLogSender) : Prop where
  message : t.currentMessage = s.currentMessage
  buffer : t.buffer = s.buffer
  prepared : Prepared s → Prepared t

/-- The sender after the locked section of a step, which is where messages come and go. -/
def stored (s : DBusLogSender) : Action → DBusLogSender
  | .workerSend msg | .send msg => (s.sendLocked msg).2
  | .locked => s.nextPacket.2
  | _ => s

section Senders

variable {s t u : DBusLogSender}

theorem Follows.refl (s : DBusLogSender) : Follows s s := ⟨rfl, rfl, id⟩

theorem Follows.trans (h : Follows s t) (h' : Follows t u) : Follows s u :=
  ⟨h'.message.trans h.message, h'.buffer.trans h.buffer, fun hs => h'.prepared (h.prepared hs)⟩

/-- Without message data nothing has to be known. -/
theorem prepared_of_le (h : s.packetSize ≤ s.packetFixedPart) : Prepared s :=
  fun hlt => absurd hlt (Nat.not_lt.mpr h)

theorem prepared_of_message {msg : DBusLogMessage} (h : s.currentMessage = some msg) :
    Prepared s.prepareCurrentMessage := by
  obtain ⟨packet, hframe⟩ := prepareCurrentMessage_frame h
  rw [hframe]
  exact fun _ => ⟨msg, h, rfl, rfl⟩

theorem follows_of_sameOutput (h : Thread.SameOutput s t) : Follows s t := by
  obtain ⟨_, _, _, _, _, _, rfl⟩ := h
  exact ⟨rfl, rfl, id⟩

theorem shutdown_follows (s : DBusLogSender) (flush : Bool) : Follows s (s.shutdown flush) :=
  ⟨rfl, rfl, fun _ => prepared_of_le (Nat.zero_le _)⟩

theorem fillHeader_follows (s : DBusLogSender) (type : PacketType) :
    Follows s (s.fillHeader 0 type) :=
  ⟨rfl, rfl, fun _ => prepared_of_le (Nat.le_refl packetHeaderSize)⟩

theorem writePacket_follows {r : WriteOutcome} (h : s.writePacket = (r, t)) : Follows s t := by
  obtain ⟨_, _, _, rfl⟩ := writePacket_frame h
  exact ⟨rfl, rfl, id⟩

theorem finish_follows (s : DBusLogSender) : Follows s s.finish := by
  unfold finish
  by_cases hdone : s.done = true
  · rw [if_pos hdone]
    exact ⟨rfl, rfl, fun _ => prepared_of_le (Nat.zero_le _)⟩
  · rw [if_neg hdone]
    exact ⟨rfl, rfl, id⟩

theorem closeLocked_follows (s : DBusLogSender) : Follows s s.closeLocked.2 := by
  rcases closeLocked_cases s with ⟨_, he⟩ | ⟨_, _, _, he⟩ | ⟨_, _, he⟩
  · rw [he]
    exact Follows.refl s
  · rw [he]
    exact ⟨rfl, rfl, fun _ => prepared_of_le (Nat.le_refl packetHeaderSize)⟩
  · rw [he]
    exact ⟨rfl, rfl, id⟩

theorem sendLocked_prepared (h : Prepared s) (msg : DBusLogMessage) :
    Prepared (s.sendLocked msg).2 := by
  rcases sendLocked_cases s msg with ⟨_, he⟩ | ⟨_, _, he⟩ | ⟨_, _, he⟩
  · rw [he]
    exact h
  · rw [he]
    exact prepared_of_message (s := { s with currentMessage := some msg }) rfl
  · rw [he]
    exact h

theorem nextPacket_prepared (s : DBusLogSender) : Prepared s.nextPacket.2 := by
  rcases nextPacket_cases s with ⟨msg, _, _, he⟩ | ⟨_, _, he⟩ | ⟨_, _, he⟩
  · rw [he]
    exact prepared_of_message rfl
  · rw [he]
    exact prepared_of_le (Nat.le_refl packetHeaderSize)
  · rw [he]
    exact prepared_of_le (Nat.le_refl 0)

theorem stored_prepared (h : Prepared s) (a : Action) : Prepared (stored s a) := by
  cases a with
  | workerSend msg => exact sendLocked_prepared h msg
  | send msg => exact sendLocked_prepared h msg
  | locked => exact nextPacket_prepared s
  | _ => exact h

theorem enterScheduleWrite_follows (s : DBusLogSender) (callers : List Caller) :
    Follows s (Thread.enterScheduleWrite s callers).sender :=
  follows_of_sameOutput (Thread.enterScheduleWrite_sameOutput s callers)

theorem enterLocked_follows (r : Bool × DBusLogSender) :
    Follows r.2 (Thread.enterLocked r).sender := by
  obtain ⟨more, s⟩ := r
  cases more with
  | true => exact enterScheduleWrite_follows s []
  | false => exact Follows.refl s

theorem returnFrom_follows (more : Bool) (s : DBusLogSender) (callers : List Caller) :
    Follows s (Thread.returnFrom more s callers) :=
  follows_of_sameOutput (Thread.returnFrom_sameOutput more s callers)

theorem io_follows (s : DBusLogSender) (callers : List Caller) :
    Follows s (Thread.io s callers).sender := by
  unfold Thread.io
  split
  next t hp => exact (writePacket_follows hp).trans (returnFrom_follows true t callers)
  next t hp =>
    have hfail : Follows t t.fail :=
      ⟨rfl, rfl, fun _ => prepared_of_le (Nat.zero_le _)⟩
    exact ((writePacket_follows hp).trans hfail).trans (returnFrom_follows false t.fail callers)
  next t hp => exact writePacket_follows hp

theorem locked_follows (s : DBusLogSender) (callers : List Caller) :
    Follows s.nextPacket.2 (Thread.locked s callers).sender := by
  unfold Thread.locked
  split
  next u hu =>
    rw [hu]
    exact enterScheduleWrite_follows u callers
  next u hu =>
    rw [hu]
    exact (finish_follows u).trans (returnFrom_follows false u.finish callers)

end Senders

/-- Messages come and go in locked sections alone. -/
theorem step_follows {c c' : Thread} {a : Action} (hs : c.step a = some c') :
    Follows (stored c.sender a) c'.sender := by
  obtain ⟨s, control⟩ := c
  cases a with
  | workerSend msg =>
    have he : c' = ⟨s.sendFromWorker msg, control⟩ := by
      cases control <;> exact (Option.some.inj hs).symm
    rw [he]
    exact follows_of_sameOutput (Thread.sendFromWorker_sameOutput s msg)
  | send msg =>
    cases control with
    | idle =>
      cases hs
      exact enterLocked_follows (s.sendLocked msg)
    | _ => cases hs
  | ping =>
    cases control with
    | idle =>
      simp only [Thread.step] at hs
      split at hs
      · cases hs
        split
        · exact (fillHeader_follows s .ping).trans (enterScheduleWrite_follows _ [])
        · exact Follows.refl s
      · cases hs
    | _ => cases hs
  | close bye =>
    cases control with
    | idle =>
      cases hs
      exact (closeLocked_follows s).trans (enterLocked_follows s.closeLocked)
    | _ => cases hs
  | shutdown flush =>
    cases control with
    | idle =>
      cases hs
      exact shutdown_follows s flush
    | _ => cases hs
  | callback =>
    cases control with
    | idle =>
      simp only [Thread.step] at hs
      split at hs
      · cases hs
        obtain ⟨hmessage, hbuffer, hprepared⟩ :=
          enterScheduleWrite_follows { s with pending := s.pending - 1 } []
        exact ⟨hmessage, hbuffer, hprepared⟩
      · cases hs
    | _ => cases hs
  | watch id out =>
    cases control with
    | idle =>
      simp only [Thread.step] at hs
      split at hs
      · cases hs
        cases out with
        | true => exact Follows.refl s
        | false => exact ⟨rfl, rfl, fun _ => prepared_of_le (Nat.zero_le _)⟩
      · cases hs
    | _ => cases hs
  | io answers =>
    cases control with
    | writing callers =>
      cases hs
      obtain ⟨hmessage, hbuffer, hprepared⟩ := io_follows { s with answers := answers } callers
      exact ⟨hmessage, hbuffer, hprepared⟩
    | _ => cases hs
  | locked =>
    cases control with
    | between callers finished =>
      cases hs
      exact locked_follows s callers
    | _ => cases hs

/-! ## The invariant -/

/-- The references that are owned. -/
def holders (m : SenderMemory) : List Nat :=
  m.current.toList ++ (m.buffer.items ++ (m.leaked ++ m.outside))

/-- The pointers point to the messages of the sender `s`. -/
structure Points (m : SenderMemory) (s : DBusLogSender) : Prop where
  current : m.current.map m.messages.read = s.currentMessage.map some
  buffer : BoundedRing.PointsTo m.messages.read m.buffer s.buffer

structure MemoryInv (m : SenderMemory) : Prop where
  owned : m.messages.Owned m.holders
  made : ∀ a msg, m.messages.read a = some msg → msg.Made
  points : m.Points m.thread.sender
  prepared : Prepared m.thread.sender

section Accesses

variable {m : SenderMemory} {s : DBusLogSender} {a : Nat} {msg : DBusLogMessage}

theorem Points.follows (h : m.Points s) {t : DBusLogSender} (ht : Follows s t) : m.Points t :=
  ⟨by rw [h.current, ht.message], by rw [ht.buffer]; exact h.buffer⟩

/-! ### The locked section of a send -/

theorem queueMessage_read (m : SenderMemory) (a : Nat) :
    (m.queueMessage a).messages.read = m.messages.read := by
  funext b
  simp only [queueMessage]
  split <;> simp

theorem queueMessage_buffer (m : SenderMemory) (a : Nat) :
    (m.queueMessage a).buffer =
      ((m.buffer.dropLast (if m.buffer.canPut 1 then 0 else m.buffer.size / 2)).put? a).getD
        (m.buffer.dropLast (if m.buffer.canPut 1 then 0 else m.buffer.size / 2)) := by
  simp only [queueMessage]
  split
  next hput => rw [hput, Option.getD_some]
  next hput => rw [hput, Option.getD_none]

/-- The references to the dropped messages are given up, the ring gets one to the message that it
takes. -/
theorem queueMessage_owned (h : m.messages.Owned m.holders) (ha : a ∈ m.outside) :
    (m.queueMessage a).messages.Owned (m.queueMessage a).holders := by
  simp only [queueMessage]
  generalize (if m.buffer.canPut 1 then 0 else m.buffer.size / 2) = count
  have hsplit := List.take_append_drop (m.buffer.size - count) m.buffer.items
  have hrest : (m.messages.unrefAll (m.buffer.items.drop (m.buffer.size - count))).Owned
      (m.current.toList ++ (m.buffer.items.take (m.buffer.size - count) ++
        (m.leaked ++ m.outside))) := by
    refine RefMemory.Owned.unrefAll (h.perm (List.perm_iff_count.mpr fun b => ?_))
    have hcount := congrArg (List.count b) hsplit
    simp only [List.count_append] at hcount
    simp only [holders, List.count_append]
    omega
  split
  next buffer hput =>
    refine (hrest.ref (a := a) (by simp [ha])).perm (List.perm_iff_count.mpr fun b => ?_)
    rw [holders, (BoundedRing.put?_eq_some hput).1]
    simp only [BoundedRing.dropLast_items, ← BoundedRing.size_eq, List.count_append,
      List.count_cons, List.count_nil]
    omega
  next hput => exact hrest

theorem sendLocked_read (m : SenderMemory) (a : Nat) :
    (m.sendLocked a).messages.read = m.messages.read := by
  unfold sendLocked
  split
  · rfl
  · split
    · funext b
      simp
    · exact queueMessage_read m a

theorem sendLocked_owned (h : m.messages.Owned m.holders) (ha : a ∈ m.outside) :
    (m.sendLocked a).messages.Owned (m.sendLocked a).holders := by
  unfold sendLocked
  split
  · exact h
  · split
    · have href := h.ref (a := a) (by simp [holders, ha])
      show ((m.messages.ref a).use a).Owned _
      rw [href.use List.mem_cons_self]
      refine href.perm (List.perm_iff_count.mpr fun b => ?_)
      simp only [holders, Option.toList_some, List.count_append, List.count_cons, List.count_nil]
      omega
    · exact queueMessage_owned h ha

theorem sendLocked_points (h : m.Points m.thread.sender) (hmsg : m.messages.read a = some msg) :
    (m.sendLocked a).Points (m.thread.sender.sendLocked msg).2 := by
  have hread := sendLocked_read m a
  rcases sendLocked_cases m.thread.sender msg with ⟨hdone, he⟩ | ⟨hdone, hidle, he⟩ |
    ⟨hdone, hidle, he⟩
  · rw [he]
    unfold sendLocked
    rw [if_pos hdone]
    exact h
  · obtain ⟨packet, hframe⟩ := prepareCurrentMessage_frame
      (s := { m.thread.sender with currentMessage := some msg }) rfl
    have hdone : ¬m.thread.sender.done = true := by simp [hdone]
    refine ⟨?_, ?_⟩
    all_goals
      rw [hread, he, hframe]
      unfold sendLocked
      rw [if_neg hdone, if_pos hidle]
    · simp [hmsg]
    · exact h.buffer
  · have hdone : ¬m.thread.sender.done = true := by simp [hdone]
    have hqueue : m.sendLocked a = m.queueMessage a := by
      unfold sendLocked
      rw [if_neg hdone, if_neg hidle]
    rw [hqueue] at hread ⊢
    rw [he]
    refine ⟨?_, ?_⟩
    · rw [hread]
      have hcur : (m.queueMessage a).current = m.current := by
        simp only [queueMessage]
        split <;> rfl
      rw [hcur]
      exact h.current
    · rw [hread, queueMessage_buffer, h.buffer.canPut_eq, h.buffer.size_eq]
      show BoundedRing.PointsTo _ _ (m.thread.sender.queueMessage msg).buffer
      have hvalue : (m.thread.sender.queueMessage msg).buffer =
          ((m.thread.sender.buffer.dropLast (if m.thread.sender.buffer.canPut 1 then 0
            else m.thread.sender.buffer.size / 2)).put? msg).getD
          (m.thread.sender.buffer.dropLast (if m.thread.sender.buffer.canPut 1 then 0
            else m.thread.sender.buffer.size / 2)) := by
        unfold DBusLogSender.queueMessage
        by_cases hput : m.thread.sender.buffer.canPut 1 = true
        · simp only [if_pos hput, BoundedRing.dropLast_zero]
        · simp only [if_neg hput]
      rw [hvalue]
      exact (h.buffer.dropLast _).put hmsg

/-! ### The locked section of `write` -/

theorem nextPacket_read (m : SenderMemory) : m.nextPacket.messages.read = m.messages.read := by
  funext b
  simp only [nextPacket]
  cases m.buffer.get.1 with
  | none => simp
  | some a => simp

theorem nextPacket_owned (h : m.messages.Owned m.holders) :
    m.nextPacket.messages.Owned m.nextPacket.holders := by
  have hrest : (m.messages.unrefAll m.current.toList).Owned
      (m.buffer.items ++ (m.leaked ++ m.outside)) := h.unrefAll
  simp only [nextPacket, holders, BoundedRing.get_fst, BoundedRing.get_snd_items]
  cases hb : m.buffer.items with
  | nil =>
    rw [hb] at hrest
    exact hrest
  | cons a rest =>
    rw [hb] at hrest
    show ((m.messages.unrefAll m.current.toList).use a).Owned _
    rw [hrest.use (by simp)]
    exact hrest

theorem nextPacket_points (h : m.Points s) : m.nextPacket.Points s.nextPacket.2 := by
  have hhead := h.buffer.head
  have hring : m.nextPacket.buffer = m.buffer.get.2 := rfl
  have hnext : m.nextPacket.current = m.buffer.get.1 := rfl
  refine ⟨?_, ?_⟩
  all_goals rw [nextPacket_read]
  · rw [hnext, hhead]
    rcases nextPacket_cases s with ⟨msg, rest, hb, he⟩ | ⟨hb, _, he⟩ | ⟨hb, _, he⟩
    · obtain ⟨packet, hframe⟩ := prepareCurrentMessage_frame
        (s := { s with currentMessage := some msg, buffer := s.buffer.get.2 }) rfl
      rw [he, hframe, BoundedRing.get_fst, hb]
      rfl
    · rw [he, BoundedRing.get_fst, hb]
      rfl
    · rw [he, BoundedRing.get_fst, hb]
      rfl
  · rw [hring]
    rcases nextPacket_cases s with ⟨msg, rest, hb, he⟩ | ⟨hb, _, he⟩ | ⟨hb, _, he⟩
    · obtain ⟨packet, hframe⟩ := prepareCurrentMessage_frame
        (s := { s with currentMessage := some msg, buffer := s.buffer.get.2 }) rfl
      rw [he, hframe]
      exact h.buffer.tail
    · rw [he]
      exact h.buffer.tail
    · rw [he]
      exact h.buffer.tail

end Accesses

/-! ### The message data -/

/-- A message whose packet has message data has a text, and it is long enough. -/
theorem text_of_made {msg : DBusLogMessage} (h : msg.Made) (hlt : packetMaxFixedPart < msg.wireSize) :
    msg.string.isSome ∧ msg.wireSize ≤ packetMaxFixedPart + msg.text.length := by
  obtain ⟨text, hlength, hstring⟩ := h
  have hsize : ∀ bytes : List UInt8, msg.length = bytes.length → msg.string = some bytes →
      msg.string.isSome ∧ msg.wireSize ≤ packetMaxFixedPart + msg.text.length := by
    intro bytes hlen hstr
    refine ⟨by rw [hstr]; rfl, ?_⟩
    have htext : msg.text = bytes := by simp [DBusLogMessage.text, hstr]
    rw [htext, ← hlen]
    simp only [DBusLogMessage.wireSize, packetHeaderSize, messagePrefixSize, packetMaxFixedPart]
    omega
  -- without a text the packet ends before the data
  rcases text with (_ | bytes) | (_ | bytes)
  · have : msg.length = 0 := hlength
    simp [DBusLogMessage.wireSize, this, packetMaxFixedPart, packetHeaderSize,
      messagePrefixSize] at hlt
  · exact hsize bytes hlength hstring
  · have : msg.length = 2 ^ 64 - 1 := hlength
    simp [DBusLogMessage.wireSize, this, packetMaxFixedPart, packetHeaderSize,
      messagePrefixSize] at hlt
  · exact hsize bytes hlength hstring

/-- The message data comes when the fixed part is out. -/
theorem beforeText_eq_some {s t : DBusLogSender} (h : beforeText s = some t) :
    t.packetSize = s.packetSize ∧ t.packetFixedPart = s.packetFixedPart ∧
      s.packetFixedPart ≤ t.packetWritten ∧ t.packetWritten < t.packetSize := by
  unfold beforeText at h
  split at h
  next hbusy =>
    split at h
    next u hu =>
      split at h
      next hlt =>
        cases h
        obtain ⟨answers, accepted, written, hframe⟩ := writeFixedPart_frame hu
        refine ⟨by rw [hframe], by rw [hframe], ?_, hlt⟩
        unfold writeFixedPart at hu
        split at hu
        next hfixed =>
          unfold writeUpTo at hu
          split at hu
          · cases hu
          · next n v hw =>
            simp only [Prod.mk.injEq, ite_eq_right_iff, reduceCtorEq, imp_false] at hu
            obtain ⟨hnot, rfl⟩ := hu
            exact Nat.le_of_not_lt hnot
        next hfixed =>
          cases hu
          exact Nat.le_of_not_lt hfixed
      · cases h
    · cases h
  · cases h

/-- The text that is to be written is there, and nobody has freed it. -/
theorem readText_eq {m : SenderMemory} (h : MemoryInv m) (answers : List WriteAnswer) :
    m.readText answers = m := by
  unfold readText
  cases ht : beforeText { m.thread.sender with answers := answers } with
  | none => rfl
  | some t =>
    obtain ⟨hsize, hfixed, hwritten, hlt⟩ := beforeText_eq_some ht
    simp only at hsize hfixed hwritten
    obtain ⟨msg, hmsg, hwire, hpart⟩ := h.prepared (by omega)
    have hmax : packetMaxFixedPart < msg.wireSize := by omega
    have hcur := h.points.current
    rw [hmsg] at hcur
    obtain ⟨a, ha, hread⟩ := Option.map_eq_some_iff.mp hcur
    obtain ⟨hsome, hlong⟩ := text_of_made (h.made a msg hread) hmax
    have hderef : m.messages.deref m.current = m.messages := by
      rw [ha]
      exact h.owned.use (by simp [holders, ha])
    have hexists : textExists t msg = true := by
      simp only [textExists, hsome, Bool.true_and, decide_eq_true_eq]
      omega
    have hany : (m.current.bind m.messages.read).any (textExists t) = true := by
      rw [ha, Option.bind_some, hread, Option.any_some, hexists]
    simp only [hderef, hany, Bool.not_true, Bool.or_false]

/-! ## Steps keep the invariant -/

section Steps

variable {m m' : SenderMemory} {a : Action}

/-- A step of the sender whose accesses are those of `touched`. -/
theorem MemoryInv.advance (h : MemoryInv m) {touched : SenderMemory}
    (howned : touched.messages.Owned touched.holders)
    (hread : touched.messages.read = m.messages.read)
    (hpoints : touched.Points (stored m.thread.sender a))
    (hs : m.advance a touched = some m') : MemoryInv m' := by
  unfold SenderMemory.advance at hs
  split at hs
  · cases hs
  · obtain ⟨c, hc, rfl⟩ := Option.map_eq_some_iff.mp hs
    have hfollows := step_follows hc
    refine ⟨howned, ?_, ?_, hfollows.prepared (stored_prepared h.prepared a)⟩
    · intro b msg hmsg
      exact h.made b msg (hread ▸ hmsg)
    · obtain ⟨hcurrent, hbuffer⟩ := hpoints.follows hfollows
      exact ⟨hcurrent, hbuffer⟩

theorem MemoryInv.send {b : Nat} {msg : DBusLogMessage} (h : MemoryInv m) (hb : b ∈ m.outside)
    (hmsg : m.messages.read b = some msg)
    (hstored : stored m.thread.sender a = (m.thread.sender.sendLocked msg).2)
    (hs : m.advance a (m.sendLocked b) = some m') : MemoryInv m' := by
  refine h.advance (sendLocked_owned h.owned hb) (sendLocked_read m b) ?_ hs
  rw [hstored]
  exact sendLocked_points h.points hmsg

theorem MemoryInv.call (h : MemoryInv m) (ha : a.message? = none)
    (hs : m.advance a (m.touch a) = some m') : MemoryInv m' := by
  cases a with
  | workerSend msg => cases ha
  | send msg => cases ha
  | io answers =>
    rw [show m.touch (.io answers) = m from readText_eq h answers] at hs
    refine h.advance h.owned rfl ?_ hs
    exact h.points
  | locked =>
    refine h.advance (nextPacket_owned h.owned) (nextPacket_read m) ?_ hs
    exact nextPacket_points h.points
  | _ =>
    refine h.advance h.owned rfl ?_ hs
    exact h.points

/-- The last references of the sender are given up, each once. -/
theorem MemoryInv.finalize (h : MemoryInv m) : MemoryInv m.finalize where
  owned := by
    have hperm : m.holders.Perm
        (m.buffer.items ++ (m.current.toList ++ (m.leaked ++ m.outside))) := by
      refine List.perm_iff_count.mpr fun b => ?_
      simp only [holders, List.count_append]
      omega
    have howned := (h.owned.perm hperm).unrefAll.unrefAll
    simpa [holders, SenderMemory.finalize, BoundedRing.size_eq] using howned
  made a msg hmsg := by
    refine h.made a msg ?_
    simpa [SenderMemory.finalize] using hmsg
  points := by
    refine ⟨rfl, ?_, h.points.buffer.maxSize⟩
    simp [SenderMemory.finalize, BoundedRing.size_eq, DBusLogSender.shutdown]
  prepared := prepared_of_le (Nat.zero_le _)

/-- The step lemma. -/
theorem MemoryInv.step {b : MemoryAction} (h : MemoryInv m) (hs : m.step b = some m') :
    MemoryInv m' := by
  cases b with
  | create text timestamp index category level =>
    cases hs
    have hold : ∀ b ∈ m.holders, ∀ v, (m.messages.alloc v).read b = m.messages.read b :=
      fun b hb v => h.owned.read_alloc hb v
    refine ⟨?_, ?_, ⟨?_, ?_, h.points.buffer.maxSize⟩, h.prepared⟩
    · refine (h.owned.alloc _).perm (List.perm_iff_count.mpr fun b => ?_)
      simp only [holders, List.count_append, List.count_cons]
      omega
    · intro b msg hmsg
      -- the new object has been made just now
      by_cases hb : b < m.messages.heap.length
      · exact h.made b msg ((RefHeap.read_alloc_of_lt hb _).symm.trans hmsg)
      · by_cases hnew : b = m.messages.heap.length
        · subst hnew
          cases (RefMemory.read_alloc_self _).symm.trans hmsg
          exact ⟨text, rfl, rfl⟩
        · have hnone : (RefHeap.alloc m.messages.heap { text.message with
              timestamp := timestamp, index := index, category := category
              level := level })[b]? = none :=
            List.getElem?_eq_none (by rw [RefHeap.length_alloc]; omega)
          have hread := hmsg
          simp only [RefMemory.read, RefMemory.alloc, RefHeap.read, hnone] at hread
          cases hread
    · rw [← h.points.current]
      cases hc : m.current with
      | none => rfl
      | some b => exact congrArg some (hold b (by simp [holders, hc]) _)
    · rw [← h.points.buffer.items]
      exact List.map_congr_left fun b hb => hold b (by simp [holders, hb]) _
  | ref a =>
    simp only [SenderMemory.step] at hs
    split at hs
    next ha =>
      cases hs
      have hread : (m.messages.ref a).read = m.messages.read := funext fun b => by simp
      refine ⟨?_, ?_, ⟨?_, ?_, h.points.buffer.maxSize⟩, h.prepared⟩
      · refine (h.owned.ref (a := a) (by simp [holders, ha])).perm
          (List.perm_iff_count.mpr fun b => ?_)
        simp only [holders, List.count_append, List.count_cons]
        omega
      all_goals rw [hread]
      · exact h.made
      · exact h.points.current
      · exact h.points.buffer.items
    next => cases hs
  | unref a =>
    simp only [SenderMemory.step] at hs
    split at hs
    next ha =>
      cases hs
      have hread : (m.messages.unref a).read = m.messages.read := funext fun b => by simp
      refine ⟨?_, ?_, ⟨?_, ?_, h.points.buffer.maxSize⟩, h.prepared⟩
      · refine RefMemory.Owned.unref (h.owned.perm ?_)
        have herase := List.perm_cons_erase ha
        refine List.perm_iff_count.mpr fun b => ?_
        have hcount := herase.count_eq b
        simp only [List.count_cons] at hcount
        simp only [holders, List.count_append, List.count_cons]
        omega
      all_goals rw [hread]
      · exact h.made
      · exact h.points.current
      · exact h.points.buffer.items
    next => cases hs
  | workerSend a =>
    simp only [SenderMemory.step] at hs
    split at hs
    next ha =>
      obtain ⟨msg, hmsg, hs⟩ := Option.bind_eq_some_iff.mp hs
      exact h.send ha hmsg rfl hs
    next => cases hs
  | send a =>
    simp only [SenderMemory.step] at hs
    split at hs
    next ha =>
      obtain ⟨msg, hmsg, hs⟩ := Option.bind_eq_some_iff.mp hs
      exact h.send ha hmsg rfl hs
    next => cases hs
  | call a => exact h.call a.2 hs
  | finalize =>
    simp only [SenderMemory.step] at hs
    split at hs
    · cases hs
      exact h.finalize
    · cases hs

end Steps

/-! ## Runs -/

section Run

variable {name : String} {backlog : Int32} {readfd writefd : Nat} {actions : List MemoryAction}
  {m : SenderMemory}

end Run

/-! ## Garbage -/

/-- Messages that are taken fit, and no worker's message is taken between the halves of `write`. -/
def Undisturbed (m : SenderMemory) : MemoryAction → Prop
  | .workerSend a => ∀ msg ∈ m.messages.read a, m.thread.sender.done = false →
    msg.Fits ∧ m.thread.control.isBetween = false
  | .send a => ∀ msg ∈ m.messages.read a, m.thread.sender.done = false → msg.Fits
  | _ => True

instance (m : SenderMemory) : DecidablePred (Undisturbed m)
  | .workerSend _ => inferInstanceAs (Decidable (∀ _ ∈ _, _))
  | .send _ => inferInstanceAs (Decidable (∀ _ ∈ _, _))
  | .create _ _ _ _ _ | .ref _ | .unref _ | .call _ | .finalize => isTrue trivial

/-- The pipe is safe, and no reference has been lost. -/
structure CleanInv (m : SenderMemory) : Prop extends MemoryInv m where
  wire : ∃ sent, Thread.WireInv sent m.thread
  leaked : m.leaked = []
  released : m.finalized = true → m.current = none ∧ m.buffer.items = []

section Garbage

variable {m m' : SenderMemory}

/-- A sender that takes a message outside of the halves of `write` has no current message. -/
theorem current_of_idle {s : DBusLogSender} {control : Control} {sent : List DBusLogMessage}
    (h : Thread.WireInv sent ⟨s, control⟩) (hc : control.isBetween = false) (hdone : s.done = false)
    (hidle : s.Idle) : s.currentMessage = none := by
  cases h with
  | closed _ hdone' _ _ => cases hdone.symm.trans hdone'
  | outside _ _ h =>
    cases h with
    | rest _ _ hrest _ _ _ => exact hrest.message
    | sends _ _ _ hsends _ _ => exact absurd hidle (Nat.ne_of_gt hsends.unfinished)
  | inside _ hc' _ _ => cases hc.symm.trans hc'

theorem sendLocked_leaked (m : SenderMemory) (a : Nat) :
    (m.sendLocked a).leaked = m.leaked ∨
      m.thread.sender.done = false ∧ m.thread.sender.Idle ∧
        (m.sendLocked a).leaked = m.current.toList ++ m.leaked := by
  unfold sendLocked
  split
  · exact .inl rfl
  next hdone =>
    split
    next hidle => exact .inr ⟨by simpa using hdone, hidle, rfl⟩
    next =>
      refine .inl ?_
      simp only [queueMessage]
      split <;> rfl

theorem sendLocked_finalized (m : SenderMemory) (a : Nat) :
    (m.sendLocked a).finalized = m.finalized := by
  unfold sendLocked
  split
  · rfl
  · split
    · rfl
    · simp only [queueMessage]
      split <;> rfl

/-- A step of the sender that loses no reference. -/
theorem CleanInv.advance {touched : SenderMemory} {b : Action} (h : CleanInv m)
    (hinv : MemoryInv m') (hfits : Thread.FitsWhenOpen m.thread b) (hleaked : touched.leaked = [])
    (hfinalized : touched.finalized = m.finalized) (hs : m.advance b touched = some m') :
    CleanInv m' := by
  unfold SenderMemory.advance at hs
  split at hs
  · cases hs
  next hlive =>
    obtain ⟨c, hc, rfl⟩ := Option.map_eq_some_iff.mp hs
    obtain ⟨sent, hwire⟩ := h.wire
    exact ⟨hinv, ⟨_, hwire.step hfits hc⟩, hleaked,
      fun hdead => absurd (hfinalized.symm.trans hdead) hlive⟩

theorem CleanInv.send {b : Action} {a : Nat} {msg : DBusLogMessage} (h : CleanInv m)
    (hinv : MemoryInv m') (hb : b.message? = some msg)
    (hfits : m.thread.sender.done = false → msg.Fits)
    (hc : m.thread.sender.done = false → m.thread.control.isBetween = false)
    (hs : m.advance b (m.sendLocked a) = some m') : CleanInv m' := by
  refine h.advance hinv ?_ ?_ (sendLocked_finalized m a) hs
  · intro hdone x hx
    rw [hb] at hx
    cases hx
    exact hfits hdone
  · rcases sendLocked_leaked m a with he | ⟨hdone, hidle, he⟩
    · rw [he, h.leaked]
    · obtain ⟨sent, hwire⟩ := h.wire
      have hnone := current_of_idle hwire (hc hdone) hdone hidle
      have hcur := h.points.current
      rw [hnone, Option.map_none, Option.map_eq_none_iff] at hcur
      rw [he, hcur, h.leaked]
      rfl

theorem touch_leaked (h : MemoryInv m) (b : Action) :
    (m.touch b).leaked = m.leaked ∧ (m.touch b).finalized = m.finalized := by
  cases b with
  | io answers =>
    have he : m.touch (.io answers) = m := readText_eq h answers
    rw [he]
    exact ⟨rfl, rfl⟩
  | _ => exact ⟨rfl, rfl⟩

theorem CleanInv.finalize (h : CleanInv m) : CleanInv m.finalize := by
  refine ⟨h.toMemoryInv.finalize, ?_, h.leaked, fun _ => ⟨rfl, ?_⟩⟩
  · obtain ⟨sent, hwire⟩ := h.wire
    obtain ⟨ps, hwritten⟩ := hwire.written
    exact ⟨sent, .closed rfl rfl ps
      ⟨hwritten.accepted, hwritten.sublist, hwritten.byeLast, fun _ => rfl⟩⟩
  · simp [SenderMemory.finalize, BoundedRing.size_eq]

/-- The step lemma for runs without a worker's send between the halves of `write`. -/
theorem CleanInv.step {b : MemoryAction} (h : CleanInv m) (hcond : m.Undisturbed b)
    (hs : m.step b = some m') : CleanInv m' := by
  have hinv := h.toMemoryInv.step hs
  cases b with
  | create text timestamp index category level =>
    cases hs
    exact ⟨hinv, h.wire, h.leaked, h.released⟩
  | ref a =>
    simp only [SenderMemory.step] at hs
    split at hs
    · cases hs
      exact ⟨hinv, h.wire, h.leaked, h.released⟩
    · cases hs
  | unref a =>
    simp only [SenderMemory.step] at hs
    split at hs
    · cases hs
      exact ⟨hinv, h.wire, h.leaked, h.released⟩
    · cases hs
  | workerSend a =>
    simp only [SenderMemory.step] at hs
    split at hs
    · obtain ⟨msg, hmsg, hs⟩ := Option.bind_eq_some_iff.mp hs
      have hquiet := hcond msg hmsg
      exact h.send hinv rfl (fun hdone => (hquiet hdone).1) (fun hdone => (hquiet hdone).2) hs
    · cases hs
  | send a =>
    simp only [SenderMemory.step] at hs
    split at hs
    · obtain ⟨msg, hmsg, hs⟩ := Option.bind_eq_some_iff.mp hs
      refine h.send hinv rfl (hcond msg hmsg) (fun _ => ?_) hs
      -- the main thread only sends when it is outside of the sender
      unfold SenderMemory.advance at hs
      split at hs
      · cases hs
      · obtain ⟨c, hc, _⟩ := Option.map_eq_some_iff.mp hs
        cases hcontrol : m.thread.control with
        | between callers finished =>
          unfold Thread.step at hc
          rw [hcontrol] at hc
          cases hc
        | _ => rfl
    · cases hs
  | call a =>
    obtain ⟨hleaked, hfinalized⟩ := touch_leaked h.toMemoryInv a.1
    refine h.advance hinv (fun _ x hx => ?_) (hleaked.trans h.leaked) hfinalized hs
    rw [a.2] at hx
    cases hx
  | finalize =>
    simp only [SenderMemory.step] at hs
    split at hs
    · cases hs
      exact h.finalize
    · cases hs

end Garbage

end SenderMemory

end DBusLog

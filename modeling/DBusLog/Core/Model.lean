import DBusLog.Lib.KeyedTable
import DBusLog.Lib.RefHeap
import DBusLog.Sender.System
import Mathlib.Data.List.Sort

/-!
# The core of the log server

`dbuslog_core.c`: the category table, the levels, the array of senders and the broadcast of a
message to all of them. The array of senders is an object of its own, which is replaced whenever
a sender comes or goes; a broadcast holds a reference to the array that it has found.
-/

namespace DBusLog

/-- `DBusLogCategory` -/
structure DBusLogCategory where
  name : String
  id : UInt32
  level : Level
  flags : UInt64
  deriving DecidableEq

namespace DBusLogCategory

/-- `dbus_log_category_new` -/
def new (name : String) (id : UInt32) : DBusLogCategory := ⟨name, id, Level.undefined, 0⟩

def enabled (cat : DBusLogCategory) : Bool := cat.flags &&& CategoryFlag.enabled ≠ 0

end DBusLogCategory

/-- The signals of a core. A category is reported as it is at the time of the signal. -/
inductive CoreSignal
  | backlog
  | defaultLevel
  | categoryAdded (cat : DBusLogCategory)
  | categoryRemoved (cat : DBusLogCategory)
  | categoryLevel (cat : DBusLogCategory)
  | categoryFlags (cat : DBusLogCategory) (mask : UInt64)
  deriving DecidableEq

/-- A sender in memory, with the ids of the core's handlers connected to its CLOSED signal. -/
structure SenderObject where
  sender : DBusLogSender
  closedHandlers : List Nat
  deriving DecidableEq

/-- The memory and the surroundings of a core. -/
structure CoreWorld where
  /-- All senders that have been created, by their handles. -/
  objects : List SenderObject
  /-- The `GPtrArray` objects that hold sender handles. -/
  arrays : RefHeap (List Nat)
  lastHandlerId : Nat
  /-- The calls of `dbus_log_sender_send` that the core has made. -/
  handed : List (Nat × DBusLogMessage)
  signals : List CoreSignal
  /-- Somebody is connected to the signal for a removed category. -/
  removedHandlers : Bool
  /-- An array that had been freed, or a sender that never existed, has been used. -/
  faulted : Bool
  deriving DecidableEq

/-- `struct dbus_log_core` -/
structure DBusLogCore extends CoreWorld where
  backlog : Int32
  senders : Nat
  categories : KeyedTable DBusLogCategory.name
  senderSignalIds : KeyedTable (Prod.fst : Nat × Nat → Nat)
  lastCid : UInt32
  nextMsgIndex : UInt32
  defaultLevel : Level
  deriving DecidableEq

/-- Where and when a log call is made: `g_get_real_time` at that moment, and what the channel of
each sender is going to do. -/
structure LogContext where
  worker : Bool
  time : UInt64
  answers : Nat → List WriteAnswer

namespace DBusLogCore

/-- `dbus_log_core_new` -/
def new (backlog : Int32) (removedHandlers : Bool) : DBusLogCore where
  objects := []
  arrays := RefHeap.alloc [] []
  lastHandlerId := 0
  handed := []
  signals := []
  removedHandlers := removedHandlers
  faulted := false
  backlog := DBusLogSender.normalizeBacklog backlog
  senders := 0
  categories := .empty
  senderSignalIds := .empty
  lastCid := 0
  nextMsgIndex := 0
  defaultLevel := Level.info

/-! ## The array of senders -/

/-- The senders in an array. -/
def arrayItems (c : DBusLogCore) (array : Nat) : List Nat := (c.arrays.read array).getD []

/-- The senders that are registered. -/
def registered (c : DBusLogCore) : List Nat := c.arrayItems c.senders

/-- An access to an array. -/
def touch (c : DBusLogCore) (array : Nat) : DBusLogCore :=
  if c.arrays.alive array then c else { c with faulted := true }

/-- Put a new array in the place of the current one, and release that. -/
def swapSenders (c : DBusLogCore) (items : List Nat) : DBusLogCore :=
  { c with
    arrays := (c.arrays.alloc items).unref c.senders
    senders := c.arrays.length }

/-- `dbus_log_core_new_sender`. `pipe` is the pair of descriptors, unless `pipe` fails. -/
def newSender (c : DBusLogCore) (name : String) (pipe : Option (Nat × Nat)) :
    Option Nat × DBusLogCore :=
  match pipe with
  | none => (none, c)
  | some (readfd, writefd) =>
    let sender := c.objects.length
    let signalId := c.lastHandlerId + 1
    let c := c.touch c.senders
    let c := { c with
      objects := c.objects ++ [SenderObject.mk (.new name c.backlog readfd writefd) [signalId]]
      lastHandlerId := signalId
      senderSignalIds := c.senderSignalIds.insert (sender, signalId) }
    (some sender, c.swapSenders (c.registered ++ [sender]))

/-- `dbus_log_sender_remove_handler` -/
def removeHandler (c : DBusLogCore) (sender : Nat) (id : Nat) : DBusLogCore :=
  if id = 0 then c
  else { c with objects := c.objects.modify sender fun object =>
    { object with closedHandlers := object.closedHandlers.filter (· ≠ id) } }

/-- `dbus_log_core_remove_sender` -/
def removeSender (c : DBusLogCore) (sender : Nat) : Bool × DBusLogCore :=
  let c := c.touch c.senders
  match c.registered.idxOf? sender with
  | none => (false, c)
  | some index =>
    let items := c.registered.take index ++ c.registered.drop (index + 1)
    let c := c.removeHandler sender (((c.senderSignalIds.lookup sender).map Prod.snd).getD 0)
    let c := { c with senderSignalIds := c.senderSignalIds.erase sender }
    (true, c.swapSenders items)

/-- A function of a sender has been called, and its CLOSED signal reaches
`dbus_log_core_sender_closed` if that is connected. -/
def runSender (c : DBusLogCore) (sender : Nat) (f : DBusLogSender → DBusLogSender) : DBusLogCore :=
  match c.objects[sender]? with
  | none => { c with faulted := true }
  | some object =>
    let c := { c with objects := c.objects.set sender { object with sender := f object.sender } }
    if object.sender.closedSignals < (f object.sender).closedSignals ∧
        object.closedHandlers ≠ [] then (c.removeSender sender).2
    else c

/-! ## Logging -/

/-- One call of `dbus_log_sender_send` in a broadcast. -/
def hand (c : DBusLogCore) (ctx : LogContext) (msg : DBusLogMessage) (sender : Nat) :
    DBusLogCore :=
  { c with handed := c.handed ++ [(sender, msg)] }.runSender sender fun s =>
    if ctx.worker then s.sendFromWorker msg
    else { s with answers := ctx.answers sender }.send msg

/-- The loop of `dbus_log_core_send` over an array, from the position `i` on. -/
def sendLoop (ctx : LogContext) (msg : DBusLogMessage) (array : Nat) :
    Nat → Nat → DBusLogCore → DBusLogCore
  | 0, _, c => c
  | fuel + 1, i, c =>
    let c := c.touch array
    match (c.arrayItems array)[i]? with
    | none => c
    | some sender => sendLoop ctx msg array fuel (i + 1) (c.hand ctx msg sender)

/-- `dbus_log_core_send` -/
def send (c : DBusLogCore) (ctx : LogContext) (category : Option DBusLogCategory)
    (msg : DBusLogMessage) : DBusLogCore :=
  let senders := c.senders
  let c := c.touch senders
  -- senders that come or go meanwhile have the core use another array
  let c := { c with arrays := c.arrays.ref senders }
  let msg := { msg with timestamp := ctx.time, index := c.nextMsgIndex }
  let c := { c with nextMsgIndex := c.nextMsgIndex + 1 }
  let msg := match category with
    | some cat => { msg with category := cat.id }
    | none => msg
  let c := sendLoop ctx msg senders ((c.arrayItems senders).length + 1) 0 c
  { c with arrays := c.arrays.unref senders }

/-- `dbus_log_core_should_log`, with the category that it finds. -/
def shouldLog (c : DBusLogCore) (level : Level) (cname : Option String) :
    Bool × Option DBusLogCategory :=
  if c.registered.length ≠ 0 then
    let send := c.defaultLevel ≤ Level.undefined ∨ level ≤ c.defaultLevel
    match cname.bind c.categories.lookup with
    | some cat =>
      if cat.enabled then
        -- its own level goes before the default level
        (if cat.level > Level.undefined then level ≤ cat.level else send, some cat)
      else (false, some cat)
    | none => (send, none)
  else (false, none)

/-- The common part of `dbus_log_core_log` and `dbus_log_core_logv`. -/
def logMessage (c : DBusLogCore) (ctx : LogContext) (level : Level) (cname : Option String)
    (msg : DBusLogMessage) : Bool × DBusLogCore :=
  match c.shouldLog level cname with
  | (true, cat) => (true, c.send ctx cat { msg with level := level })
  | (false, _) => (false, c)

/-- `dbus_log_core_log` -/
def log (c : DBusLogCore) (ctx : LogContext) (level : Level) (cname : Option String)
    (message : Option (List UInt8)) : Bool × DBusLogCore :=
  c.logMessage ctx level cname (.new message)

/-- `dbus_log_core_logv`. `formatted` is what `g_vasprintf` makes of the format. -/
def logv (c : DBusLogCore) (ctx : LogContext) (level : Level) (cname : Option String)
    (formatted : Option (List UInt8)) : Bool × DBusLogCore :=
  c.logMessage ctx level cname (.newVa formatted)

/-! ## Levels and the backlog -/

def emit (c : DBusLogCore) (signal : CoreSignal) : DBusLogCore :=
  { c with signals := c.signals ++ [signal] }

/-- `dbus_log_core_set_default_level` -/
def setDefaultLevel (c : DBusLogCore) (level : Level) : Bool × DBusLogCore :=
  if level ≥ Level.always ∧ level < Level.count then
    (true, if c.defaultLevel ≠ level then { c with defaultLevel := level }.emit .defaultLevel
      else c)
  else (false, c)

/-- `dbus_log_core_set_backlog`. `ringSetMaxSize` stands for `gutil_ring_set_max_size`. -/
def setBacklog (ringSetMaxSize : BoundedRing DBusLogMessage → Int32 → BoundedRing DBusLogMessage)
    (c : DBusLogCore) (backlog : Int32) : DBusLogCore :=
  let backlog := DBusLogSender.normalizeBacklog backlog
  if c.backlog ≠ backlog then
    let c := { c with backlog := backlog }
    let c := c.registered.foldl (fun c sender => c.runSender sender fun s =>
      { s with buffer := ringSetMaxSize s.buffer (DBusLogSender.normalizeBacklog backlog) }) c
    c.emit .backlog
  else c

/-! ## Categories -/

/-- `dbus_log_core_new_category` -/
def newCategory (c : DBusLogCore) (name : String) (level : Level) (flags : UInt64) :
    DBusLogCategory × DBusLogCore :=
  match c.categories.lookup name with
  | some cat => (cat, c)
  | none =>
    -- 0 is not an id
    let cid := if c.lastCid + 1 = 0 then c.lastCid + 1 + 1 else c.lastCid + 1
    let cat := DBusLogCategory.new name cid
    let cat := if level ≥ Level.undefined ∧ level < Level.count then { cat with level := level }
      else cat
    let cat := { cat with flags := flags &&& CategoryFlag.mask }
    let cat := if flags &&& CategoryFlag.enabled ≠ 0 then
        { cat with flags := cat.flags ||| CategoryFlag.enabledByDefault }
      else cat
    (cat, { c with lastCid := cid, categories := c.categories.insert cat }.emit (.categoryAdded cat))

/-- `dbus_log_core_get_categories` -/
def getCategories (c : DBusLogCore) : List DBusLogCategory :=
  c.categories.values.insertionSort fun cat cat' => cat.name ≤ cat'.name

/-- `dbus_log_core_find_categories`. `patternMatch` stands for `g_pattern_match_simple`. -/
def findCategories (patternMatch : String → String → Bool) (c : DBusLogCore)
    (pattern : Option String) : List DBusLogCategory :=
  match pattern with
  | some pattern =>
    if pattern ≠ "" ∧ pattern ≠ "*" then
      (c.categories.values.filter fun cat => patternMatch pattern cat.name).insertionSort
        fun cat cat' => cat.name ≤ cat'.name
    else c.getCategories
  | none => c.getCategories

/-- `dbus_log_core_remove_category` -/
def removeCategory (c : DBusLogCore) (name : String) : Bool × DBusLogCore :=
  match c.categories.lookup name with
  | some cat =>
    (true, { c with categories := c.categories.erase name }.emit (.categoryRemoved cat))
  | none => (false, c)

/-- `dbus_log_core_remove_all_categories` -/
def removeAllCategories (c : DBusLogCore) : DBusLogCore :=
  if c.categories.values.length > 0 then
    if c.removedHandlers then
      -- the table is empty when the signals are emitted
      c.getCategories.foldl (fun c cat => c.emit (.categoryRemoved cat))
        { c with categories := .empty }
    else { c with categories := .empty }
  else c

/-- `dbus_log_core_set_category_enabled` -/
def setCategoryEnabled (c : DBusLogCore) (name : String) (enable : Bool) : DBusLogCore :=
  match c.categories.lookup name with
  | some cat =>
    let (changed, cat) :=
      if cat.enabled ∧ ¬enable then
        (true, { cat with flags := cat.flags &&& ~~~CategoryFlag.enabled })
      else if ¬cat.enabled ∧ enable then
        (true, { cat with flags := cat.flags ||| CategoryFlag.enabled })
      else (false, cat)
    if changed then
      { c with categories := c.categories.insert cat }.emit
        (.categoryFlags cat CategoryFlag.enabled)
    else c
  | none => c

/-- `dbus_log_core_set_category_level` -/
def setCategoryLevel (c : DBusLogCore) (name : String) (level : Level) : Bool × DBusLogCore :=
  if level ≥ Level.undefined ∧ level < Level.count then
    match c.categories.lookup name with
    | some cat =>
      (true, if cat.level ≠ level then
          { c with categories := c.categories.insert { cat with level := level } }.emit
            (.categoryLevel { cat with level := level })
        else c)
    | none => (false, c)
  else (false, c)

end DBusLogCore

end DBusLog

import DBusLog.Server.Interface

/-!
# The libdbus back end

`dbuslog_server_dbus.c`: the watches for the names of the peers, the handlers with their decoding
of arguments, and the message filter with its table of methods.
-/

namespace DBusLog

/-- `DBUSLOG_INTERFACE` -/
def loggerInterface : String := "org.nemomobile.Logger"

/-- `DBUS_INTERFACE_DBUS` -/
def dbusInterface : String := "org.freedesktop.DBus"

/-- An argument of a message. -/
inductive DBusArg
  | int32 (value : Int32)
  | uint32 (value : UInt32)
  | string (value : String)
  | strings (values : List String)
  deriving DecidableEq

def DBusArg.signature : DBusArg → String
  | .int32 _ => "i"
  | .uint32 _ => "u"
  | .string _ => "s"
  | .strings _ => "as"

inductive DBusMessageType
  | methodCall
  | signal
  deriving DecidableEq

/-- What a filter can see of a message. -/
structure DBusMessage where
  type : DBusMessageType
  sender : String
  path : String
  interface : String
  member : String
  args : List DBusArg
  deriving DecidableEq

/-- `dbus_message_get_signature` -/
def DBusMessage.signature (msg : DBusMessage) : String :=
  String.join (msg.args.map DBusArg.signature)

/-- `DBusHandlerResult`, with the reply that has been sent. -/
inductive DBusHandlerResult
  | handled (reply : Option Reply)
  | notYetHandled
  deriving DecidableEq

/-- `DBusLogNameWatch` -/
structure DBusLogNameWatch where
  refCount : Int
  name : String
  rule : String
  getNameOwnerPending : Bool
  vanished : Bool
  deriving DecidableEq

/-- The private part of `struct dbus_log_server_dbus`. A pointer to a watch is its place in
`memory`, where a watch that has been freed leaves `none`. -/
structure DBusLogServerDbus where
  memory : List (Option DBusLogNameWatch)
  lastWatchId : UInt64
  nameWatchTable : KeyedTable (Prod.fst : String × Nat → String)
  idWatchTable : KeyedTable (Prod.fst : UInt64 × Nat → UInt64)
  /-- The match rules of the connection. -/
  matchRules : List String
  /-- The filter has been added to the connection. -/
  filtering : Bool
  deriving DecidableEq

namespace DBusLogServerDbus

def new : DBusLogServerDbus where
  memory := []
  lastWatchId := 0
  nameWatchTable := .empty
  idWatchTable := .empty
  matchRules := []
  filtering := false

/-! ## Watches -/

/-- The watch behind a pointer. -/
def watchAt (b : DBusLogServerDbus) (watch : Nat) : Option DBusLogNameWatch :=
  (b.memory[watch]?).join

/-- The match rule of a watch. -/
def ruleFor (name : String) : String :=
  "type='signal',interface='" ++ dbusInterface ++ "',sender='" ++ "org.freedesktop.DBus" ++
    "',path='" ++ "/org/freedesktop/DBus" ++ "',member='" ++ "NameOwnerChanged" ++ "',arg0='" ++
    name ++ "'"

/-- A watch that nobody refers to yet; the call of `GetNameOwner` has been sent. -/
def newWatch (name : String) : DBusLogNameWatch where
  refCount := 0
  name := name
  rule := ruleFor name
  getNameOwnerPending := true
  vanished := false

/-- `dbus_log_server_dbus_watch_unref` -/
def watchUnref (b : DBusLogServerDbus) (watch : Nat) : DBusLogServerDbus :=
  match b.watchAt watch with
  | none => b
  | some w =>
    if w.refCount - 1 = 0 then
      { b with
        matchRules := b.matchRules.erase w.rule
        nameWatchTable := b.nameWatchTable.erase w.name
        memory := b.memory.set watch none }
    else { b with memory := b.memory.set watch (some { w with refCount := w.refCount - 1 }) }

/-- The loop that generates an id: the next one that is not 0 and not in use. -/
def nextWatchId (b : DBusLogServerDbus) : Nat → UInt64 → UInt64
  | 0, id => id
  | fuel + 1, id =>
    if id = 0 ∨ (b.idWatchTable.lookup id).isSome then b.nextWatchId fuel (id + 1) else id

/-- `dbus_log_server_dbus_watch_name` -/
def watchName (b : DBusLogServerDbus) (name : String) : UInt64 × DBusLogServerDbus :=
  let (watch, b) := match b.nameWatchTable.lookup name with
    | some (_, watch) => (watch, b)
    | none =>
      (b.memory.length, { b with
        memory := b.memory ++ [some (newWatch name)]
        nameWatchTable := b.nameWatchTable.insert (name, b.memory.length)
        matchRules := b.matchRules ++ [ruleFor name] })
  let b := { b with
    memory := b.memory.modify watch (Option.map fun w => { w with refCount := w.refCount + 1 }) }
  let id := b.nextWatchId (b.idWatchTable.values.length + 2) (b.lastWatchId + 1)
  (id, { b with lastWatchId := id, idWatchTable := b.idWatchTable.insert (id, watch) })

/-- `dbus_log_server_dbus_unwatch_name` -/
def unwatchName (b : DBusLogServerDbus) (id : UInt64) : DBusLogServerDbus :=
  match b.idWatchTable.lookup id with
  | some (_, watch) => { b with idWatchTable := b.idWatchTable.erase id }.watchUnref watch
  | none => b

/-! ## The class -/

/-- `dbus_log_server_dbus_export` -/
def exportServer (b : DBusLogServerDbus) : Bool × DBusLogServerDbus :=
  (true, { b with filtering := true })

/-- `dbus_log_server_dbus_unexport` -/
def unexportServer (b : DBusLogServerDbus) : DBusLogServerDbus := { b with filtering := false }

/-- `dbus_log_server_dbus_class_init`. The connection takes every signal. -/
def klass : DBusLogServerClass DBusLogServerDbus where
  watchName := watchName
  unwatchName := unwatchName
  exportServer := exportServer
  unexportServer := unexportServer
  emitDefaultLevelChanged _ level := [.defaultLevelChanged level.toInt32]
  emitCategoryLevelChanged _ id level := [.categoryLevelChanged id level.toInt32]
  emitCategoryAdded _ name id flags := [.categoryAdded name id flags]
  emitCategoryRemoved _ id := [.categoryRemoved id]
  emitCategoryFlagsChanged _ id flags := [.categoryFlagsChanged id flags]
  emitBacklogChanged _ backlog := [.backlogChanged backlog]

section Server

variable {Cred Policy : Type}

/-- `dbus_log_server_new_full` -/
def newFull (bus : DABus) (path : String) (policy : Policy) :
    DBusLogServer Policy DBusLogServerDbus := .new bus path policy new

variable (lib : Libraries Cred Policy) (ctx : ServerContext)
  (s : DBusLogServer Policy DBusLogServerDbus)

/-! ## Names that vanish -/

/-- The part that the two notifications of a vanished name share. -/
def watchVanished (watch : Nat) : DBusLogServer Policy DBusLogServerDbus :=
  match s.backend.watchAt watch with
  | some w =>
    if w.vanished then s
    else
      let memory := s.backend.memory.set watch (some { w with vanished := true })
      { s with backend := { s.backend with memory := memory } }.peerVanished klass ctx w.name
  | none => s

/-- `dbus_log_server_dbus_get_name_owner_reply`. `owner` is none for an error. -/
def getNameOwnerReply (watch : Nat) (owner : Option String) :
    DBusLogServer Policy DBusLogServerDbus :=
  let memory := s.backend.memory.modify watch
    (Option.map fun w => { w with getNameOwnerPending := false })
  let s := { s with backend := { s.backend with memory := memory } }
  if owner.getD "" = "" then watchVanished ctx s watch else s

/-- `dbus_log_server_dbus_handle_name_owner_changed` -/
def handleNameOwnerChanged (msg : DBusMessage) : Bool × DBusLogServer Policy DBusLogServerDbus :=
  match msg.args with
  | .string name :: .string _ :: .string new :: _ =>
    if new = "" then
      (true, match s.backend.nameWatchTable.lookup name with
        | some (_, watch) => watchVanished ctx s watch
        | none => s)
    else (false, s)
  | _ => (false, s)

/-! ## Handlers -/

/-- `dbus_log_server_error` -/
def serverError (err : Int) : Reply :=
  if err = -eacces then .error .accessDenied "Access denied"
  else if err = -einval then .error .invalidArgs "Invalid argument(s)"
  else .error .failed "Internal error"

/-- `dbus_log_server_return` -/
def serverReturn (err : Int) : Reply :=
  if err < 0 then serverError err else .methodReturn []

/-- A handler gets a method call and replies to it. -/
abbrev Handler (Policy : Type) : Type :=
  ServerContext → DBusLogServer Policy DBusLogServerDbus → DBusMessage →
    Reply × DBusLogServer Policy DBusLogServerDbus

/-- `dbus_log_server_dbus_handle_get_interface_version` -/
def handleGetInterfaceVersion : Handler Policy := fun _ s _ =>
  (.methodReturn [.int32 interfaceVersion], s)

/-- `dbus_log_server_dbus_append_get_all` -/
def appendGetAll (core : DBusLogCore) : List ReplyValue :=
  [.int32 interfaceVersion, .int32 core.defaultLevel.toInt32, .categories core.categoryEntries]

/-- `dbus_log_server_dbus_handle_get_all` -/
def handleGetAll : Handler Policy := fun _ s _ => (.methodReturn (appendGetAll s.core), s)

/-- `dbus_log_server_dbus_append_get_all2` -/
def appendGetAll2 (core : DBusLogCore) : List ReplyValue :=
  appendGetAll core ++ [.int32 core.backlog]

/-- `dbus_log_server_dbus_handle_get_all2` -/
def handleGetAll2 : Handler Policy := fun _ s _ => (.methodReturn (appendGetAll2 s.core), s)

/-- `dbus_log_server_dbus_handle_set_default_level` -/
def handleSetDefaultLevel : Handler Policy := fun _ s msg =>
  match msg.args with
  | .int32 level :: _ =>
    let (err, s) := s.callSetDefaultLevel lib klass msg.sender level.toUInt32
    (serverReturn err, s)
  | _ => (serverReturn (-einval), s)

/-- `dbus_log_server_dbus_handle_set_category_level`. It passes the name of the category where
`dbus_log_server_call_set_category_level` takes the sender of the message. -/
def handleSetCategoryLevel : Handler Policy := fun _ s msg =>
  match msg.args with
  | .string name :: .int32 level :: _ =>
    let (err, s) := s.callSetCategoryLevel lib klass name msg.sender level.toUInt32
    (serverReturn err, s)
  | _ => (serverReturn (-einval), s)

/-- `dbus_log_server_dbus_handle_log_open` -/
def handleLogOpen : Handler Policy := fun ctx s msg =>
  let (fd, s) := s.callLogOpen lib klass ctx msg.sender
  if fd ≥ 0 then (.methodReturn [.unixFd fd, .uint32 logCookie], s) else (serverError fd, s)

/-- `dbus_log_server_dbus_handle_log_close`. The cookie is read without a check of its type. -/
def handleLogClose : Handler Policy := fun ctx s msg =>
  let cookie := match msg.args with
    | .uint32 cookie :: _ => cookie
    | _ => 0
  (.methodReturn [], s.callLogClose klass ctx msg.sender cookie)

/-- `dbus_log_server_dbus_set_enabled` -/
def setEnabled (s : DBusLogServer Policy DBusLogServerDbus) (msg : DBusMessage) (enable : Bool) :
    Reply × DBusLogServer Policy DBusLogServerDbus :=
  let names := match msg.args with
    | .strings names :: _ => names
    | _ => []
  let (err, s) := s.callSetNamesEnabled lib klass msg.sender names enable
  (serverReturn err, s)

/-- `dbus_log_server_dbus_set_enabled_pattern` -/
def setEnabledPattern (s : DBusLogServer Policy DBusLogServerDbus) (msg : DBusMessage)
    (enable : Bool) : Reply × DBusLogServer Policy DBusLogServerDbus :=
  match msg.args with
  | .string pattern :: _ =>
    let (err, s) := s.callSetPatternEnabled lib klass msg.sender (some pattern) enable
    (serverReturn err, s)
  | _ => (serverReturn (-einval), s)

/-- `dbus_log_server_dbus_handle_category_enable` -/
def handleCategoryEnable : Handler Policy := fun _ s msg => setEnabled lib s msg true

/-- `dbus_log_server_dbus_handle_category_enable_pattern` -/
def handleCategoryEnablePattern : Handler Policy := fun _ s msg => setEnabledPattern lib s msg true

/-- `dbus_log_server_dbus_handle_category_disable` -/
def handleCategoryDisable : Handler Policy := fun _ s msg => setEnabled lib s msg false

/-- `dbus_log_server_dbus_handle_category_disable_pattern` -/
def handleCategoryDisablePattern : Handler Policy := fun _ s msg =>
  setEnabledPattern lib s msg false

/-- `dbus_log_server_dbus_handle_set_backlog` -/
def handleSetBacklog : Handler Policy := fun _ s msg =>
  match msg.args with
  | .int32 backlog :: _ =>
    let (err, s) := s.callSetBacklog lib klass msg.sender backlog
    (serverReturn err, s)
  | _ => (serverReturn (-einval), s)

/-- What the handler of LogOpen does to the server. -/
theorem handleLogOpen_snd (msg : DBusMessage) :
    (handleLogOpen lib ctx s msg).2 = (s.callLogOpen lib klass ctx msg.sender).2 := by
  unfold handleLogOpen
  dsimp only
  split
  · rfl
  · rfl

/-! ## The filter -/

/-- The table of methods: name, signature, handler. -/
def methods : List (String × String × Handler Policy) :=
  [("GetInterfaceVersion", "", handleGetInterfaceVersion),
    ("GetAll", "", handleGetAll),
    ("GetAll2", "", handleGetAll2),
    ("SetDefaultLevel", "i", handleSetDefaultLevel lib),
    ("SetCategoryLevel", "si", handleSetCategoryLevel lib),
    ("LogOpen", "", handleLogOpen lib),
    ("LogClose", "u", handleLogClose),
    ("CategoryEnable", "as", handleCategoryEnable lib),
    ("CategoryEnablePattern", "s", handleCategoryEnablePattern lib),
    ("CategoryDisable", "as", handleCategoryDisable lib),
    ("CategoryDisablePattern", "s", handleCategoryDisablePattern lib),
    ("SetBacklog", "i", handleSetBacklog lib)]

/-- `dbus_log_server_dbus_filter` -/
def filter (msg : DBusMessage) : DBusHandlerResult × DBusLogServer Policy DBusLogServerDbus :=
  match msg.type with
  | .methodCall =>
    if s.started ∧ msg.interface = loggerInterface then
      match (methods lib).find? fun m => msg.member = m.1 ∧ msg.signature = m.2.1 with
      | some (_, _, fn) =>
        let (reply, s) := fn ctx s msg
        (.handled (some reply), s)
      -- an unknown method, or one with another signature
      | none => (.notYetHandled, s)
    else (.notYetHandled, s)
  | .signal =>
    if msg.interface = dbusInterface ∧ msg.signature = "sss" ∧ msg.member = "NameOwnerChanged" then
      match handleNameOwnerChanged ctx s msg with
      | (true, s) => (.handled none, s)
      | (false, s) => (.notYetHandled, s)
    else (.notYetHandled, s)

end Server

/-! ## Method calls as messages -/

/-- The message of a method call. -/
def message (path sender : String) (call : LoggerCall) : DBusMessage :=
  let make := fun member args => DBusMessage.mk .methodCall sender path loggerInterface member args
  match call with
  | .getInterfaceVersion => make "GetInterfaceVersion" []
  | .getAll => make "GetAll" []
  | .getAll2 => make "GetAll2" []
  | .setDefaultLevel level => make "SetDefaultLevel" [.int32 level]
  | .setCategoryLevel name level => make "SetCategoryLevel" [.string name, .int32 level]
  | .logOpen => make "LogOpen" []
  | .logClose cookie => make "LogClose" [.uint32 cookie]
  | .categoryEnable names => make "CategoryEnable" [.strings names]
  | .categoryEnablePattern pattern => make "CategoryEnablePattern" [.string pattern]
  | .categoryDisable names => make "CategoryDisable" [.strings names]
  | .categoryDisablePattern pattern => make "CategoryDisablePattern" [.string pattern]
  | .setBacklog backlog => make "SetBacklog" [.int32 backlog]

/-- A method call reaches the filter while that is connected; the call may be left unanswered. -/
def deliver {Cred Policy : Type} (lib : Libraries Cred Policy) (ctx : ServerContext)
    (s : DBusLogServer Policy DBusLogServerDbus) (sender : String) (call : LoggerCall) :
    Option (Reply × DBusLogServer Policy DBusLogServerDbus) :=
  if s.backend.filtering then
    match filter lib ctx s (message s.path sender call) with
    | (.handled (some reply), s) => some (reply, s)
    | _ => none
  else none

end DBusLogServerDbus

end DBusLog

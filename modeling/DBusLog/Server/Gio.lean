import DBusLog.Server.Interface

/-!
# The GIO back end

`dbuslog_server_gio.c`. The generated skeleton decodes the arguments of a call and emits a signal
for its method, to which the handler of that method is connected.
-/

namespace DBusLog

/-- The private part of `struct dbus_log_server_gio`, and what GIO keeps for it. -/
structure DBusLogServerGio where
  /-- There is a connection to the bus. -/
  bus : Bool
  /-- Another object has been exported under the path. -/
  pathTaken : Bool
  /-- The skeleton has been exported on the connection. -/
  skeletonExported : Bool
  lastWatchId : UInt64
  watches : KeyedTable (Prod.fst : UInt64 × String → UInt64)
  connected : skeletonExported = true → bus = true
  deriving DecidableEq

namespace DBusLogServerGio

/-- The data of a server that has got its connection. -/
def new : DBusLogServerGio where
  bus := true
  pathTaken := false
  skeletonExported := false
  lastWatchId := 0
  watches := .empty
  connected := by decide

/-- `dbus_log_server_gio_watch_name` -/
def watchName (b : DBusLogServerGio) (name : String) : UInt64 × DBusLogServerGio :=
  if b.bus then
    (b.lastWatchId + 1, { b with
      lastWatchId := b.lastWatchId + 1
      watches := b.watches.insert (b.lastWatchId + 1, name) })
  else (0, b)

/-- `dbus_log_server_gio_unwatch_name` -/
def unwatchName (b : DBusLogServerGio) (id : UInt64) : DBusLogServerGio :=
  { b with watches := b.watches.erase id }

/-- `dbus_log_server_gio_export` -/
def exportServer (b : DBusLogServerGio) : Bool × DBusLogServerGio :=
  if h : b.bus then
    if b.pathTaken then (false, b)
    else (true, { b with skeletonExported := true, connected := fun _ => h })
  else (false, b)

/-- `dbus_log_server_gio_unexport` -/
def unexportServer (b : DBusLogServerGio) : DBusLogServerGio :=
  { b with skeletonExported := false, connected := fun h => by cases h }

/-- A signal that the skeleton emits goes to the connection on which it is exported. -/
def emit (b : DBusLogServerGio) (signal : BusSignal) : List BusSignal :=
  if b.skeletonExported then [signal] else []

/-- `dbus_log_server_gio_class_init` -/
def klass : DBusLogServerClass DBusLogServerGio where
  watchName := watchName
  unwatchName := unwatchName
  exportServer := exportServer
  unexportServer := unexportServer
  emitDefaultLevelChanged b level := b.emit (.defaultLevelChanged level.toInt32)
  emitCategoryLevelChanged b id level := b.emit (.categoryLevelChanged id level.toInt32)
  emitCategoryAdded b name id flags := b.emit (.categoryAdded name id flags)
  emitCategoryRemoved b id := b.emit (.categoryRemoved id)
  emitCategoryFlagsChanged b id flags := b.emit (.categoryFlagsChanged id flags)
  emitBacklogChanged b backlog := b.emit (.backlogChanged backlog)

section Server

variable {Cred Policy : Type}

/-- `dbus_log_server_new`, after the connection has been made. -/
def newServer (bus : DABus) (path : String) (policy : Policy) :
    DBusLogServer Policy DBusLogServerGio := .new bus path policy new

variable (lib : Libraries Cred Policy) (ctx : ServerContext)
  (s : DBusLogServer Policy DBusLogServerGio) (sender : String)

/-- `dbus_log_server_return_error` -/
def returnError (err : Int) : Reply :=
  if err = -eacces then .error .accessDenied "Access denied"
  else if err = -einval then .error .invalidArgs "Invalid argument(s)"
  else .error .failed "Internal error"

/-- An error, or the completion of the method. -/
def complete (err : Int) (values : List ReplyValue) : Reply :=
  if err ≠ 0 then returnError err else .methodReturn values

/-! ## Handlers -/

/-- `dbus_log_server_handle_get_interface_version` -/
def handleGetInterfaceVersion : Reply × DBusLogServer Policy DBusLogServerGio :=
  (.methodReturn [.int32 interfaceVersion], s)

/-- `dbus_log_server_handle_get_all` -/
def handleGetAll : Reply × DBusLogServer Policy DBusLogServerGio :=
  (.methodReturn [.int32 interfaceVersion, .int32 s.core.defaultLevel.toInt32,
    .categories s.core.categoryEntries], s)

/-- `dbus_log_server_handle_get_all2` -/
def handleGetAll2 : Reply × DBusLogServer Policy DBusLogServerGio :=
  (.methodReturn [.int32 interfaceVersion, .int32 s.core.defaultLevel.toInt32,
    .categories s.core.categoryEntries, .int32 s.core.backlog], s)

/-- `dbus_log_server_handle_set_default_level` -/
def handleSetDefaultLevel (level : Int32) : Reply × DBusLogServer Policy DBusLogServerGio :=
  let (err, s) := s.callSetDefaultLevel lib klass sender level.toUInt32
  (complete err [], s)

/-- `dbus_log_server_handle_set_category_level` -/
def handleSetCategoryLevel (name : String) (level : Int32) :
    Reply × DBusLogServer Policy DBusLogServerGio :=
  let (err, s) := s.callSetCategoryLevel lib klass sender name level.toUInt32
  (complete err [], s)

/-- `dbus_log_server_handle_open` -/
def handleOpen : Reply × DBusLogServer Policy DBusLogServerGio :=
  if s.backend.bus then
    let (fd, s) := s.callLogOpen lib klass ctx sender
    if fd ≥ 0 then
      (.methodReturn [.unixFd fd, .uint32 logCookie], (s.stealReadfd sender fd).2)
    else (returnError fd, s)
  else (returnError (-efault), s)

/-- `dbus_log_server_handle_close` -/
def handleClose (cookie : UInt32) : Reply × DBusLogServer Policy DBusLogServerGio :=
  (.methodReturn [], s.callLogClose klass ctx sender cookie)

/-- `dbus_log_server_handle_enable` -/
def handleEnable (names : List String) : Reply × DBusLogServer Policy DBusLogServerGio :=
  let (err, s) := s.callSetNamesEnabled lib klass sender names true
  (complete err [], s)

/-- `dbus_log_server_handle_enable_pattern` -/
def handleEnablePattern (pattern : String) : Reply × DBusLogServer Policy DBusLogServerGio :=
  let (err, s) := s.callSetPatternEnabled lib klass sender (some pattern) true
  (complete err [], s)

/-- `dbus_log_server_handle_disable` -/
def handleDisable (names : List String) : Reply × DBusLogServer Policy DBusLogServerGio :=
  let (err, s) := s.callSetNamesEnabled lib klass sender names false
  (complete err [], s)

/-- `dbus_log_server_handle_disable_pattern` -/
def handleDisablePattern (pattern : String) : Reply × DBusLogServer Policy DBusLogServerGio :=
  let (err, s) := s.callSetPatternEnabled lib klass sender (some pattern) false
  (complete err [], s)

/-- `dbus_log_server_handle_set_backlog` -/
def handleSetBacklog (backlog : Int32) : Reply × DBusLogServer Policy DBusLogServerGio :=
  let (err, s) := s.callSetBacklog lib klass sender backlog
  (complete err [], s)

/-- The handlers that `dbus_log_server_new` connects to the signals of the skeleton. -/
def handle : LoggerCall → Reply × DBusLogServer Policy DBusLogServerGio
  | .getInterfaceVersion => handleGetInterfaceVersion s
  | .getAll => handleGetAll s
  | .getAll2 => handleGetAll2 s
  | .setDefaultLevel level => handleSetDefaultLevel lib s sender level
  | .setCategoryLevel name level => handleSetCategoryLevel lib s sender name level
  | .logOpen => handleOpen lib ctx s sender
  | .logClose cookie => handleClose ctx s sender cookie
  | .categoryEnable names => handleEnable lib s sender names
  | .categoryEnablePattern pattern => handleEnablePattern lib s sender pattern
  | .categoryDisable names => handleDisable lib s sender names
  | .categoryDisablePattern pattern => handleDisablePattern lib s sender pattern
  | .setBacklog backlog => handleSetBacklog lib s sender backlog

/-- A method call reaches the handlers while the skeleton is exported. -/
def deliver (call : LoggerCall) : Option (Reply × DBusLogServer Policy DBusLogServerGio) :=
  if s.backend.skeletonExported then some (handle lib ctx s sender call) else none

end Server

end DBusLogServerGio

end DBusLog

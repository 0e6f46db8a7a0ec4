import DBusLog.Core.System

/-!
# The log server

`dbuslog_server.c`: a core, the peers that have opened the log, and the access checks. What the
two D-Bus back ends do differently is behind a table of functions, `DBusLogServerClass`.
-/

namespace DBusLog

/-- `DA_BUS` -/
inductive DABus
  | system
  | session
  deriving DecidableEq

/-- `DBUSLOG_ACTION`. Queries are always allowed. -/
inductive DBusLogAction
  | setDefaultLevel
  | setCategoryLevel
  | logOpen
  | categoryEnable
  | categoryDisable
  | setBacklog
  deriving DecidableEq

/-- The functions of other libraries: `da_peer_get`, whether `da_policy_check` returns
`DA_ACCESS_ALLOW`, `g_pattern_match_simple` and `gutil_ring_set_max_size`. -/
structure Libraries (Cred Policy : Type) where
  daPeerGet : DABus → String → Option Cred
  daPolicyCheck : Policy → Cred → DBusLogAction → Bool
  patternMatch : String → String → Bool
  ringSetMaxSize : BoundedRing DBusLogMessage → Int32 → BoundedRing DBusLogMessage

/-- The signals of `org.nemomobile.Logger`. -/
inductive BusSignal
  | defaultLevelChanged (level : Int32)
  | categoryLevelChanged (id : UInt32) (level : Int32)
  | categoryAdded (name : String) (id flags : UInt32)
  | categoryRemoved (id : UInt32)
  | categoryFlagsChanged (id flags : UInt32)
  | backlogChanged (backlog : Int32)
  deriving DecidableEq

/-- The signals of a server object, for its application. -/
inductive ServerSignal
  | categoryEnabled (name : String)
  | categoryDisabled (name : String)
  | categoryLevel (name : String) (level : Level)
  | defaultLevel (level : Level)
  deriving DecidableEq

/-- `DBusLogServerPeer`, with the name that is its key in the table of peers. -/
structure DBusLogServerPeer where
  name : String
  watchId : UInt64
  sender : Nat
  deriving DecidableEq

/-- `DBusLogServerClass`, over the data `β` of a back end. An `emit` function returns what it
sends. -/
structure DBusLogServerClass (β : Type) where
  watchName : β → String → UInt64 × β
  unwatchName : β → UInt64 → β
  exportServer : β → Bool × β
  unexportServer : β → β
  emitDefaultLevelChanged : β → Level → List BusSignal
  emitCategoryLevelChanged : β → UInt32 → Level → List BusSignal
  emitCategoryAdded : β → String → UInt32 → UInt32 → List BusSignal
  emitCategoryRemoved : β → UInt32 → List BusSignal
  emitCategoryFlagsChanged : β → UInt32 → UInt32 → List BusSignal
  emitBacklogChanged : β → Int32 → List BusSignal

/-- `struct dbus_log_server` with its private part. `notified` and `sent` are the signals that the
application and the bus have got. -/
structure DBusLogServer (Policy β : Type) where
  core : DBusLogCore
  path : String
  started : Bool
  exported : Bool
  bus : DABus
  policy : Policy
  peers : KeyedTable DBusLogServerPeer.name
  backend : β
  notified : List ServerSignal
  sent : List BusSignal

/-- What the operating system does during one call: the result of `pipe`, and what the channels of
the senders take. -/
structure ServerContext where
  pipe : Option (Nat × Nat)
  answers : Nat → List WriteAnswer

/-- `errno` values -/
def eio : Int := 5
def eacces : Int := 13
def efault : Int := 14
def einval : Int := 22

namespace DBusLogServer

variable {Cred Policy β : Type}

/-- `dbus_log_server_initialize`, for a back end with the given data. -/
def new (bus : DABus) (path : String) (policy : Policy) (backend : β) : DBusLogServer Policy β where
  core := .new 0 true
  path := path
  started := false
  exported := false
  bus := bus
  policy := policy
  peers := .empty
  backend := backend
  notified := []
  sent := []

section Server

variable (lib : Libraries Cred Policy) (klass : DBusLogServerClass β)

/-! ## Signals of the core -/

/-- The handlers that the server has connected to its core. -/
def coreSignal (s : DBusLogServer Policy β) : CoreSignal → DBusLogServer Policy β
  | .backlog =>
    if s.started then
      { s with sent := s.sent ++ klass.emitBacklogChanged s.backend s.core.backlog }
    else s
  | .defaultLevel =>
    let s := { s with notified := s.notified ++ [ServerSignal.defaultLevel s.core.defaultLevel] }
    if s.started then
      { s with sent := s.sent ++ klass.emitDefaultLevelChanged s.backend s.core.defaultLevel }
    else s
  | .categoryAdded cat =>
    if s.started then
      { s with sent := s.sent ++ klass.emitCategoryAdded s.backend cat.name cat.id cat.flags.toUInt32 }
    else s
  | .categoryRemoved cat =>
    if s.started then
      { s with sent := s.sent ++ klass.emitCategoryRemoved s.backend cat.id }
    else s
  | .categoryFlags cat mask =>
    let s := if mask &&& CategoryFlag.enabled ≠ 0 then
        { s with notified := s.notified ++
          [if cat.enabled then ServerSignal.categoryEnabled cat.name
            else ServerSignal.categoryDisabled cat.name] }
      else s
    if s.started then
      { s with sent := s.sent ++
        klass.emitCategoryFlagsChanged s.backend cat.id cat.flags.toUInt32 }
    else s
  | .categoryLevel cat =>
    let s := { s with notified := s.notified ++ [ServerSignal.categoryLevel cat.name cat.level] }
    if s.started then
      { s with sent := s.sent ++ klass.emitCategoryLevelChanged s.backend cat.id cat.level }
    else s

/-- A call into the core has turned it into `core`; the server gets the new signals. -/
def coreChanged (s : DBusLogServer Policy β) (core : DBusLogCore) : DBusLogServer Policy β :=
  (core.signals.drop s.core.signals.length).foldl (coreSignal klass) { s with core := core }

/-! ## Peers -/

/-- `dbus_log_server_peer_destroy`. The object of the sender lives on while the core holds it. -/
def peerDestroy (ctx : ServerContext) (s : DBusLogServer Policy β) (peer : DBusLogServerPeer) :
    DBusLogServer Policy β :=
  { s with
    backend := klass.unwatchName s.backend peer.watchId
    core := s.core.runSender peer.sender fun d =>
      { d with answers := ctx.answers peer.sender }.close true }

/-- `g_hash_table_remove` on the table of peers -/
def removePeer (ctx : ServerContext) (s : DBusLogServer Policy β) (name : String) :
    DBusLogServer Policy β :=
  match s.peers.lookup name with
  | some peer => peerDestroy klass ctx { s with peers := s.peers.erase name } peer
  | none => s

/-- `g_hash_table_replace` on the table of peers -/
def replacePeer (ctx : ServerContext) (s : DBusLogServer Policy β) (peer : DBusLogServerPeer) :
    DBusLogServer Policy β :=
  match s.peers.lookup peer.name with
  | some old => peerDestroy klass ctx { s with peers := s.peers.insert peer } old
  | none => { s with peers := s.peers.insert peer }

/-- `dbus_log_server_peer_vanished` -/
def peerVanished (ctx : ServerContext) (s : DBusLogServer Policy β) (name : String) :
    DBusLogServer Policy β :=
  removePeer klass ctx s name

/-- `dbus_log_server_access_allowed` -/
def accessAllowed (s : DBusLogServer Policy β) (sender : String) (action : DBusLogAction) : Bool :=
  match lib.daPeerGet s.bus sender with
  | some cred => lib.daPolicyCheck s.policy cred action
  | none => false

/-! ## D-Bus method helpers -/

/-- `dbus_log_server_call_set_default_level` -/
def callSetDefaultLevel (s : DBusLogServer Policy β) (sender : String) (level : Level) :
    Int × DBusLogServer Policy β :=
  if ¬s.accessAllowed lib sender .setDefaultLevel then (-eacces, s)
  else
    match s.core.setDefaultLevel level with
    | (false, core) => (-einval, s.coreChanged klass core)
    | (true, core) => (0, s.coreChanged klass core)

/-- `dbus_log_server_call_set_category_level` -/
def callSetCategoryLevel (s : DBusLogServer Policy β) (sender name : String) (level : Level) :
    Int × DBusLogServer Policy β :=
  if ¬s.accessAllowed lib sender .setCategoryLevel then (-eacces, s)
  else (0, s.coreChanged klass (s.core.setCategoryLevel name level).2)

/-- The descriptor that `sender->readfd` holds. -/
def readfd (core : DBusLogCore) (sender : Nat) : Int :=
  match (core.senderAt sender).bind (·.readfd) with
  | some fd => fd
  | none => -1

/-- `dbus_log_server_call_log_open` -/
def callLogOpen (ctx : ServerContext) (s : DBusLogServer Policy β) (name : String) :
    Int × DBusLogServer Policy β :=
  if ¬s.accessAllowed lib name .logOpen then (-eacces, s)
  else
    match s.core.newSender name ctx.pipe with
    | (some sender, core) =>
      -- the name is watched before the watch of an older peer is released
      let (watchId, backend) := klass.watchName s.backend name
      (readfd core sender,
        replacePeer klass ctx { s with core := core, backend := backend } ⟨name, watchId, sender⟩)
    | (none, core) => (-eio, { s with core := core })

/-- `dbus_log_server_call_log_close` -/
def callLogClose (ctx : ServerContext) (s : DBusLogServer Policy β) (name : String)
    (_cookie : UInt32) : DBusLogServer Policy β :=
  removePeer klass ctx s name

/-- The action behind the methods that enable and disable categories. -/
def enableAction (enable : Bool) : DBusLogAction :=
  if enable then .categoryEnable else .categoryDisable

/-- One call of `dbus_log_core_set_category_enabled` after another. -/
def setEach (s : DBusLogServer Policy β) (names : List String) (enable : Bool) :
    DBusLogServer Policy β :=
  names.foldl (fun s name => s.coreChanged klass (s.core.setCategoryEnabled name enable)) s

/-- `dbus_log_server_call_set_names_enabled` -/
def callSetNamesEnabled (s : DBusLogServer Policy β) (sender : String) (names : List String)
    (enable : Bool) : Int × DBusLogServer Policy β :=
  if ¬s.accessAllowed lib sender (enableAction enable) then (-eacces, s)
  else (0, s.setEach klass names enable)

/-- `dbus_log_server_call_set_pattern_enabled` -/
def callSetPatternEnabled (s : DBusLogServer Policy β) (sender : String) (pattern : Option String)
    (enable : Bool) : Int × DBusLogServer Policy β :=
  if ¬s.accessAllowed lib sender (enableAction enable) then (-eacces, s)
  else (0, s.setEach klass ((s.core.findCategories lib.patternMatch pattern).map (·.name)) enable)

/-- `dbus_log_server_call_set_backlog` -/
def callSetBacklog (s : DBusLogServer Policy β) (sender : String) (backlog : Int32) :
    Int × DBusLogServer Policy β :=
  if ¬s.accessAllowed lib sender .setBacklog then (-eacces, s)
  else (0, s.coreChanged klass (s.core.setBacklog lib.ringSetMaxSize backlog))

/-! ## API -/

/-- `dbus_log_server_start` -/
def start (s : DBusLogServer Policy β) : DBusLogServer Policy β :=
  if s.started then s
  else
    let (exported, backend) := klass.exportServer s.backend
    { s with started := true, exported := exported, backend := backend }

/-- `dbus_log_server_stop` -/
def stop (s : DBusLogServer Policy β) : DBusLogServer Policy β :=
  if s.started then
    if s.exported then
      { s with started := false, exported := false, backend := klass.unexportServer s.backend }
    else { s with started := false }
  else s

/-- `dbus_log_server_add_category` -/
def addCategory (s : DBusLogServer Policy β) (name : String) (level : Level) (flags : UInt64) :
    DBusLogServer Policy β :=
  s.coreChanged klass (s.core.newCategory name level flags).2

/-- `dbus_log_server_remove_category` -/
def removeCategory (s : DBusLogServer Policy β) (name : String) : Bool × DBusLogServer Policy β :=
  match s.core.removeCategory name with
  | (removed, core) => (removed, s.coreChanged klass core)

/-- `dbus_log_server_remove_all_categories` -/
def removeAllCategories (s : DBusLogServer Policy β) : DBusLogServer Policy β :=
  s.coreChanged klass s.core.removeAllCategories

/-- `dbus_log_server_set_category_level` -/
def setCategoryLevel (s : DBusLogServer Policy β) (name : String) (level : Level) :
    Bool × DBusLogServer Policy β :=
  match s.core.setCategoryLevel name level with
  | (found, core) => (found, s.coreChanged klass core)

/-- `dbus_log_server_steal_readfd` -/
def stealReadfd (s : DBusLogServer Policy β) (name : String) (fd : Int) :
    Bool × DBusLogServer Policy β :=
  match if fd ≥ 0 then s.peers.lookup name else none with
  | some peer =>
    if readfd s.core peer.sender = fd then
      -- the descriptor is the caller's from now on
      (true, { s with core := s.core.runSender peer.sender fun d => { d with readfd := none } })
    else (false, s)
  | none => (false, s)

end Server

end DBusLogServer

end DBusLog

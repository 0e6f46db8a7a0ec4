import DBusLog.Server.Model

/-!
# The interface `org.nemomobile.Logger`

The methods of `org.nemomobile.Logger.xml` with their arguments, what a server replies, and the
parts of the handlers that both back ends write in the same way.
-/

namespace DBusLog

/-- `DBUSLOG_INTERFACE_VERSION` -/
def interfaceVersion : Int32 := 2

/-- `DBUSLOG_LOG_COOKIE` -/
def logCookie : UInt32 := 1

/-- A method call with its arguments. -/
inductive LoggerCall
  | getInterfaceVersion
  | getAll
  | getAll2
  | setDefaultLevel (level : Int32)
  | setCategoryLevel (name : String) (level : Int32)
  | logOpen
  | logClose (cookie : UInt32)
  | categoryEnable (names : List String)
  | categoryEnablePattern (pattern : String)
  | categoryDisable (names : List String)
  | categoryDisablePattern (pattern : String)
  | setBacklog (backlog : Int32)
  deriving DecidableEq

/-- The action that a policy has to allow to the caller of a method. -/
def LoggerCall.action? : LoggerCall → Option DBusLogAction
  | .getInterfaceVersion | .getAll | .getAll2 | .logClose _ => none
  | .setDefaultLevel _ => some .setDefaultLevel
  | .setCategoryLevel _ _ => some .setCategoryLevel
  | .logOpen => some .logOpen
  | .categoryEnable _ | .categoryEnablePattern _ => some .categoryEnable
  | .categoryDisable _ | .categoryDisablePattern _ => some .categoryDisable
  | .setBacklog _ => some .setBacklog

/-- A value in a reply. A category is reported with its name, id, flags and level. -/
inductive ReplyValue
  | int32 (value : Int32)
  | uint32 (value : UInt32)
  | unixFd (fd : Int)
  | categories (values : List (String × UInt32 × UInt32 × Int32))
  deriving DecidableEq

/-- The error names that a server uses. -/
inductive DBusError
  | accessDenied
  | invalidArgs
  | failed
  deriving DecidableEq

/-- The reply to a method call. -/
inductive Reply
  | methodReturn (values : List ReplyValue)
  | error (type : DBusError) (message : String)
  deriving DecidableEq

/-- The values of a reply without the number of a descriptor. -/
def ReplyValue.hideFd : ReplyValue → ReplyValue
  | .unixFd _ => .unixFd 0
  | value => value

/-- A reply without the number of a descriptor, and without the text of an error. -/
def Reply.outcome : Reply → Except DBusError (List ReplyValue)
  | .methodReturn values => .ok (values.map ReplyValue.hideFd)
  | .error type _ => .error type

/-- How a category is reported in the reply of `GetAll`. -/
def DBusLogCategory.entry (cat : DBusLogCategory) : String × UInt32 × UInt32 × Int32 :=
  (cat.name, cat.id, cat.flags.toUInt32, cat.level.toInt32)

namespace DBusLogCore

/-- The list in the reply of `GetAll`. -/
def categoryEntries (c : DBusLogCore) : List (String × UInt32 × UInt32 × Int32) :=
  c.getCategories.map (·.entry)

end DBusLogCore

end DBusLog

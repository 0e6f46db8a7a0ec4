import DBusLog.Client.Model
import DBusLog.Core.Defaults

/-!
# The command line tool

`main.c` of `dbuslog-client`, as far as it enables and disables categories. The tool runs its
actions one after another; an action that has made a call is over when the call is. A reset is
computed from the categories that the client has got, and makes up to two calls.
-/

namespace DBusLog

/-- An action that the command line has asked for. -/
inductive AppAction
  | enableAll
  | disableAll
  | enable (pattern : String)
  | disable (pattern : String)
  | reset
  deriving DecidableEq

/-- A call of the client that has been sent. -/
structure AppCall where
  /-- The object behind the call. -/
  handle : Nat
  call : LoggerCall
  /-- The function of the call is `app_action_call_done`; otherwise there is none. -/
  callback : Bool
  deriving DecidableEq

/-- What the tool does when there are no actions left. -/
inductive AppEnd
  | follow
  | quit
  deriving DecidableEq

/-- `RET_OK` and `RET_ERR` -/
def retOk : Int := 0
def retErr : Int := 1

/-- `App`, with the calls of its client that have been sent and have not reached the server. -/
structure App where
  client : DBusLogClient
  actions : List AppAction
  call : Option Nat
  follow : Bool
  ret : Int
  ended : Option AppEnd
  requests : List AppCall
  /-- How many calls there have been. -/
  calls : Nat
  deriving DecidableEq

/-- The objects in the public array of a client. -/
def DBusLogClient.shownCategories (c : DBusLogClient) : List DBusLogCategory :=
  c.categories.filterMap fun p => c.memory[p]?

namespace App

/-- The tool has read its command line. -/
def new (client : DBusLogClient) (actions : List AppAction) (follow : Bool) : App where
  client := client
  actions := actions
  call := none
  follow := follow
  ret := retOk
  ended := none
  requests := []
  calls := 0

/-! ## Calls of the client -/

/-- `dbus_log_client_call_new` and the call of the proxy, if there is one. A client has a proxy
while it is connected. -/
def callNew (app : App) (call : LoggerCall) (callback : Bool) : Option Nat × App :=
  if app.client.connected then
    (some app.calls, { app with
      requests := app.requests ++ [⟨app.calls, call, callback⟩]
      calls := app.calls + 1 })
  else (none, app)

/-- `dbus_log_client_enable_categories` -/
def enableCategories (app : App) (names : List String) (callback : Bool) : Option Nat × App :=
  if names ≠ [] then app.callNew (.categoryEnable names) callback else (none, app)

/-- `dbus_log_client_disable_categories` -/
def disableCategories (app : App) (names : List String) (callback : Bool) : Option Nat × App :=
  if names ≠ [] then app.callNew (.categoryDisable names) callback else (none, app)

/-- `dbus_log_client_enable_pattern` -/
def enablePattern (app : App) (pattern : String) (callback : Bool) : Option Nat × App :=
  app.callNew (.categoryEnablePattern pattern) callback

/-- `dbus_log_client_disable_pattern` -/
def disablePattern (app : App) (pattern : String) (callback : Bool) : Option Nat × App :=
  app.callNew (.categoryDisablePattern pattern) callback

/-! ## Actions -/

/-- The loop of `app_action_reset`: the names to enable and the names to disable. -/
def resetNames (cats : List DBusLogCategory) : List String × List String :=
  cats.foldl (fun (enable, disable) cat =>
    if cat.byDefault then
      if ¬cat.enabled then (enable ++ [cat.name], disable) else (enable, disable)
    else
      if cat.enabled then (enable, disable ++ [cat.name]) else (enable, disable)) ([], [])

/-- `app_action_reset` -/
def actionReset (app : App) : Option Nat × App :=
  let (enable, disable) := resetNames app.client.shownCategories
  if enable ≠ [] ∨ disable ≠ [] then
    if enable ≠ [] ∧ disable ≠ [] then
      -- the callback is for the second call only
      (app.enableCategories enable false).2.disableCategories disable true
    else if enable ≠ [] then app.enableCategories enable true
    else app.disableCategories disable true
  else (none, app)

/-- The function of an action. -/
def runAction (app : App) : AppAction → Option Nat × App
  | .enableAll => app.enablePattern "*" true
  | .disableAll => app.disablePattern "*" true
  | .enable pattern => app.enablePattern pattern true
  | .disable pattern => app.disablePattern pattern true
  | .reset => app.actionReset

/-- The loop of `app_next_action` -/
def runActions : List AppAction → App → App
  | [], app => { app with actions := [] }
  | action :: actions, app =>
    if app.call.isNone then
      let (call, app) := { app with actions := actions }.runAction action
      runActions actions { app with call := call }
    else { app with actions := action :: actions }

/-- `app_next_action` -/
def nextAction (app : App) : App :=
  let app := runActions app.actions app
  if app.call.isNone then { app with ended := some (if app.follow then .follow else .quit) }
  else app

/-- `app_action_call_done` -/
def actionCallDone (app : App) (reply : Reply) : App :=
  let app := { app with call := none }
  match reply with
  | .error _ _ => { app with ret := retErr, ended := some .quit }
  | .methodReturn _ => app.nextAction

/-- `dbus_log_client_generic_call_finished` -/
def genericCallFinished (app : App) (call : AppCall) (reply : Reply) : App :=
  if call.callback then app.actionCallDone reply else app

end App

/-! ## The tool and the server -/

/-- What the tool gets from the server. -/
inductive AppMessage
  | signal (signal : BusSignal)
  | reply (call : AppCall) (reply : Reply)
  deriving DecidableEq

/-- The tool, the server, and what is on its way from the server to the tool. -/
structure AppLink (Policy β : Type) where
  server : DBusLogServer Policy β
  app : App
  wire : List AppMessage

/-- What happens next: a call reaches the server, or a message reaches the tool. -/
inductive AppEvent
  | serve
  | receive
  deriving DecidableEq

namespace AppLink

variable {Policy β : Type}

/-- The client of the tool is connected, and the tool begins. -/
def start (server : DBusLogServer Policy β) (app : App) : AppLink Policy β :=
  ⟨server, app.nextAction, []⟩

section Events

variable (deliver : DBusLogServer Policy β → LoggerCall → Option (Reply × DBusLogServer Policy β))

/-- The server gets the oldest call. It sends its signals before its reply. -/
def serve (l : AppLink Policy β) : AppLink Policy β :=
  match l.app.requests with
  | [] => l
  | call :: requests =>
    let l := { l with app := { l.app with requests := requests } }
    match deliver l.server call.call with
    | some (reply, server) =>
      { l with
        server := server
        wire := l.wire ++ (server.sent.drop l.server.sent.length).map .signal ++
          [.reply call reply] }
    | none => l

/-- The tool gets the oldest message. -/
def receive (l : AppLink Policy β) : AppLink Policy β :=
  match l.wire with
  | [] => l
  | .signal signal :: wire =>
    { l with app := { l.app with client := l.app.client.handle signal }, wire := wire }
  | .reply call reply :: wire =>
    { l with app := l.app.genericCallFinished call reply, wire := wire }

def step (l : AppLink Policy β) : AppEvent → AppLink Policy β
  | .serve => l.serve deliver
  | .receive => l.receive

def run (l : AppLink Policy β) (events : List AppEvent) : AppLink Policy β :=
  events.foldl (step deliver) l

end Events

/-- All actions are over. -/
def Done (l : AppLink Policy β) : Prop := l.app.actions = [] ∧ l.app.call = none

instance (l : AppLink Policy β) : Decidable l.Done :=
  inferInstanceAs (Decidable (l.app.actions = [] ∧ l.app.call = none))

end AppLink

end DBusLog

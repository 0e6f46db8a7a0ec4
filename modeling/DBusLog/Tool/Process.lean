import DBusLog.Client.Attribution
import DBusLog.Client.Connection
import DBusLog.Tool.Model

/-!
# The tool as a whole

All of `main.c` of `dbuslog-client`: the options, the actions, the main loop with everything that
can happen in it, and the exit status. The lexical part of the option parser is that of GLib, and
so is the formatting of the time.
-/

namespace DBusLog

/-- `RET_CANCEL` and `RET_TIMEOUT` -/
def retCancel : Int := 2
def retTimeout : Int := 3

/-! ## The command line -/

/-- `AppAction`, by its function and its argument. -/
inductive ToolAction
  | list
  | setLevel (value : Int32)
  | setBacklog (value : Int32)
  | enableAll
  | disableAll
  | enable (pattern : String)
  | disable (pattern : String)
  | reset
  deriving DecidableEq

/-- The function of the action may return NULL although all is well. -/
def ToolAction.silent : ToolAction → Bool
  | .list | .reset => true
  | _ => false

/-- An option of the command line, with its value. -/
inductive ToolOption
  | session
  | verbose
  | timeout (seconds : Int32)
  | follow
  | write (file : String)
  | timestamp
  | date
  | categories
  | printLogLevel
  | logLevel (value : String)
  | printBacklog
  | backlog (value : String)
  | all
  | none
  | enable (pattern : String)
  | disable (pattern : String)
  | reset
  deriving DecidableEq

/-- What the options come to. -/
structure ToolSettings where
  session : Bool
  verbose : Bool
  list : Bool
  timeout : Int32
  follow : Bool
  outFilename : Option String
  timestamp : Bool
  datetime : Bool
  printLogLevel : Bool
  printBacklog : Bool
  actions : List ToolAction
  deriving DecidableEq

/-- White space for `isspace` in the C locale. -/
def isSpace (c : Char) : Bool := c = ' ' || (9 ≤ c.toNat && c.toNat ≤ 13)

/-- The value of the digits at the beginning. -/
def digitsValue (cs : List Char) : Nat :=
  (cs.takeWhile Char.isDigit).foldl (fun n c => 10 * n + (c.toNat - '0'.toNat)) 0

/-- `atoi`: `strtol` stops at the limits of a 64-bit `long`, whose lower half is the `int`. -/
def atoi (s : String) : Int32 :=
  let value : Int := match s.toList.dropWhile isSpace with
    | '-' :: cs => -digitsValue cs
    | '+' :: cs => digitsValue cs
    | cs => digitsValue cs
  Int32.ofInt (max (-2 ^ 63) (min (2 ^ 63 - 1) value))

namespace ToolSettings

/-- All fields are zero. -/
def zero : ToolSettings where
  session := false
  verbose := false
  list := false
  timeout := 0
  follow := false
  outFilename := none
  timestamp := false
  datetime := false
  printLogLevel := false
  printBacklog := false
  actions := []

/-- `app_add_action` -/
def addAction (s : ToolSettings) (action : ToolAction) : ToolSettings :=
  { s with actions := s.actions ++ [action] }

/-- `app_option_log_level` with a value -/
def optionLogLevel (s : ToolSettings) (value : String) : Option ToolSettings :=
  let level := atoi value
  if level > Level.undefined.toInt32 ∧ level < Level.count.toInt32 then
    some (s.addAction (.setLevel level))
  else none

/-- `app_option_backlog` with a value -/
def optionBacklog (s : ToolSettings) (value : String) : Option ToolSettings :=
  let backlog := atoi value
  if backlog > 0 then some (s.addAction (.setBacklog backlog)) else none

/-- One option; `none` when it has a bad value. -/
def option (s : ToolSettings) : ToolOption → Option ToolSettings
  | .session => some { s with session := true }
  | .verbose => some { s with verbose := true }
  | .timeout seconds => some { s with timeout := seconds }
  | .follow => some { s with follow := true }
  | .write file => some { s with outFilename := some file }
  | .timestamp => some { s with timestamp := true }
  | .date => some { s with datetime := true }
  | .categories => some { s with list := true }
  | .printLogLevel => some { s with printLogLevel := true }
  | .logLevel value => s.optionLogLevel value
  | .printBacklog => some { s with printBacklog := true }
  | .backlog value => s.optionBacklog value
  | .all => some (s.addAction .enableAll)
  | .none => some (s.addAction .disableAll)
  | .enable pattern => some (s.addAction (.enable pattern))
  | .disable pattern => some (s.addAction (.disable pattern))
  | .reset => some (s.addAction .reset)

def options (s : ToolSettings) (opts : List ToolOption) : Option ToolSettings :=
  opts.foldlM option s

/-- The end of `app_init`. The list of categories comes last; following is the default action, and
only then the messages are written to a file. -/
def finish (s : ToolSettings) : ToolSettings :=
  let s := if s.list then s.addAction .list else s
  let s := if s.actions = [] ∧ !s.printLogLevel ∧ !s.printBacklog then { s with follow := true }
    else s
  if s.outFilename.isSome ∧ !s.follow then { s with outFilename := none } else s

end ToolSettings

/-- `app_init`: the path, the service and the settings. The arguments are those that the options
have left. -/
def appInit (opts : List ToolOption) (args : List String) :
    Option (String × String × ToolSettings) :=
  match ToolSettings.zero.options opts, args with
  | some s, [service] => some ("/", service, s.finish)
  | some s, [path, service] => some (path, service, s.finish)
  | _, _ => none

/-! ## The tool -/

/-- A call made for an action, with `DBusLogClientCall`. -/
structure ToolCall where
  call : LoggerCall
  /-- The number of the action. -/
  action : Nat
  /-- The call has been made with `app_action_call_done`. -/
  awaited : Bool
  /-- The function is still `app_action_call_done`. -/
  fn : Bool
  cancelled : Bool
  /-- How the call has ended. It has been freed then. -/
  reply : Option Bool
  deriving DecidableEq

/-- What one `printf` prints. -/
inductive ToolOutput
  | category (name : String) (on byDefault : Bool)
  | number (value : Int32)
  | message (stamp : Option String) (category : Option String) (text : List UInt8)
  deriving DecidableEq

/-- `App` while it runs. Actions are numbered in the order of the command line. -/
structure ToolApp extends ToolSettings where
  client : ClientConnection
  calls : List ToolCall
  call : Option Nat
  /-- How many actions have been taken from the list. -/
  begun : Nat
  /-- The actions other than `list` and `reset` whose function has returned NULL. -/
  skipped : List Nat
  /-- The actions that have been freed. -/
  freed : List Nat
  /-- How often `client_message` has been connected. -/
  messageHandlers : Nat
  /-- `fopen` can open the file. -/
  canOpen : Bool
  outFile : Bool
  timeoutId : Bool
  sigtermId : Bool
  sigintId : Bool
  /-- The idle sources that quit the main loop. -/
  quits : Nat
  running : Bool
  ret : Int
  stdout : List ToolOutput
  written : List ToolOutput
  deriving DecidableEq

namespace ToolApp

/-- `app_quit` -/
def quit (app : ToolApp) : ToolApp := { app with quits := app.quits + 1 }

/-- `app_run` as far as the main loop. A new client is not connected. -/
def start (settings : ToolSettings) (canOpen : Bool) : ToolApp where
  toToolSettings := settings
  client := .new false
  calls := []
  call := none
  begun := 0
  skipped := []
  freed := []
  messageHandlers := 0
  canOpen := canOpen
  outFile := false
  timeoutId := settings.timeout > 0
  sigtermId := true
  sigintId := true
  quits := 0
  running := true
  ret := retOk
  stdout := []
  written := []

/-! ### Actions -/

/-- `fn_free` -/
def freeAction (app : ToolApp) (number : Nat) : ToolApp := { app with freed := number :: app.freed }

/-- `dbus_log_client_call_new` and the call of the proxy, if there is one. -/
def callNew (app : ToolApp) (number : Nat) (call : LoggerCall) (fn : Bool) : Option Nat × ToolApp :=
  if app.client.proxy.isSome then
    (some app.calls.length, { app with calls := app.calls ++ [⟨call, number, fn, fn, false, none⟩] })
  else (none, app)

/-- The line of `app_action_list` for a category. -/
def categoryLine (cat : DBusLogCategory) : ToolOutput :=
  .category cat.name cat.enabled cat.byDefault

/-- `app_action_list` -/
def actionList (app : ToolApp) (number : Nat) : Option Nat × ToolApp :=
  (none, { app with
    stdout := app.stdout ++ app.client.shownCategories.map categoryLine }.freeAction number)

/-- `app_action_set_backlog` -/
def actionSetBacklog (app : ToolApp) (number : Nat) (value : Int32) : Option Nat × ToolApp :=
  if app.client.apiVersion > 1 then app.callNew number (.setBacklog value) true else (none, app)

/-- `dbus_log_client_enable_categories` and `dbus_log_client_disable_categories` -/
def switchCategories (app : ToolApp) (number : Nat) (enable : Bool) (names : List String)
    (fn : Bool) : Option Nat × ToolApp :=
  if names ≠ [] then
    app.callNew number (if enable then .categoryEnable names else .categoryDisable names) fn
  else (none, app)

/-- `app_action_reset` -/
def actionReset (app : ToolApp) (number : Nat) : Option Nat × ToolApp :=
  let (enable, disable) := App.resetNames app.client.shownCategories
  if enable ≠ [] ∨ disable ≠ [] then
    if enable ≠ [] ∧ disable ≠ [] then
      (app.switchCategories number true enable false).2.switchCategories number false disable true
    else if enable ≠ [] then app.switchCategories number true enable true
    else app.switchCategories number false disable true
  else (none, app)

/-- The function of an action. -/
def runAction (app : ToolApp) (number : Nat) : ToolAction → Option Nat × ToolApp
  | .list => app.actionList number
  | .setLevel value => app.callNew number (.setDefaultLevel value) true
  | .setBacklog value => app.actionSetBacklog number value
  | .enableAll => app.callNew number (.categoryEnablePattern "*") true
  | .disableAll => app.callNew number (.categoryDisablePattern "*") true
  | .enable pattern => app.callNew number (.categoryEnablePattern pattern) true
  | .disable pattern => app.callNew number (.categoryDisablePattern pattern) true
  | .reset => app.actionReset number

/-- The loop of `app_next_action` -/
def runActions : List ToolAction → ToolApp → ToolApp
  | [], app => { app with actions := [] }
  | action :: actions, app =>
    if app.call.isNone then
      let number := app.begun
      let (call, app) := { app with actions := actions, begun := number + 1 }.runAction number action
      runActions actions { app with
        call := call
        skipped := if call.isNone ∧ !action.silent then number :: app.skipped else app.skipped }
    else { app with actions := action :: actions }

/-! ### Following -/

/-- The file for the messages is opened, if there is one to open. -/
def openFile (app : ToolApp) : ToolApp :=
  if app.outFilename.isSome ∧ !app.outFile then
    if app.canOpen then { app with outFile := true, written := [] }
    else { app with outFilename := none }
  else app

/-- `app_follow` -/
def appFollow (app : ToolApp) : ToolApp :=
  let app := if app.messageHandlers = 0 then { app with messageHandlers := 1 } else app
  if !app.client.started then
    { app with client := (app.client.start .application).2 }.openFile
  else app

/-- `app_next_action` -/
def nextAction (app : ToolApp) : ToolApp :=
  let app := runActions app.actions app
  if app.call.isNone then if app.follow then app.appFollow else app.quit else app

/-- `app_print`; `intact` tells whether the file can be written to. -/
def print (app : ToolApp) (intact : Bool) (line : ToolOutput) : ToolApp :=
  let app := { app with stdout := app.stdout ++ [line] }
  if app.outFile then
    if intact then { app with written := app.written ++ [line] } else { app with outFile := false }
  else app

/-- `client_message`; `time` is the time of the message as text. -/
def clientMessage (app : ToolApp) (category : Option DBusLogCategory) (message : DBusLogMessage)
    (time : String) (intact : Bool) : ToolApp :=
  app.print intact (.message (if app.timestamp ∨ app.datetime then some time else none)
    ((category.filter fun cat => cat.flags &&& CategoryFlag.hideName = 0).map (·.name))
    message.text)

/-! ### Handlers -/

/-- `app_action_call_done` for the call that has been made for the action. -/
def actionCallDone (app : ToolApp) (number : Nat) (ok : Bool) : ToolApp :=
  let app := { app with call := none }.freeAction number
  if ok then app.nextAction else { app with ret := retErr }.quit

/-- `dbus_log_client_generic_call_finished` -/
def genericCallFinished (app : ToolApp) (call : Nat) (ok : Bool) : ToolApp :=
  match app.calls[call]? with
  | some k =>
    let app := { app with calls := app.calls.modify call fun k => { k with reply := some ok } }
    if k.fn then app.actionCallDone k.action ok else app
  | none => app

/-- `client_connected` -/
def clientConnected (app : ToolApp) : ToolApp :=
  let app := if app.printLogLevel then { app with
      printLogLevel := false
      stdout := app.stdout ++ [.number app.client.defaultLevel.toInt32] }
    else app
  let app := if app.printBacklog then { app with
      printBacklog := false
      stdout := if app.client.apiVersion > 1 then app.stdout ++ [.number app.client.backlog]
        else app.stdout }
    else app
  app.nextAction

/-- `client_connect_error` -/
def clientConnectError (app : ToolApp) : ToolApp := { app with ret := retErr }.quit

/-- `app_timeout` -/
def appTimeout (app : ToolApp) : ToolApp :=
  { app with timeoutId := false, ret := retTimeout }.quit

/-- `app_signal`. The flag tells whether the source is to go on. A call that is under way is
cancelled, and then there is none. -/
def appSignal (app : ToolApp) : Bool × ToolApp :=
  let app := { app with ret := retCancel }
  match app.call with
  | some call => (true, { app with
      calls := app.calls.modify call fun k => { k with fn := false, cancelled := true }
      call := none })
  | none => (false, app.quit)

/-- `app_sigterm` -/
def appSigterm (app : ToolApp) : ToolApp :=
  let (more, app) := app.appSignal
  if more then app else { app with sigtermId := false }

/-- `app_sigint` -/
def appSigint (app : ToolApp) : ToolApp :=
  let (more, app) := app.appSignal
  if more then app else { app with sigintId := false }

end ToolApp

/-! ## Runs -/

/-- What an application does to its client does not happen by itself. -/
def ClientEvent.external : ClientEvent → Bool
  | .start | .cancel _ => false
  | _ => true

/-- What happens in the main loop. -/
inductive ToolEvent
  /-- Something happens to the client, and it signals that. -/
  | client (event : ClientEvent)
  /-- A call ends, with a reply or with an error. -/
  | finished (call : Nat) (ok : Bool)
  /-- A message comes through the pipe. -/
  | message (msg : DBusLogMessage) (time : String) (intact : Bool)
  | sigterm
  | sigint
  | timeout
  /-- `g_main_loop_quit` -/
  | idle

namespace ToolApp

/-- The call may end. If it has been cancelled, it fails. -/
def mayFinish (app : ToolApp) (call : Nat) (ok : Bool) : Bool :=
  (app.calls[call]?).any fun k => k.reply.isNone && !(ok && k.cancelled)

/-- The handlers of the tool for what the client has signalled since it was `before`. -/
def handleSignals (app : ToolApp) (before : ClientConnection) : ToolApp :=
  let app := if .connectError ∈ app.client.notified.drop before.notified.length then
    app.clientConnectError else app
  if app.client.connected ∧ !before.connected then app.clientConnected else app

/-- A step of the main loop; `none` when it is not enabled. -/
def step (app : ToolApp) (event : ToolEvent) : Option ToolApp :=
  if app.running then
    match event with
    | .client event =>
      if event.external then
        (app.client.step event).map fun c => { app with client := c }.handleSignals app.client
      else none
    | .finished call ok =>
      if app.mayFinish call ok then some (app.genericCallFinished call ok) else none
    | .message msg time intact =>
      if app.client.receiver.isSome then
        let (category, msg) := app.client.receiverMessage msg
        let category := category.bind fun p => app.client.memory[p]?
        -- each handler gets the message
        some ((List.replicate app.messageHandlers ()).foldl (fun app _ =>
          app.clientMessage category msg time intact) app)
      else none
    | .sigterm => if app.sigtermId then some app.appSigterm else none
    | .sigint => if app.sigintId then some app.appSigint else none
    | .timeout => if app.timeoutId then some app.appTimeout else none
    | .idle => if 0 < app.quits then some { app with running := false } else none
  else none

abbrev run (app : ToolApp) (events : List ToolEvent) : Option ToolApp := Runs.run step app events

/-- `app_destroy` -/
def destroy (app : ToolApp) : ToolApp :=
  { app with
    outFile := false
    outFilename := none
    freed := (List.range' app.begun app.actions.length).reverse ++ app.freed
    actions := [] }

end ToolApp

/-- `main`: the exit status, and the tool if it has run. There is none while the main loop runs. -/
def toolMain (opts : List ToolOption) (args : List String) (canOpen : Bool)
    (events : List ToolEvent) : Option (Int × Option ToolApp) :=
  match appInit opts args with
  | some (_, _, settings) =>
    ((ToolApp.start settings canOpen).run events).bind fun app =>
      if app.running then none else some (app.ret, some app.destroy)
  | none => some (retErr, none)

end DBusLog

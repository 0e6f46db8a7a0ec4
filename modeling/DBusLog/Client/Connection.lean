import DBusLog.Lib.Runs
import DBusLog.Client.Model

/-!
# The connection of a client

The rest of `dbuslog_client.c`: attempts to connect, which take several asynchronous steps and are
cancelled when the name of the server appears again or vanishes, the calls of `LogOpen`, and the
receiver of the messages.
-/

namespace DBusLog

/-- What an attempt to connect waits for. -/
inductive InitStage
  | proxyNew
  | getInterfaceVersion
  | getAll
  | getAll2
  /-- The context has been freed, without an error or with one. -/
  | freed (ok : Bool)
  deriving DecidableEq

/-- `DBusLogClientInit`. An attempt has one proxy, which goes by the number of the attempt. -/
structure DBusLogClientInit where
  cancelled : Bool
  stage : InitStage
  deriving DecidableEq

/-- Who is told that a call has finished. -/
inductive CallFunc
  | application
  | autostartFinished
  deriving DecidableEq

/-- `DBusLogClientCall` for a call of `LogOpen`, with the proxy that the call has gone through. -/
structure DBusLogClientCall where
  proxy : Nat
  fn : Option CallFunc
  cancelled : Bool
  pending : Bool
  deriving DecidableEq

/-- A receiver, with its descriptor and the call that has returned that. -/
structure LiveReceiver where
  fd : Nat
  call : Nat
  deriving DecidableEq

/-- The signals of a client that are not about its categories. -/
inductive ConnectionSignal
  | connectError
  | logStartError
  | logStartedChanged
  deriving DecidableEq

/-- `DBusLogClient` with the rest of its private part. Contexts and calls are numbered in the order
in which they have been made. -/
structure ClientConnection extends DBusLogClient where
  started : Bool
  apiVersion : Int32
  /-- `DBUSLOG_CLIENT_FLAG_AUTOSTART` -/
  autostartFlag : Bool
  cookie : UInt32
  inits : List DBusLogClientInit
  init : Option Nat
  calls : List DBusLogClientCall
  autostart : Option Nat
  proxy : Option Nat
  receiver : Option LiveReceiver
  notified : List ConnectionSignal
  deriving DecidableEq

namespace ClientConnection

/-- `dbus_log_client_new` -/
def new (autostartFlag : Bool) : ClientConnection where
  toDBusLogClient := .new
  started := false
  apiVersion := 0
  autostartFlag := autostartFlag
  cookie := 0
  inits := []
  init := none
  calls := []
  autostart := none
  proxy := none
  receiver := none
  notified := []

/-- `dbus_log_client_emit` -/
def notify (c : ClientConnection) (signal : ConnectionSignal) : ClientConnection :=
  { c with notified := c.notified ++ [signal] }

/-! ## Capturing -/

/-- `dbus_log_client_call_cancel` -/
def callCancel (c : ClientConnection) (call : Nat) : ClientConnection :=
  { c with calls := c.calls.modify call fun k => { k with fn := none, cancelled := true } }

/-- `dbus_log_client_stop` -/
def stop (c : ClientConnection) (emitSignals : Bool) : ClientConnection :=
  let c := match c.autostart with
    | some call => { c.callCancel call with autostart := none }
    | none => c
  let c := { c with receiver := none }
  if c.started then
    let c := { c with started := false }
    if emitSignals then c.notify .logStartedChanged else c
  else c

/-- `dbus_log_client_start` -/
def start (c : ClientConnection) (fn : CallFunc) : Option Nat × ClientConnection :=
  match c.proxy with
  | some proxy => (some c.calls.length, { c with
      calls := c.calls ++ [⟨proxy, some fn, false, true⟩] })
  | none => (none, c)

/-- `dbus_log_client_started`. `dbus_log_receiver_new` makes a receiver of each descriptor. -/
def clientStarted (c : ClientConnection) (call fd : Nat) (cookie : UInt32) : ClientConnection :=
  let wasStarted := c.started
  let c := c.stop false
  let c := { c with cookie := cookie, receiver := some ⟨fd, call⟩ }
  let c := { c with started := c.receiver.isSome }
  if c.started ≠ wasStarted then c.notify .logStartedChanged else c

/-- `dbus_log_client_autostart_finished` -/
def autostartFinished (c : ClientConnection) (call : Nat) : ClientConnection :=
  if c.autostart = some call then { c with autostart := none } else c

/-- `dbus_log_client_call_free` -/
def callFree (c : ClientConnection) (call : Nat) : ClientConnection :=
  { c with calls := c.calls.modify call fun k => { k with pending := false } }

/-- The callback of a call; what the application does in its own is not part of it. -/
def callFn (c : ClientConnection) (call : Nat) : ClientConnection :=
  match (c.calls[call]?).bind (·.fn) with
  | some .autostartFinished => c.autostartFinished call
  | some .application => c
  | none => c

/-- `dbus_log_client_start_finished`. The result is the list of descriptors and the cookie, or none
for an error. -/
def startFinished (c : ClientConnection) (call : Nat) (result : Option (List Nat × UInt32)) :
    ClientConnection :=
  let c := match result with
    | some ([fd], cookie) => c.clientStarted call fd cookie
    | some _ => c
    | none => c.notify .logStartError
  (c.callFn call).callFree call

/-! ## Connecting -/

/-- `dbus_log_client_disconnect` -/
def disconnect (c : ClientConnection) (emitSignals : Bool) : ClientConnection :=
  let c := c.stop emitSignals
  let c := { c with table := .empty, categories := [] }
  let c := if c.proxy.isSome then { c with handling := false, proxy := none } else c
  if c.connected then
    let c := { c with connected := false }
    if emitSignals then { c with toDBusLogClient := c.toDBusLogClient.emit .connectedChanged }
    else c
  else c

/-- `dbus_log_client_connected` -/
def clientConnected (c : ClientConnection) (proxy : Nat) : ClientConnection :=
  let c := c.stop true
  let c := { c with
    proxy := some proxy
    toDBusLogClient := c.toDBusLogClient.becomeConnected }
  if c.autostartFlag then
    let (call, c) := c.start .autostartFinished
    { c with autostart := call }
  else c

/-- The attempt goes on to another step. -/
def setStage (c : ClientConnection) (attempt : Nat) (stage : InitStage) : ClientConnection :=
  { c with inits := c.inits.modify attempt fun i => { i with stage := stage } }

/-- `dbus_log_client_init_free`. Without an error there is the table of the init context. -/
def initFree (c : ClientConnection) (attempt : Nat)
    (categories : Option (KeyedTable (Prod.fst : UInt32 × Nat → UInt32))) : ClientConnection :=
  -- an attempt that has been replaced leaves the client alone
  let c := if c.init = some attempt then
      let c := { c with init := none }
      match categories with
      | none => c.notify .connectError
      | some table =>
        { c with
          categories := DBusLogClient.sortedValues c.memory table
          table := table }.clientConnected attempt
    else c
  c.setStage attempt (.freed categories.isSome)

/-- An entry of the snapshot. -/
abbrev SnapshotEntry : Type := String × UInt32 × UInt32 × Int32

/-- `dbus_log_client_init_get_all_finished`. The result is none for an error; the version in the
reply is not looked at. -/
def initGetAllFinished (c : ClientConnection) (attempt : Nat) :
    Option (Int32 × List SnapshotEntry) → ClientConnection
  | some (level, entries) =>
    let (memory, table) := DBusLogClient.decodeCategories entries (c.memory, .empty)
    { c with memory := memory, defaultLevel := level.toUInt32 }.initFree attempt (some table)
  | none => c.initFree attempt none

/-- `dbus_log_client_init_get_all2_finished` -/
def initGetAll2Finished (c : ClientConnection) (attempt : Nat) :
    Option (Int32 × List SnapshotEntry × Int32) → ClientConnection
  | some (level, entries, backlog) =>
    let (memory, table) := DBusLogClient.decodeCategories entries (c.memory, .empty)
    { c with
      memory := memory
      defaultLevel := level.toUInt32
      backlog := backlog }.initFree attempt (some table)
  | none => c.initFree attempt none

/-- `dbus_log_client_init_get_interface_version_finished` -/
def initGetInterfaceVersionFinished (c : ClientConnection) (attempt : Nat) :
    Option Int32 → ClientConnection
  | some version =>
    let c := { c with apiVersion := version }
    if version = 1 then c.setStage attempt .getAll else c.setStage attempt .getAll2
  | none => c.initFree attempt none

/-- `dbus_log_client_init_proxy_created` -/
def initProxyCreated (c : ClientConnection) (attempt : Nat) (ok : Bool) : ClientConnection :=
  if ok then c.setStage attempt .getInterfaceVersion else c.initFree attempt none

/-- `dbus_log_client_init_cancel` -/
def initCancel (c : ClientConnection) : Option Nat → ClientConnection
  | some attempt =>
    { c with inits := c.inits.modify attempt fun i => { i with cancelled := true } }
  | none => c

/-- `dbus_log_client_name_appeared`, with `dbus_log_client_init_new` -/
def nameAppeared (c : ClientConnection) : ClientConnection :=
  let c := c.initCancel c.init
  { c with inits := c.inits ++ [⟨false, .proxyNew⟩], init := some c.inits.length }

/-- `dbus_log_client_name_vanished` -/
def nameVanished (c : ClientConnection) : ClientConnection :=
  { c.initCancel c.init with init := none }.disconnect true

end ClientConnection

/-! ## Events -/

/-- What happens to a client. A completion has no result if it is an error. -/
inductive ClientEvent
  | nameAppeared
  | nameVanished
  | proxyCreated (attempt : Nat) (ok : Bool)
  | gotInterfaceVersion (attempt : Nat) (version : Option Int32)
  | gotAll (attempt : Nat) (result : Option (Int32 × List ClientConnection.SnapshotEntry))
  | gotAll2 (attempt : Nat) (result : Option (Int32 × List ClientConnection.SnapshotEntry × Int32))
  | start
  | cancel (call : Nat)
  | logOpened (call : Nat) (result : Option (List Nat × UInt32))
  | receiverClosed
  | signal (signal : BusSignal)

namespace ClientConnection

/-- The attempt waits for the end of a step. If it has been cancelled, the step fails. -/
def awaits (c : ClientConnection) (attempt : Nat) (stage : InitStage) (ok : Bool) : Bool :=
  (c.inits[attempt]?).any fun i => i.stage = stage && !(ok && i.cancelled)

/-- The call may finish. If it has been cancelled, it fails. -/
def mayFinish (c : ClientConnection) (call : Nat) (ok : Bool) : Bool :=
  (c.calls[call]?).any fun k => k.pending && !(ok && k.cancelled)

/-- The application may cancel the call. -/
def mayCancel (c : ClientConnection) (call : Nat) : Bool :=
  (c.calls[call]?).any fun k => k.pending && k.fn = some .application

/-- A step; `none` when it is not enabled. -/
def step (c : ClientConnection) : ClientEvent → Option ClientConnection
  | .nameAppeared => some c.nameAppeared
  | .nameVanished => some c.nameVanished
  | .proxyCreated attempt ok =>
    if c.awaits attempt .proxyNew ok then some (c.initProxyCreated attempt ok) else none
  | .gotInterfaceVersion attempt version =>
    if c.awaits attempt .getInterfaceVersion version.isSome then
      some (c.initGetInterfaceVersionFinished attempt version)
    else none
  | .gotAll attempt result =>
    if c.awaits attempt .getAll result.isSome then some (c.initGetAllFinished attempt result)
    else none
  | .gotAll2 attempt result =>
    if c.awaits attempt .getAll2 result.isSome then some (c.initGetAll2Finished attempt result)
    else none
  | .start => some (c.start .application).2
  | .cancel call => if c.mayCancel call then some (c.callCancel call) else none
  | .logOpened call result =>
    if c.mayFinish call result.isSome then some (c.startFinished call result) else none
  | .receiverClosed => if c.receiver.isSome then some (c.stop true) else none
  | .signal signal => some { c with toDBusLogClient := c.toDBusLogClient.handle signal }

/-! ## What capturing leaves alone -/

/-- The connection and the attempts are as they were. -/
structure Undisturbed (c c' : ClientConnection) : Prop where
  client : c'.toDBusLogClient = c.toDBusLogClient
  inits : c'.inits = c.inits
  init : c'.init = c.init
  proxy : c'.proxy = c.proxy
  apiVersion : c'.apiVersion = c.apiVersion

theorem Undisturbed.refl (c : ClientConnection) : Undisturbed c c := ⟨rfl, rfl, rfl, rfl, rfl⟩

theorem Undisturbed.trans {c c' c'' : ClientConnection} (h : Undisturbed c c')
    (h' : Undisturbed c' c'') : Undisturbed c c'' where
  client := h'.client.trans h.client
  inits := h'.inits.trans h.inits
  init := h'.init.trans h.init
  proxy := h'.proxy.trans h.proxy
  apiVersion := h'.apiVersion.trans h.apiVersion

theorem stop_undisturbed (c : ClientConnection) (emitSignals : Bool) :
    Undisturbed c (c.stop emitSignals) := by
  unfold stop
  cases c.autostart with
  | none =>
    dsimp only
    split
    · cases emitSignals <;> exact ⟨rfl, rfl, rfl, rfl, rfl⟩
    · exact ⟨rfl, rfl, rfl, rfl, rfl⟩
  | some call =>
    dsimp only
    split
    · cases emitSignals <;> exact ⟨rfl, rfl, rfl, rfl, rfl⟩
    · exact ⟨rfl, rfl, rfl, rfl, rfl⟩

theorem start_undisturbed (c : ClientConnection) (fn : CallFunc) :
    Undisturbed c (c.start fn).2 := by
  unfold start
  split
  · exact ⟨rfl, rfl, rfl, rfl, rfl⟩
  · exact .refl c

theorem clientStarted_undisturbed (c : ClientConnection) (call fd : Nat) (cookie : UInt32) :
    Undisturbed c (c.clientStarted call fd cookie) := by
  have hstop := stop_undisturbed c false
  unfold clientStarted
  dsimp only
  split
  · exact ⟨hstop.client, hstop.inits, hstop.init, hstop.proxy, hstop.apiVersion⟩
  · exact ⟨hstop.client, hstop.inits, hstop.init, hstop.proxy, hstop.apiVersion⟩

theorem callFn_undisturbed (c : ClientConnection) (call : Nat) :
    Undisturbed c (c.callFn call) := by
  unfold callFn
  split
  · unfold autostartFinished
    split
    · exact ⟨rfl, rfl, rfl, rfl, rfl⟩
    · exact .refl c
  · exact .refl c
  · exact .refl c

theorem startFinished_undisturbed (c : ClientConnection) (call : Nat)
    (result : Option (List Nat × UInt32)) : Undisturbed c (c.startFinished call result) := by
  have hrest : ∀ t : ClientConnection, Undisturbed c t →
      Undisturbed c ((t.callFn call).callFree call) := fun t h =>
    h.trans ((callFn_undisturbed t call).trans ⟨rfl, rfl, rfl, rfl, rfl⟩)
  unfold startFinished
  dsimp only
  apply hrest
  split
  · exact clientStarted_undisturbed c call _ _
  · exact .refl c
  · exact ⟨rfl, rfl, rfl, rfl, rfl⟩

/-! ## The signals of a client -/

theorem notify_notified (c : ClientConnection) (signal : ConnectionSignal) :
    c.notified <+: (c.notify signal).notified := List.prefix_append _ _

theorem stop_notified (c : ClientConnection) (emitSignals : Bool) :
    c.notified <+: (c.stop emitSignals).notified := by
  have hrest : ∀ t : ClientConnection, t.notified = c.notified →
      c.notified <+: (if t.started then
        if emitSignals then { t with started := false }.notify .logStartedChanged
        else { t with started := false }
      else t).notified := by
    intro t ht
    rw [← ht]
    split
    · split
      · exact notify_notified _ _
      · exact List.prefix_refl _
    · exact List.prefix_refl _
  unfold stop
  cases c.autostart with
  | none => exact hrest { c with receiver := none } rfl
  | some call =>
    exact hrest { c.callCancel call with autostart := none, receiver := none } rfl

theorem start_notified (c : ClientConnection) (fn : CallFunc) :
    (c.start fn).2.notified = c.notified := by
  unfold start
  split
  · rfl
  · rfl

theorem clientStarted_notified (c : ClientConnection) (call fd : Nat) (cookie : UInt32) :
    c.notified <+: (c.clientStarted call fd cookie).notified := by
  have hstop := stop_notified c false
  unfold clientStarted
  dsimp only
  split
  · exact hstop.trans (notify_notified _ _)
  · exact hstop

theorem callFn_notified (c : ClientConnection) (call : Nat) :
    (c.callFn call).notified = c.notified := by
  unfold callFn
  split
  · unfold autostartFinished
    split
    · rfl
    · rfl
  · rfl
  · rfl

theorem startFinished_notified (c : ClientConnection) (call : Nat)
    (result : Option (List Nat × UInt32)) :
    c.notified <+: (c.startFinished call result).notified := by
  have hrest : ∀ t : ClientConnection, c.notified <+: t.notified →
      c.notified <+: ((t.callFn call).callFree call).notified := fun t ht => by
    show c.notified <+: (t.callFn call).notified
    rw [callFn_notified]
    exact ht
  unfold startFinished
  dsimp only
  apply hrest
  split
  · exact clientStarted_notified c call _ _
  · exact List.prefix_refl _
  · exact notify_notified _ _

theorem disconnect_notified (c : ClientConnection) (emitSignals : Bool) :
    c.notified <+: (c.disconnect emitSignals).notified := by
  have hstop := stop_notified c emitSignals
  unfold disconnect
  dsimp only
  split
  · split
    · split
      · exact hstop
      · exact hstop
    · exact hstop
  · split
    · split
      · exact hstop
      · exact hstop
    · exact hstop

theorem clientConnected_notified (c : ClientConnection) (proxy : Nat) :
    c.notified <+: (c.clientConnected proxy).notified := by
  have hstop := stop_notified c true
  unfold clientConnected
  dsimp only
  split
  · rw [start_notified]
    exact hstop
  · exact hstop

theorem initFree_notified (c : ClientConnection) (attempt : Nat)
    (categories : Option (KeyedTable (Prod.fst : UInt32 × Nat → UInt32))) :
    c.notified <+: (c.initFree attempt categories).notified := by
  unfold initFree
  dsimp only
  split
  · cases categories with
    | none => exact notify_notified _ _
    | some table => exact clientConnected_notified { c with
        init := none
        categories := DBusLogClient.sortedValues c.memory table
        table := table } attempt
  · exact List.prefix_refl _

theorem initCancel_notified (c : ClientConnection) (attempt : Option Nat) :
    (c.initCancel attempt).notified = c.notified := by
  cases attempt with
  | none => rfl
  | some attempt => rfl

/-- Nothing that has been signalled is taken back. -/
theorem step_notified {c c' : ClientConnection} {e : ClientEvent} (hs : c.step e = some c') :
    c.notified <+: c'.notified := by
  cases e with
  | nameAppeared =>
    cases hs
    exact (initCancel_notified c c.init).symm ▸ List.prefix_refl _
  | nameVanished =>
    cases hs
    have hcancel : c.notified <+: (c.initCancel c.init).notified :=
      (initCancel_notified c c.init).symm ▸ List.prefix_refl _
    exact hcancel.trans (disconnect_notified { c.initCancel c.init with init := none } true)
  | proxyCreated attempt ok =>
    obtain ⟨_, he⟩ := Option.ite_none_right_eq_some.mp hs
    cases he
    unfold initProxyCreated
    split
    · exact List.prefix_refl _
    · exact initFree_notified c attempt none
  | gotInterfaceVersion attempt version =>
    obtain ⟨_, he⟩ := Option.ite_none_right_eq_some.mp hs
    cases he
    cases version with
    | none => exact initFree_notified c attempt none
    | some version =>
      unfold initGetInterfaceVersionFinished
      dsimp only
      split
      · exact List.prefix_refl _
      · exact List.prefix_refl _
  | gotAll attempt result =>
    obtain ⟨_, he⟩ := Option.ite_none_right_eq_some.mp hs
    cases he
    cases result with
    | none => exact initFree_notified c attempt none
    | some result => exact initFree_notified { c with
        memory := (DBusLogClient.decodeCategories result.2 (c.memory, .empty)).1
        defaultLevel := result.1.toUInt32 } attempt _
  | gotAll2 attempt result =>
    obtain ⟨_, he⟩ := Option.ite_none_right_eq_some.mp hs
    cases he
    cases result with
    | none => exact initFree_notified c attempt none
    | some result => exact initFree_notified { c with
        memory := (DBusLogClient.decodeCategories result.2.1 (c.memory, .empty)).1
        defaultLevel := result.1.toUInt32
        backlog := result.2.2 } attempt _
  | start =>
    cases hs
    exact (start_notified c .application).symm ▸ List.prefix_refl _
  | cancel call =>
    obtain ⟨_, he⟩ := Option.ite_none_right_eq_some.mp hs
    cases he
    exact List.prefix_refl _
  | logOpened call result =>
    obtain ⟨_, he⟩ := Option.ite_none_right_eq_some.mp hs
    cases he
    exact startFinished_notified c call result
  | receiverClosed =>
    obtain ⟨_, he⟩ := Option.ite_none_right_eq_some.mp hs
    cases he
    exact stop_notified c true
  | signal signal =>
    cases hs
    exact List.prefix_refl _

end ClientConnection

end DBusLog

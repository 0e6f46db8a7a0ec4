import DBusLog.Lib.RefAccess
import DBusLog.Client.Contexts
import DBusLog.Client.Capture

/-!
# The lifetime of a client

A client is a reference-counted object. Besides the application each context has a reference to it,
from `dbus_log_client_init_new` or `dbus_log_client_call_new` on until the context is freed. So the
client outlives the application's last reference until the last context has come to its end, and
when it is finalized, it points to none. The watch of the name, which has no reference, is given up
then.

The handlers of a signal may take references and give them up. `dbus_log_client_emit` keeps the
client alive while they run, but not its caller, which may have no reference of its own. Two
functions go on with the client after their first signal: `dbus_log_client_disconnect`, when it has
stopped the receiver, and `dbus_log_client_category_added`, when there has been a category with the
id. The others that are called without a context emit at most one signal, and last.
-/

namespace DBusLog

/-- A client, as the only object of a memory. -/
structure ClientObject where
  connection : ClientConnection
  object : RefMemory Unit
  /-- The references of the application. -/
  owners : Nat
  /-- `name_watch_id` -/
  watching : Bool
  /-- What GLib has reported last about the name: it is there, or not. -/
  present : Option Bool
  /-- For each time the client has been finalized, the cookie that it has asked the server to
  close. -/
  closed : List (Option UInt32)
  /-- An assertion of `dbus_log_client_finalize` has failed. -/
  asserted : Bool
  deriving DecidableEq

/-- What happens to a client, or to a reference of the application. The handlers of the first
signal of an event leave the application with so many references, those of the second one with so
many, and so on; the callback of a call counts with them. -/
inductive LifetimeEvent
  | ref
  | unref
  | event (e : ClientEvent) (handlers : List Nat)
  /-- The receiver has read a message. -/
  | message (handlers : List Nat)
  /-- The receiver has found that messages are missing. -/
  | skip (handlers : List Nat)

/-- The public array has a category with the id. -/
def DBusLogClient.hasCategory (c : DBusLogClient) (id : UInt32) : Bool :=
  (c.categoryIndex (c.category id)).isSome

namespace ClientConnection

/-! ## What the functions do with the client -/

/-- `dbus_log_client_stop`, with signals -/
def stopAccesses (c : ClientConnection) : List RefAccess :=
  .use :: if c.started then [.emit] else []

/-- `dbus_log_client_disconnect`, with signals -/
def disconnectAccesses (c : ClientConnection) : List RefAccess :=
  c.stopAccesses ++ .use :: if c.connected then [.emit] else []

/-- `dbus_log_client_connected`. The call of autostart takes a reference. -/
def connectedAccesses (c : ClientConnection) : List RefAccess :=
  c.stopAccesses ++ (.use :: if c.connected then [] else [.emit]) ++
    .use :: if c.autostartFlag then [.ref] else []

/-- `dbus_log_client_init_free`, up to the reference of the context -/
def initFreeAccesses (c : ClientConnection) (attempt : Nat) (ok : Bool) : List RefAccess :=
  .use :: if c.init = some attempt then if ok then c.connectedAccesses else [.emit] else []

/-- The callback of a call -/
def fnAccesses (c : ClientConnection) (call : Nat) : List RefAccess :=
  match (c.calls[call]?).bind (·.fn) with
  | some .autostartFinished => [.use]
  | some .application => [.callback]
  | none => []

/-- `dbus_log_client_start_finished`, up to the reference of the call -/
def startFinishedAccesses (c : ClientConnection) (call : Nat) :
    Option (List Nat × UInt32) → List RefAccess
  | some ([fd], cookie) =>
    .use :: (if c.started then [] else [.emit]) ++ (c.clientStarted call fd cookie).fnAccesses call
  | some _ => c.fnAccesses call
  | none => .emit :: c.fnAccesses call

/-- The handlers for the signals of the proxy -/
def signalAccesses (c : ClientConnection) : BusSignal → List RefAccess
  | .categoryAdded _ id _ =>
    (.use :: if c.hasCategory id then [.emit] else []) ++ [.use, .emit]
  | .categoryRemoved id | .categoryFlagsChanged id _ =>
    .use :: if c.hasCategory id then [.emit] else []
  | _ => []

/-- A context that comes to its end gives up its reference last. -/
def eventAccesses (c : ClientConnection) : ClientEvent → List RefAccess
  | .nameAppeared => [.use, .ref]
  | .nameVanished => c.disconnectAccesses
  | .proxyCreated attempt ok => if ok then [] else c.initFreeAccesses attempt false ++ [.unref]
  | .gotInterfaceVersion attempt version =>
    if version.isSome then [.use] else c.initFreeAccesses attempt false ++ [.unref]
  | .gotAll attempt result => c.initFreeAccesses attempt result.isSome ++ [.unref]
  | .gotAll2 attempt result => c.initFreeAccesses attempt result.isSome ++ [.unref]
  | .start => .use :: if c.proxy.isSome then [.ref] else []
  -- a call knows its cancellable itself
  | .cancel _ => []
  | .logOpened call result => c.startFinishedAccesses call result ++ [.unref]
  | .receiverClosed => c.stopAccesses
  | .signal signal => if c.handling then c.signalAccesses signal else []

/-- After its first signal the function goes on with the client, for which it has no reference. -/
def GoesOn (c : ClientConnection) : ClientEvent → Prop
  | .nameVanished => c.started = true
  | .signal (.categoryAdded _ id _) => c.handling = true ∧ c.hasCategory id = true
  | _ => False

/-- The contexts that have not been freed. -/
def contexts (c : ClientConnection) : Nat :=
  c.inits.countP (·.Live) + c.calls.countP (·.pending)

end ClientConnection

namespace ClientObject

/-- `dbus_log_client_new` -/
def new (autostartFlag : Bool) : ClientObject where
  connection := .new autostartFlag
  object := RefMemory.empty.alloc ()
  owners := 1
  watching := true
  present := none
  closed := []
  asserted := false

/-- `dbus_log_client_finalize` -/
def finalize (o : ClientObject) : ClientObject :=
  let c := o.connection
  { o with
    asserted := o.asserted || c.init.isSome || c.autostart.isSome
    closed := o.closed ++ [if c.proxy.isSome && c.cookie ≠ 0 then some c.cookie else none]
    connection := c.disconnect false
    watching := false }

/-- The last reference takes the object along. -/
def release (o : ClientObject) (before : RefMemory Unit) : ClientObject :=
  if before.alive 0 && !o.object.alive 0 then o.finalize else o

/-- A function of the client runs, and leaves the connection as `c`. -/
def visit (o : ClientObject) (accesses : List RefAccess) (handlers : List Nat)
    (c : ClientConnection) : ClientObject :=
  let accessed := (⟨o.object, o.owners, handlers⟩ : AccessedObject).accesses accesses
  release { o with object := accessed.object, owners := accessed.owners, connection := c } o.object

/-- The name has to be watched, and GLib says by turns that it is there and that it is not. The
application starts only a client of its own. -/
def permits (o : ClientObject) : ClientEvent → Bool
  | .nameAppeared => o.watching && o.present ≠ some true
  | .nameVanished => o.watching && o.present ≠ some false
  | .start => 0 < o.owners
  | _ => true

/-- A step; `none` when it is not enabled. -/
def step (o : ClientObject) : LifetimeEvent → Option ClientObject
  | .ref =>
    if 0 < o.owners then some { o with object := o.object.ref 0, owners := o.owners + 1 }
    else none
  | .unref =>
    if 0 < o.owners then
      some (release { o with object := o.object.unref 0, owners := o.owners - 1 } o.object)
    else none
  | .event e handlers =>
    if o.permits e then
      (o.connection.step e).map fun c =>
        { o with present := e.name?.or o.present }.visit (o.connection.eventAccesses e) handlers c
    else none
  | .message handlers =>
    if o.connection.receiver.isSome then some (o.visit [.use, .emit] handlers o.connection)
    else none
  | .skip handlers =>
    if o.connection.receiver.isSome then some (o.visit [.emit] handlers o.connection) else none

/-- Where a function goes on with the client after its first signal, the handlers of that leave the
application a reference, or a context has one. -/
def Kept (o : ClientObject) : LifetimeEvent → Prop
  | .event e handlers =>
    o.connection.GoesOn e → handlers.head? = some 0 → 0 < o.connection.contexts
  | _ => True

end ClientObject

namespace ClientConnection

variable {c c' : ClientConnection}

/-! ## The number of contexts -/

/-- No attempt and no call is begun or ends. -/
structure SameContexts (c c' : ClientConnection) : Prop where
  inits : c'.inits = c.inits
  calls : c'.calls.map (·.pending) = c.calls.map (·.pending)

theorem SameContexts.pending (h : SameContexts c c') :
    c'.calls.countP (·.pending) = c.calls.countP (·.pending) := by
  have hcount := congrArg (List.countP id) h.calls
  rw [List.countP_map, List.countP_map] at hcount
  exact hcount

theorem SameContexts.contexts (h : SameContexts c c') : c'.contexts = c.contexts := by
  unfold ClientConnection.contexts
  rw [h.inits, h.pending]

theorem stop_sameContexts (c : ClientConnection) (emitSignals : Bool) :
    SameContexts c (c.stop emitSignals) := by
  refine ⟨(stop_undisturbed c emitSignals).inits, ?_⟩
  unfold stop
  cases c.autostart with
  | none =>
    dsimp only
    split
    · cases emitSignals <;> rfl
    · rfl
  | some call =>
    have hcancelled : (c.callCancel call).calls.map (·.pending) = c.calls.map (·.pending) :=
      List.map_modify_of_eq fun _ => rfl
    dsimp only
    split
    · cases emitSignals <;> exact hcancelled
    · exact hcancelled

theorem start_contexts (c : ClientConnection) (fn : CallFunc) :
    (c.start fn).2.contexts = c.contexts + if c.proxy.isSome then 1 else 0 := by
  unfold start contexts
  cases c.proxy with
  | none => rfl
  | some proxy => simp [Nat.add_assoc]

theorem clientConnected_contexts (c : ClientConnection) (proxy : Nat) :
    (c.clientConnected proxy).contexts =
      c.contexts + if c.autostartFlag then 1 else 0 := by
  have hflag : (c.stop true).autostartFlag = c.autostartFlag := by
    unfold stop
    cases c.autostart with
    | none =>
      dsimp only
      split
      · rfl
      · rfl
    | some call =>
      dsimp only
      split
      · rfl
      · rfl
  have hstop := (stop_sameContexts c true).contexts
  unfold clientConnected
  dsimp only
  rw [hflag]
  by_cases hauto : c.autostartFlag = true
  · rw [if_pos hauto, if_pos hauto, ← hstop]
    exact start_contexts { c.stop true with
      proxy := some proxy
      toDBusLogClient := (c.stop true).toDBusLogClient.becomeConnected } .autostartFinished
  · rw [if_neg hauto, if_neg hauto]
    exact hstop

/-- A context of an attempt is freed. -/
theorem setStage_freed_contexts {attempt : Nat} {i : DBusLogClientInit}
    (hi : c.inits[attempt]? = some i) (hlive : i.Live) (ok : Bool) :
    (c.setStage attempt (.freed ok)).contexts + 1 = c.contexts := by
  have hcount := List.countP_modify_add_one (P := DBusLogClientInit.Live)
    (f := fun i => { i with stage := .freed ok }) hi hlive fun hlive => hlive ok rfl
  unfold contexts setStage
  dsimp only
  omega

theorem initFree_contexts {attempt : Nat} {i : DBusLogClientInit}
    (hi : c.inits[attempt]? = some i) (hlive : i.Live)
    (categories : Option (KeyedTable (Prod.fst : UInt32 × Nat → UInt32))) :
    (c.initFree attempt categories).contexts + 1 =
      c.contexts + if categories.isSome && c.init = some attempt && c.autostartFlag then 1
        else 0 := by
  unfold initFree
  by_cases hcurrent : c.init = some attempt
  · rw [if_pos hcurrent]
    cases categories with
    | none =>
      exact setStage_freed_contexts (c := { c with init := none }.notify .connectError) hi hlive
        false
    | some table =>
      have hinits := (clientConnected_spec { c with
        init := none
        categories := DBusLogClient.sortedValues c.memory table
        table := table } attempt).2.1
      refine (setStage_freed_contexts (i := i) ?_ hlive true).trans ?_
      · rw [hinits]
        exact hi
      · rw [clientConnected_contexts]
        simp only [hcurrent, Option.isSome_some, decide_true, Bool.and_self, Bool.true_and]
        rfl
  · rw [if_neg hcurrent]
    simp only [hcurrent, decide_false, Bool.and_false, Bool.false_and]
    exact setStage_freed_contexts hi hlive categories.isSome

/-- An attempt goes on. -/
theorem setStage_contexts {attempt : Nat} {stage : InitStage} {i : DBusLogClientInit}
    (hi : c.inits[attempt]? = some i) (hlive : i.Live) (hstage : ∀ ok, stage ≠ .freed ok) :
    (c.setStage attempt stage).contexts = c.contexts := by
  have hcount : (c.setStage attempt stage).inits.countP (·.Live) = c.inits.countP (·.Live) := by
    refine List.countP_modify_of_iff fun j hj => ?_
    cases hi.symm.trans hj
    exact iff_of_true hstage hlive
  unfold contexts
  rw [hcount]
  rfl

theorem initCancel_contexts (c : ClientConnection) (attempt : Option Nat) :
    (c.initCancel attempt).contexts = c.contexts := by
  cases attempt with
  | none => rfl
  | some attempt =>
    have hcount : (c.initCancel (some attempt)).inits.countP (·.Live) =
        c.inits.countP (·.Live) := List.countP_modify_of_iff fun _ _ => Iff.rfl
    unfold contexts
    rw [hcount]
    rfl

theorem nameAppeared_contexts (c : ClientConnection) :
    c.nameAppeared.contexts = c.contexts + 1 := by
  have hnew : (DBusLogClientInit.mk false .proxyNew).Live := fun ok hfreed => by cases hfreed
  rw [← initCancel_contexts c c.init]
  unfold nameAppeared contexts
  simp only [List.countP_append, List.countP_singleton, hnew, decide_true, if_true]
  cases c.init with
  | none => exact Nat.add_right_comm _ _ _
  | some attempt => exact Nat.add_right_comm _ _ _

theorem disconnect_sameContexts (c : ClientConnection) (emitSignals : Bool) :
    SameContexts c (c.disconnect emitSignals) := by
  obtain ⟨hinits, _, hcalls, _, _⟩ := disconnect_contexts c emitSignals
  refine ⟨hinits, ?_⟩
  rw [hcalls]
  exact (stop_sameContexts c emitSignals).calls

theorem nameVanished_contexts (c : ClientConnection) : c.nameVanished.contexts = c.contexts := by
  rw [← initCancel_contexts c c.init]
  unfold nameVanished
  exact (disconnect_sameContexts { c.initCancel c.init with init := none } true).contexts

/-- The call is freed at its end. -/
theorem startFinished_contexts {call : Nat} {k : DBusLogClientCall}
    (hk : c.calls[call]? = some k) (hpending : k.pending = true)
    (result : Option (List Nat × UInt32)) :
    (c.startFinished call result).contexts + 1 = c.contexts := by
  have hend : ∀ d : ClientConnection, SameContexts c d →
      ((d.callFn call).callFree call).contexts + 1 = c.contexts := by
    intro d hsame
    have hcalls : (d.callFn call).calls = d.calls ∧ (d.callFn call).inits = d.inits := by
      refine ⟨?_, (callFn_undisturbed d call).inits⟩
      unfold callFn autostartFinished
      split
      · split
        · rfl
        · rfl
      · rfl
      · rfl
    have hpendings := congrArg (fun l => l[call]?) hsame.calls
    simp only [List.getElem?_map, hk, Option.map_some, hpending] at hpendings
    obtain ⟨k', hk', hpending'⟩ := Option.map_eq_some_iff.mp hpendings
    have hcount := List.countP_modify_add_one (P := fun k : DBusLogClientCall => k.pending = true)
      (f := fun k => { k with pending := false }) hk' hpending' Bool.false_ne_true
    simp only [Bool.decide_eq_true] at hcount
    unfold callFree contexts
    dsimp only
    rw [hcalls.1, hcalls.2, hsame.inits, ← hsame.pending]
    omega
  unfold startFinished
  dsimp only
  split
  · next fd cookie =>
    apply hend
    have hstop := stop_sameContexts c false
    unfold clientStarted
    dsimp only
    split
    · exact ⟨hstop.inits, hstop.calls⟩
    · exact ⟨hstop.inits, hstop.calls⟩
  · exact hend c ⟨rfl, rfl⟩
  · exact hend (c.notify .logStartError) ⟨rfl, rfl⟩

/-! ## The references of the functions -/

theorem unref_initFreeAccesses (c : ClientConnection) (attempt : Nat) (ok : Bool) :
    .unref ∉ c.initFreeAccesses attempt ok := by
  unfold initFreeAccesses connectedAccesses stopAccesses
  split_ifs <;> simp

theorem count_initFreeAccesses (c : ClientConnection) (attempt : Nat) (ok : Bool) :
    (c.initFreeAccesses attempt ok).count .ref =
      if ok && c.init = some attempt && c.autostartFlag then 1 else 0 := by
  unfold initFreeAccesses connectedAccesses stopAccesses
  split_ifs <;> simp_all

theorem fnAccesses_plain (c : ClientConnection) (call : Nat) :
    .unref ∉ c.fnAccesses call ∧ .ref ∉ c.fnAccesses call := by
  unfold fnAccesses
  split <;> simp

theorem startFinishedAccesses_plain (c : ClientConnection) (call : Nat)
    (result : Option (List Nat × UInt32)) :
    .unref ∉ c.startFinishedAccesses call result ∧ .ref ∉ c.startFinishedAccesses call result := by
  unfold startFinishedAccesses
  split
  · next fd cookie =>
    have hplain := fnAccesses_plain (c.clientStarted call fd cookie) call
    split_ifs <;> simpa using hplain
  · exact fnAccesses_plain c call
  · simpa using fnAccesses_plain c call

/-! ## The proxy -/

/-- A client with a connection, and no other, has a proxy and listens to its signals. -/
def Linked (c : ClientConnection) : Prop :=
  c.proxy.isSome = c.connected ∧ c.handling = c.connected

theorem Linked.undisturbed (h : Linked c) (hsame : Undisturbed c c') : Linked c' := by
  unfold Linked
  rw [hsame.client, hsame.proxy]
  exact h

theorem Linked.disconnect (h : Linked c) (emitSignals : Bool) :
    Linked (c.disconnect emitSignals) := by
  obtain ⟨_, _, hconnected, hhandling, hproxy, _, _⟩ := disconnect_spec c emitSignals h
  unfold Linked
  rw [hconnected, hhandling, hproxy]
  exact ⟨rfl, rfl⟩

theorem Linked.initFree (h : Linked c) (attempt : Nat)
    (categories : Option (KeyedTable (Prod.fst : UInt32 × Nat → UInt32))) :
    Linked (c.initFree attempt categories) := by
  unfold ClientConnection.initFree
  by_cases hcurrent : c.init = some attempt
  · rw [if_pos hcurrent]
    cases categories with
    | none => exact h
    | some table =>
      obtain ⟨hclient, _, _, hproxy⟩ := clientConnected_spec { c with
        init := none
        categories := DBusLogClient.sortedValues c.memory table
        table := table } attempt
      have hframe := becomeConnected_frame { c.toDBusLogClient with
        categories := DBusLogClient.sortedValues c.memory table
        table := table }
      have hconnected := (congrArg DBusLogClient.connected hclient).trans hframe.1
      have hhandling := (congrArg DBusLogClient.handling hclient).trans hframe.2
      refine ⟨(congrArg Option.isSome hproxy).trans ?_, ?_⟩
      · exact hconnected.symm
      · exact hhandling.trans hconnected.symm
  · rw [if_neg hcurrent]
    exact h

/-- Step lemma. -/
theorem Linked.step {e : ClientEvent} (h : Linked c) (hs : c.step e = some c') : Linked c' := by
  cases e with
  | nameAppeared =>
    cases hs
    unfold nameAppeared
    cases c.init with
    | none => exact h
    | some attempt => exact h
  | nameVanished =>
    cases hs
    apply Linked.disconnect
    cases c.init with
    | none => exact h
    | some attempt => exact h
  | proxyCreated attempt ok =>
    obtain ⟨_, he⟩ := Option.ite_none_right_eq_some.mp hs
    cases he
    unfold initProxyCreated
    split
    · exact h
    · exact h.initFree attempt none
  | gotInterfaceVersion attempt version =>
    obtain ⟨_, he⟩ := Option.ite_none_right_eq_some.mp hs
    cases he
    cases version with
    | none => exact h.initFree attempt none
    | some version =>
      unfold initGetInterfaceVersionFinished
      dsimp only
      split
      · exact h
      · exact h
  | gotAll attempt result =>
    obtain ⟨_, he⟩ := Option.ite_none_right_eq_some.mp hs
    cases he
    cases result with
    | none => exact h.initFree attempt none
    | some result =>
      obtain ⟨level, entries⟩ := result
      have hsnapshot : Linked { c with
        memory := (DBusLogClient.decodeCategories entries (c.memory, .empty)).1
        defaultLevel := level.toUInt32 } := h
      exact hsnapshot.initFree attempt (some _)
  | gotAll2 attempt result =>
    obtain ⟨_, he⟩ := Option.ite_none_right_eq_some.mp hs
    cases he
    cases result with
    | none => exact h.initFree attempt none
    | some result =>
      obtain ⟨level, entries, backlog⟩ := result
      have hsnapshot : Linked { c with
        memory := (DBusLogClient.decodeCategories entries (c.memory, .empty)).1
        defaultLevel := level.toUInt32
        backlog := backlog } := h
      exact hsnapshot.initFree attempt (some _)
  | start =>
    cases hs
    exact h.undisturbed (start_undisturbed c .application)
  | cancel call =>
    obtain ⟨_, he⟩ := Option.ite_none_right_eq_some.mp hs
    cases he
    exact h
  | logOpened call result =>
    obtain ⟨_, he⟩ := Option.ite_none_right_eq_some.mp hs
    cases he
    exact h.undisturbed (startFinished_undisturbed c call result)
  | receiverClosed =>
    obtain ⟨_, he⟩ := Option.ite_none_right_eq_some.mp hs
    cases he
    exact h.undisturbed (stop_undisturbed c true)
  | signal signal =>
    cases hs
    obtain ⟨hconnected, hhandling⟩ := handle_frame c.toDBusLogClient signal
    unfold Linked
    dsimp only
    rw [hconnected, hhandling]
    exact h

end ClientConnection

namespace ClientObject

open ClientConnection (Designating Linked GoesOn initFree_contexts nameAppeared_contexts
  nameVanished_contexts awaits_spec start_contexts SameContexts startFinished_contexts
  stop_sameContexts setStage_contexts designating_new disconnect_sameContexts disconnect_spec
  disconnect_contexts stop_calls)
open RefMemory (Counts)
open AccessedObject (Held)

variable {o o' : ClientObject} {c c' : ClientConnection}

/-! ## References -/

/-- The references that the application and the contexts have. -/
def references (o : ClientObject) : Nat := o.owners + o.connection.contexts

section Accesses

variable {s : AccessedObject} {n : Nat}

/-- A function that emits at most one signal, and last -/
theorem held_once (h : Held n s) (hpos : 0 < s.owners + n) (emits : Bool) :
    Held n (s.accesses (.use :: if emits then [.emit] else [])) := by
  rw [AccessedObject.accesses_cons, h.use hpos]
  cases emits with
  | true => exact h.emit hpos
  | false => exact h

/-- A function that goes on after its first signal -/
theorem held_twice (h : Held n s) (hpos : 0 < s.owners + n) {emits : Bool} (emits' : Bool)
    (hkept : emits = true → s.handlers.head? = some 0 → 0 < n) :
    Held n (s.accesses ((.use :: if emits then [.emit] else []) ++
      .use :: if emits' then [.emit] else [])) := by
  rw [AccessedObject.accesses_append]
  refine held_once (held_once h hpos emits) ?_ emits'
  rw [AccessedObject.accesses_cons, h.use hpos]
  cases emits with
  | false => exact hpos
  | true =>
    show 0 < (s.access .emit).owners + n
    rw [s.owners_emit]
    cases hhandlers : s.handlers with
    | nil => exact hpos
    | cons k rest =>
      rw [hhandlers] at hkept
      rw [List.headD_cons]
      by_cases hk : k = 0
      · exact Nat.add_pos_right k (hkept rfl (congrArg some hk))
      · exact Nat.add_pos_left (Nat.pos_of_ne_zero hk) n

/-- The first handlers leave the client without a reference, and the function goes on. -/
theorem faulted_twice (h : Held n s) (hpos : 0 < s.owners + n) (hn : n = 0)
    (hhandlers : s.handlers.head? = some 0) (rest : List RefAccess) :
    (s.accesses ([.use, .emit] ++ .use :: rest)).object.faulted = true := by
  have huse := h.use hpos
  show (((s.access .use).access .emit).accesses (.use :: rest)).object.faulted = true
  rw [huse]
  refine (h.emit hpos).faulted ?_ rest
  rw [s.owners_emit, hn, List.headD_eq_head?_getD, hhandlers]
  rfl

/-- A context gives up its reference when the function has done its work. -/
theorem held_context {as : List RefAccess} (h : Held (n + 1) s) (has : .unref ∉ as) :
    Held (n + as.count .ref) (s.accesses (as ++ [.unref])) := by
  rw [AccessedObject.accesses_append]
  refine AccessedObject.Held.unref ?_
  have hheld := h.accesses has
  rw [Nat.add_right_comm] at hheld
  exact hheld

/-- An attempt comes to its end, with what it has got so far in `d`. -/
theorem held_initFree {d : ClientConnection} (h : Held c.contexts s) {attempt : Nat}
    {i : DBusLogClientInit}
    (categories : Option (KeyedTable (Prod.fst : UInt32 × Nat → UInt32)))
    (hi : c.inits[attempt]? = some i) (hlive : i.Live) (hinits : d.inits = c.inits)
    (hcalls : d.calls = c.calls) (hinit : d.init = c.init)
    (hflag : d.autostartFlag = c.autostartFlag) :
    Held (d.initFree attempt categories).contexts
      (s.accesses (c.initFreeAccesses attempt categories.isSome ++ [.unref])) := by
  have hend := initFree_contexts (c := d) (hinits ▸ hi) hlive categories
  have hsame : d.contexts = c.contexts := by
    unfold ClientConnection.contexts
    rw [hinits, hcalls]
  have hpos : 0 < c.contexts := by
    refine Nat.add_pos_left (List.countP_pos_iff.mpr ⟨i, List.mem_of_getElem? hi, ?_⟩) _
    exact decide_eq_true hlive
  obtain ⟨n, hn⟩ := Nat.exists_eq_succ_of_ne_zero hpos.ne'
  rw [hn] at h
  have hheld := held_context h (c.unref_initFreeAccesses attempt categories.isSome)
  rw [hinit, hflag, hsame, hn, ← c.count_initFreeAccesses] at hend
  have he : (d.initFree attempt categories).contexts =
      n + (c.initFreeAccesses attempt categories.isSome).count .ref := by omega
  rw [he]
  exact hheld

end Accesses

/-- A step refs the client for each context that is made, and unrefs it for each one that ends. -/
theorem held_event {handlers : List Nat} (h : Held o.connection.contexts
    ⟨o.object, o.owners, handlers⟩) (hpos : 0 < o.references) {e : ClientEvent}
    (hkept : o.Kept (.event e handlers)) (hs : o.connection.step e = some c') :
    Held c'.contexts ((⟨o.object, o.owners, handlers⟩ : AccessedObject).accesses
      (o.connection.eventAccesses e)) := by
  generalize hstart : (⟨o.object, o.owners, handlers⟩ : AccessedObject) = start at h ⊢
  have howners : start.owners = o.owners := by
    rw [← hstart]
  have hhandlers : start.handlers = handlers := by
    rw [← hstart]
  have hpos : 0 < start.owners + o.connection.contexts := howners ▸ hpos
  cases e with
  | nameAppeared =>
    cases hs
    rw [nameAppeared_contexts]
    show Held _ ((start.access .use).access .ref)
    rw [h.use hpos]
    exact h.ref hpos
  | nameVanished =>
    cases hs
    rw [nameVanished_contexts]
    exact held_twice h hpos _ fun hstarted hhead => hkept hstarted (hhandlers ▸ hhead)
  | proxyCreated attempt ok =>
    obtain ⟨hawaits, he⟩ := Option.ite_none_right_eq_some.mp hs
    cases he
    obtain ⟨i, hi, hlive, _⟩ := awaits_spec hawaits (by decide)
    cases ok with
    | true =>
      show Held (o.connection.setStage attempt .getInterfaceVersion).contexts start
      rw [setStage_contexts hi hlive (by decide)]
      exact h
    | false => exact held_initFree h none hi hlive rfl rfl rfl rfl
  | gotInterfaceVersion attempt version =>
    obtain ⟨hawaits, he⟩ := Option.ite_none_right_eq_some.mp hs
    cases he
    obtain ⟨i, hi, hlive, _⟩ := awaits_spec hawaits (by decide)
    cases version with
    | none => exact held_initFree h none hi hlive rfl rfl rfl rfl
    | some version =>
      show Held _ (start.access .use)
      rw [h.use hpos]
      have hcontexts : (o.connection.initGetInterfaceVersionFinished attempt
          (some version)).contexts = o.connection.contexts := by
        unfold ClientConnection.initGetInterfaceVersionFinished
        dsimp only
        split
        · exact setStage_contexts (c := { o.connection with apiVersion := version }) hi hlive
            (by decide)
        · exact setStage_contexts (c := { o.connection with apiVersion := version }) hi hlive
            (by decide)
      rw [hcontexts]
      exact h
  | gotAll attempt result =>
    obtain ⟨hawaits, he⟩ := Option.ite_none_right_eq_some.mp hs
    cases he
    obtain ⟨i, hi, hlive, _⟩ := awaits_spec hawaits (by decide)
    cases result with
    | none => exact held_initFree h none hi hlive rfl rfl rfl rfl
    | some result =>
      obtain ⟨level, entries⟩ := result
      exact held_initFree (d := { o.connection with
        memory := (DBusLogClient.decodeCategories entries (o.connection.memory, .empty)).1
        defaultLevel := level.toUInt32 }) h (some _) hi hlive rfl rfl rfl rfl
  | gotAll2 attempt result =>
    obtain ⟨hawaits, he⟩ := Option.ite_none_right_eq_some.mp hs
    cases he
    obtain ⟨i, hi, hlive, _⟩ := awaits_spec hawaits (by decide)
    cases result with
    | none => exact held_initFree h none hi hlive rfl rfl rfl rfl
    | some result =>
      obtain ⟨level, entries, backlog⟩ := result
      exact held_initFree (d := { o.connection with
        memory := (DBusLogClient.decodeCategories entries (o.connection.memory, .empty)).1
        defaultLevel := level.toUInt32
        backlog := backlog }) h (some _) hi hlive rfl rfl rfl rfl
  | start =>
    cases hs
    rw [start_contexts]
    show Held _ ((start.access .use).accesses _)
    rw [h.use hpos]
    split
    · exact h.ref hpos
    · exact h
  | cancel call =>
    obtain ⟨_, he⟩ := Option.ite_none_right_eq_some.mp hs
    cases he
    have hsame : SameContexts o.connection (o.connection.callCancel call) :=
      ⟨rfl, List.map_modify_of_eq fun _ => rfl⟩
    rw [hsame.contexts]
    exact h
  | logOpened call result =>
    obtain ⟨hmay, he⟩ := Option.ite_none_right_eq_some.mp hs
    cases he
    obtain ⟨k, hk, hmay⟩ := (Option.any_eq_true _ _).mp hmay
    have hcontexts := startFinished_contexts hk (Bool.and_eq_true_iff.mp hmay).1 result
    have hnone := (o.connection.startFinishedAccesses_plain call result).2
    rw [← hcontexts] at h
    have hheld := held_context h (o.connection.startFinishedAccesses_plain call result).1
    rw [List.count_eq_zero_of_not_mem hnone] at hheld
    exact hheld
  | receiverClosed =>
    obtain ⟨_, he⟩ := Option.ite_none_right_eq_some.mp hs
    cases he
    rw [(stop_sameContexts _ true).contexts]
    exact held_once h hpos _
  | signal signal =>
    cases hs
    show Held o.connection.contexts _
    unfold ClientConnection.eventAccesses
    dsimp only
    split
    · next hhandling =>
      cases signal with
      | categoryAdded name id flags =>
        exact held_twice h hpos true fun hknown hhead =>
          hkept ⟨hhandling, hknown⟩ (hhandlers ▸ hhead)
      | categoryRemoved id => exact held_once h hpos _
      | categoryFlagsChanged id flags => exact held_once h hpos _
      | _ => exact h
    · exact h

/-! ## Every step -/

/-- The client has been finalized, and nothing reaches it any more. -/
structure Finalized (o : ClientObject) : Prop where
  watching : o.watching = false
  closed : o.closed.length = 1
  proxy : o.connection.proxy = none
  receiver : o.connection.receiver = none
  connected : o.connection.connected = false
  handling : o.connection.handling = false

structure LifetimeInv (o : ClientObject) : Prop where
  designating : Designating o.connection
  linked : Linked o.connection
  counts : Counts o.object o.references
  asserted : o.asserted = false
  held : 0 < o.references → o.watching = true ∧ o.closed = []
  finalized : o.references = 0 → Finalized o

theorem new_lifetimeInv (autostartFlag : Bool) : LifetimeInv (new autostartFlag) where
  designating := designating_new autostartFlag
  linked := ⟨rfl, rfl⟩
  counts := RefMemory.owned_empty.alloc ()
  asserted := rfl
  held _ := ⟨rfl, rfl⟩
  finalized hzero := by cases hzero

/-- Without a context there is none to point to. -/
theorem no_context (h : Designating o.connection) (hzero : o.connection.contexts = 0) :
    o.connection.init = none ∧ o.connection.autostart = none := by
  obtain ⟨hinits, hcalls⟩ := Nat.add_eq_zero_iff.mp hzero
  rw [List.countP_eq_zero] at hinits hcalls
  constructor
  · cases hinit : o.connection.init with
    | none => rfl
    | some attempt =>
      obtain ⟨i, hi, hlive, _⟩ := (h.init attempt).mp hinit
      exact absurd (decide_eq_true hlive) (hinits i (List.mem_of_getElem? hi))
  · cases hauto : o.connection.autostart with
    | none => rfl
    | some call =>
      obtain ⟨k, hk, hpending, _⟩ := (h.autostart call).mp hauto
      exact absurd hpending (hcalls k (List.mem_of_getElem? hk))

/-- The last reference is given up: the client has no contexts to point to. -/
theorem finalize_lifetimeInv (hdesignating : Designating o.connection)
    (hlinked : Linked o.connection) (hcounts : Counts o.object o.references)
    (hasserted : o.asserted = false) (hclosed : o.closed = []) (hzero : o.references = 0) :
    LifetimeInv o.finalize := by
  obtain ⟨_, hcontexts⟩ := Nat.add_eq_zero_iff.mp hzero
  obtain ⟨hinit, hauto⟩ := no_context hdesignating hcontexts
  have hsame : o.finalize.references = o.references :=
    congrArg (o.owners + ·) (disconnect_sameContexts o.connection false).contexts
  obtain ⟨_, _, hconnected, hhandling, hproxy, _, _⟩ := disconnect_spec o.connection false hlinked
  obtain ⟨_, _, _, _, hreceiver⟩ := disconnect_contexts o.connection false
  refine ⟨hdesignating.disconnect false, hlinked.disconnect false, ?_, ?_, fun hpos => ?_,
    fun _ => ⟨rfl, ?_, hproxy, ?_, hconnected, hhandling⟩⟩
  · rw [hsame]
    exact hcounts
  · show (o.asserted || o.connection.init.isSome || o.connection.autostart.isSome) = false
    rw [hasserted, hinit, hauto]
    rfl
  · rw [hsame, hzero] at hpos
    exact absurd hpos (Nat.lt_irrefl 0)
  · show (o.closed ++ [_]).length = 1
    rw [hclosed]
    rfl
  · exact hreceiver.trans (stop_calls o.connection false).2.2

/-- A reference may have been given up, the last one or another. -/
theorem release_lifetimeInv {before : RefMemory Unit} (hbefore : before.alive 0 = true)
    (hdesignating : Designating o.connection) (hlinked : Linked o.connection)
    (hcounts : Counts o.object o.references) (hasserted : o.asserted = false)
    (hheld : o.watching = true ∧ o.closed = []) : LifetimeInv (o.release before) := by
  unfold release
  by_cases hpos : 0 < o.references
  · have halive := hcounts.alive_iff.mpr hpos
    rw [hbefore, halive]
    refine ⟨hdesignating, hlinked, hcounts, hasserted, fun _ => hheld, fun hzero => ?_⟩
    have hne : o.references ≠ 0 := Nat.pos_iff_ne_zero.mp hpos
    exact absurd hzero hne
  · have hdead : o.object.alive 0 = false :=
      Bool.eq_false_of_not_eq_true fun halive => hpos (hcounts.alive_iff.mp halive)
    rw [hbefore, hdead]
    exact finalize_lifetimeInv hdesignating hlinked hcounts hasserted hheld.2
      (Nat.eq_zero_of_not_pos hpos)


/-- Without a reference only signals of the proxy are left, and nobody listens to them. -/
theorem LifetimeInv.quiet (h : LifetimeInv o) (hzero : o.references = 0) {e : ClientEvent}
    (hpermits : o.permits e = true) (hs : o.connection.step e = some c') :
    o.connection.eventAccesses e = [] ∧ c' = o.connection := by
  obtain ⟨howners, hcontexts⟩ := Nat.add_eq_zero_iff.mp hzero
  obtain ⟨hinits, hcalls⟩ := Nat.add_eq_zero_iff.mp hcontexts
  rw [List.countP_eq_zero] at hinits hcalls
  have hgone := h.finalized hzero
  have hended : ∀ {attempt : Nat} {stage : InitStage} {ok : Bool},
      (∀ ok, stage ≠ .freed ok) → o.connection.awaits attempt stage ok ≠ true := by
    intro attempt stage ok hstage hawaits
    obtain ⟨i, hi, hlive, _⟩ := awaits_spec hawaits hstage
    exact hinits i (List.mem_of_getElem? hi) (decide_eq_true hlive)
  cases e with
  | nameAppeared => cases hgone.watching.symm.trans (Bool.and_eq_true_iff.mp hpermits).1
  | nameVanished => cases hgone.watching.symm.trans (Bool.and_eq_true_iff.mp hpermits).1
  | proxyCreated attempt ok =>
    exact absurd (Option.ite_none_right_eq_some.mp hs).1 (hended (by decide))
  | gotInterfaceVersion attempt version =>
    exact absurd (Option.ite_none_right_eq_some.mp hs).1 (hended (by decide))
  | gotAll attempt result =>
    exact absurd (Option.ite_none_right_eq_some.mp hs).1 (hended (by decide))
  | gotAll2 attempt result =>
    exact absurd (Option.ite_none_right_eq_some.mp hs).1 (hended (by decide))
  | start =>
    have hpos : 0 < o.owners := of_decide_eq_true hpermits
    omega
  | cancel call =>
    obtain ⟨k, hk, hmay⟩ := (Option.any_eq_true _ _).mp (Option.ite_none_right_eq_some.mp hs).1
    exact absurd (Bool.and_eq_true_iff.mp hmay).1 (hcalls k (List.mem_of_getElem? hk))
  | logOpened call result =>
    obtain ⟨k, hk, hmay⟩ := (Option.any_eq_true _ _).mp (Option.ite_none_right_eq_some.mp hs).1
    exact absurd (Bool.and_eq_true_iff.mp hmay).1 (hcalls k (List.mem_of_getElem? hk))
  | receiverClosed =>
    have hreceiver := (Option.ite_none_right_eq_some.mp hs).1
    rw [hgone.receiver] at hreceiver
    cases hreceiver
  | signal signal =>
    cases hs
    have hdeaf : ¬o.connection.handling = true := by
      rw [hgone.handling]
      exact Bool.false_ne_true
    constructor
    · exact if_neg hdeaf
    · unfold DBusLogClient.handle
      rw [if_neg hdeaf]

/-- A function of the client has run. -/
theorem LifetimeInv.visit (h : LifetimeInv o) (hpos : 0 < o.references) {as : List RefAccess}
    {handlers : List Nat} (hdesignating : Designating c) (hlinked : Linked c)
    (hheld : Held c.contexts ((⟨o.object, o.owners, handlers⟩ : AccessedObject).accesses as)) :
    LifetimeInv (o.visit as handlers c) :=
  release_lifetimeInv (h.counts.alive_iff.mpr hpos) hdesignating hlinked hheld h.asserted
    (h.held hpos)

/-- With a receiver there is a reference. -/
theorem LifetimeInv.references_pos (h : LifetimeInv o)
    (hreceiver : o.connection.receiver.isSome = true) : 0 < o.references := by
  by_contra hnone
  rw [(h.finalized (Nat.eq_zero_of_not_pos hnone)).receiver] at hreceiver
  cases hreceiver

theorem LifetimeInv.report (h : LifetimeInv o) (present : Option Bool) :
    LifetimeInv { o with present := present } where
  designating := h.designating
  linked := h.linked
  counts := h.counts
  asserted := h.asserted
  held := h.held
  finalized hzero :=
    have hgone := h.finalized hzero
    ⟨hgone.watching, hgone.closed, hgone.proxy, hgone.receiver, hgone.connected, hgone.handling⟩

/-- Step lemma. -/
theorem LifetimeInv.step (h : LifetimeInv o) {e : LifetimeEvent} (hkept : o.Kept e)
    (hs : o.step e = some o') : LifetimeInv o' := by
  have hnotzero : 0 < o.owners → 0 < o.references := fun hpos => Nat.add_pos_left hpos _
  cases e with
  | ref =>
    obtain ⟨howners, he⟩ := Option.ite_none_right_eq_some.mp hs
    cases he
    have hpos := hnotzero howners
    have hmore : ({ o with
        object := o.object.ref 0
        owners := o.owners + 1 } : ClientObject).references = o.references + 1 :=
      Nat.add_right_comm _ _ _
    refine ⟨h.designating, h.linked, ?_, h.asserted, fun _ => h.held hpos, fun hzero => ?_⟩
    · rw [hmore]
      exact h.counts.ref hpos
    · rw [hmore] at hzero
      cases hzero
  | unref =>
    obtain ⟨howners, he⟩ := Option.ite_none_right_eq_some.mp hs
    cases he
    have hpos := hnotzero howners
    refine release_lifetimeInv (h.counts.alive_iff.mpr hpos) h.designating h.linked ?_ h.asserted
      (h.held hpos)
    apply Counts.unref
    have hless : o.owners - 1 + o.connection.contexts + 1 = o.references := by
      unfold references
      omega
    exact hless ▸ h.counts
  | event e handlers =>
    obtain ⟨hpermits, he⟩ := Option.ite_none_right_eq_some.mp hs
    obtain ⟨c', hc, rfl⟩ := Option.map_eq_some_iff.mp he
    have hreported := h.report (e.name?.or o.present)
    by_cases hpos : 0 < o.references
    · exact hreported.visit hpos (h.designating.step hc) (h.linked.step hc)
        (held_event h.counts hpos hkept hc)
    · obtain ⟨hnone, rfl⟩ := h.quiet (Nat.eq_zero_of_not_pos hpos) hpermits hc
      rw [hnone]
      unfold ClientObject.visit release
      simp only [AccessedObject.accesses_nil, Bool.and_not_self, Bool.false_eq_true, if_false]
      exact hreported
  | message handlers =>
    obtain ⟨hreceiver, he⟩ := Option.ite_none_right_eq_some.mp hs
    cases he
    have hpos := h.references_pos hreceiver
    exact h.visit hpos h.designating h.linked
      (held_once (s := ⟨o.object, o.owners, handlers⟩) h.counts hpos true)
  | skip handlers =>
    obtain ⟨hreceiver, he⟩ := Option.ite_none_right_eq_some.mp hs
    cases he
    have hpos := h.references_pos hreceiver
    exact h.visit hpos h.designating h.linked
      (AccessedObject.Held.emit (s := ⟨o.object, o.owners, handlers⟩) h.counts hpos)

/-! ## Runs -/

theorem release_object (o : ClientObject) (before : RefMemory Unit) :
    (o.release before).object = o.object := by
  unfold release
  split
  · rfl
  · rfl

/-- Misuse is not forgotten. -/
theorem step_faulted {e : LifetimeEvent} (h : o.object.faulted = true) (hs : o.step e = some o') :
    o'.object.faulted = true := by
  cases e with
  | ref =>
    obtain ⟨_, he⟩ := Option.ite_none_right_eq_some.mp hs
    cases he
    exact RefMemory.faulted_ref h
  | unref =>
    obtain ⟨_, he⟩ := Option.ite_none_right_eq_some.mp hs
    cases he
    rw [release_object]
    exact RefMemory.faulted_unref h
  | event e handlers =>
    obtain ⟨_, he⟩ := Option.ite_none_right_eq_some.mp hs
    obtain ⟨c', _, rfl⟩ := Option.map_eq_some_iff.mp he
    unfold ClientObject.visit
    rw [release_object]
    exact AccessedObject.accesses_faulted h _
  | message handlers =>
    obtain ⟨_, he⟩ := Option.ite_none_right_eq_some.mp hs
    cases he
    unfold ClientObject.visit
    rw [release_object]
    exact AccessedObject.accesses_faulted h _
  | skip handlers =>
    obtain ⟨_, he⟩ := Option.ite_none_right_eq_some.mp hs
    cases he
    unfold ClientObject.visit
    rw [release_object]
    exact AccessedObject.accesses_faulted h _

/-- The first handlers give up the last reference, and the function goes on. -/
theorem LifetimeInv.faults (h : LifetimeInv o) {e : LifetimeEvent} (hkept : ¬o.Kept e)
    (hs : o.step e = some o') : o'.object.faulted = true := by
  cases e with
  | event e handlers =>
    obtain ⟨hgoes, hrest⟩ := Classical.not_imp.mp hkept
    obtain ⟨hhandlers, hnone⟩ := Classical.not_imp.mp hrest
    have hzero := Nat.eq_zero_of_not_pos hnone
    obtain ⟨hpermits, he⟩ := Option.ite_none_right_eq_some.mp hs
    obtain ⟨c', _, rfl⟩ := Option.map_eq_some_iff.mp he
    unfold ClientObject.visit
    rw [release_object]
    cases e with
    | nameVanished =>
      have hpos : 0 < o.references := by
        by_contra hdead
        cases (h.finalized (Nat.eq_zero_of_not_pos hdead)).watching.symm.trans
          (Bool.and_eq_true_iff.mp hpermits).1
      have hstarted : o.connection.started = true := hgoes
      show (AccessedObject.accesses _ (o.connection.disconnectAccesses)).object.faulted = true
      unfold ClientConnection.disconnectAccesses ClientConnection.stopAccesses
      rw [if_pos hstarted]
      exact faulted_twice (s := ⟨o.object, o.owners, handlers⟩) h.counts hpos hzero hhandlers _
    | signal signal =>
      cases signal with
      | categoryAdded name id flags =>
        obtain ⟨hhandling, hknown⟩ := hgoes
        have hpos : 0 < o.references := by
          by_contra hdead
          cases (h.finalized (Nat.eq_zero_of_not_pos hdead)).handling.symm.trans hhandling
        show (AccessedObject.accesses _ (if o.connection.handling then _ else _)).object.faulted =
          true
        rw [if_pos hhandling]
        unfold ClientConnection.signalAccesses
        dsimp only
        rw [if_pos hknown]
        exact faulted_twice (s := ⟨o.object, o.owners, handlers⟩) h.counts hpos hzero hhandlers _
      | _ => exact absurd hgoes id
    | _ => exact absurd hgoes id
  | _ => exact absurd trivial hkept

/-- Which runs misuse nothing -/
theorem meets_iff_clean {autostartFlag : Bool} {events : List LifetimeEvent}
    (hrun : Runs.run step (new autostartFlag) events = some o) :
    Runs.Meets step Kept (new autostartFlag) events ↔ o.object.faulted = false := by
  rw [← Bool.not_eq_true]
  exact Runs.meets_iff_not (P := LifetimeInv) (F := fun o => o.object.faulted = true)
    (fun _ _ _ h hkept hs => h.step hkept hs) (fun _ _ _ h hlost hs => h.faults hlost hs)
    (fun _ _ _ h hs => step_faulted h hs) (fun _ h => Bool.eq_false_iff.mp h.counts.clean) hrun
    (new_lifetimeInv autostartFlag)

/-- A client is finalized once, when nothing is left, whatever handlers do with references. A
client that has been freed is used if and only if in some step a function goes on with the client
after its first signal, whose handlers have given up the last reference there is. Otherwise the
client is alive exactly as long as the application has a reference, an attempt has not come to its
end or a call is pending; until then the name is watched. It is finalized once, points to no
attempt and to no call of autostart then, and has no proxy, no receiver and no handlers left. -/
theorem finalizedOnce (autostartFlag : Bool) (events : List LifetimeEvent) (o : ClientObject)
    (hrun : Runs.run step (new autostartFlag) events = some o) :
    (o.object.faulted = false ↔ Runs.Meets step Kept (new autostartFlag) events) ∧
    (o.object.faulted = false →
      o.asserted = false ∧
      (o.object.alive 0 = true ↔ 0 < o.owners ∨ (∃ i ∈ o.connection.inits, i.Live) ∨
        ∃ k ∈ o.connection.calls, k.pending = true) ∧
      (o.object.alive 0 = true → o.watching = true ∧ o.closed = []) ∧
      (o.object.alive 0 = false → Finalized o)) := by
  refine ⟨(meets_iff_clean hrun).symm, fun hclean => ?_⟩
  have h : LifetimeInv o := Runs.invariant_of_meets (P := LifetimeInv)
    (fun _ _ _ h hkept hs => h.step hkept hs) ((meets_iff_clean hrun).mpr hclean) hrun
    (new_lifetimeInv autostartFlag)
  refine ⟨h.asserted, ?_, fun halive => h.held (h.counts.alive_iff.mp halive),
    fun hdead => h.finalized ?_⟩
  · rw [h.counts.alive_iff]
    unfold references ClientConnection.contexts
    rw [Nat.add_pos_iff_pos_or_pos, Nat.add_pos_iff_pos_or_pos, List.countP_pos_iff,
      List.countP_pos_iff]
    simp only [decide_eq_true_eq]
  · by_contra hne
    have halive := h.counts.alive_iff.mpr (Nat.pos_iff_ne_zero.mpr hne)
    exact Bool.false_ne_true (hdead.symm.trans halive)

/-- The application gives up its reference while the client connects, in the handlers for the
connection. The client is finalized after the call of autostart, with a session to close. -/
def abandoned : List LifetimeEvent :=
  [.event .nameAppeared [], .event (.proxyCreated 0 true) [],
    .event (.gotInterfaceVersion 0 (some 2)) [], .event (.gotAll2 0 (some (6, [], 100))) [0],
    .event (.logOpened 0 (some ([7], 5))) []]

/-- The handlers for the end of capturing give up the last reference when the name vanishes. -/
def dropped : List LifetimeEvent :=
  [.event .nameAppeared [], .event (.proxyCreated 0 true) [],
    .event (.gotInterfaceVersion 0 (some 1)) [], .event (.gotAll 0 (some (6, []))) [],
    .event (.logOpened 0 (some ([7], 5))) [], .event .nameVanished [0]]

theorem finalizedOnce_abandoned : ∃ o t, Runs.run step (new true) abandoned = some o ∧
    Runs.run step (new true) dropped = some t ∧ o.closed = [some 5] ∧ Finalized o ∧
    ¬Runs.Meets step Kept (new true) dropped := by
  obtain ⟨o, ho, he⟩ := Option.map_eq_some_iff.mp (by decide +kernel :
    (Runs.run step (new true) abandoned).map (fun o =>
      (o.closed, o.object.alive 0, o.object.faulted)) = some ([some 5], false, false))
  obtain ⟨hclosed, hrest⟩ := Prod.mk.inj he
  obtain ⟨hdead, hclean⟩ := Prod.mk.inj hrest
  obtain ⟨t, ht, hfaulted⟩ := Option.map_eq_some_iff.mp (by decide +kernel :
    (Runs.run step (new true) dropped).map (fun o => o.object.faulted) = some true)
  refine ⟨o, t, ho, ht, hclosed, ((finalizedOnce true abandoned o ho).2 hclean).2.2.2 hdead,
    fun hmeets => ?_⟩
  cases hfaulted.symm.trans ((finalizedOnce true dropped t ht).1.mpr hmeets)

end ClientObject

end DBusLog

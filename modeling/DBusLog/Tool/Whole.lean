import DBusLog.Client.Lifetime
import DBusLog.Tool.Exit
import DBusLog.Tool.Reset

/-!
# The whole tool

`App` is the tool as far as it enables and disables categories, and `ToolApp` is all of it. While
the actions that are left do nothing but that, or list the categories, each function of the whole
tool does to the part of it that `App` has what the function of `App` does. So what the tool does
with its server is a run of the main loop.
-/

namespace DBusLog

/-- The action, if it enables or disables categories. -/
def ToolAction.switching? : ToolAction → Option AppAction
  | .enableAll => some .enableAll
  | .disableAll => some .disableAll
  | .enable pattern => some (.enable pattern)
  | .disable pattern => some (.disable pattern)
  | .reset => some .reset
  | .list | .setLevel _ | .setBacklog _ => none

/-- `App` has the action, or it makes no call. -/
def ToolAction.Switches (action : ToolAction) : Prop :=
  action = .list ∨ action.switching?.isSome = true

/-- There is no `GError`. -/
def Reply.ok : Reply → Bool
  | .methodReturn _ => true
  | .error _ _ => false

namespace ToolApp

/-- The calls as `App` has them. -/
def appCalls (calls : List ToolCall) : List AppCall :=
  calls.mapIdx fun handle k => ⟨handle, k.call, k.awaited⟩

/-- The part of the tool that `App` has, when the server has got the calls up to `served`. -/
def toApp (app : ToolApp) (served : Nat) : App where
  client := app.client.toDBusLogClient
  actions := app.actions.filterMap ToolAction.switching?
  call := app.call
  follow := app.follow
  ret := app.ret
  ended := if 0 < app.quits then some .quit
    else if 0 < app.messageHandlers then some .follow else none
  requests := (appCalls app.calls).drop served
  calls := app.calls.length

/-- There is a proxy while the client is connected, and the server has got only calls that have been
made. -/
structure Plugged (app : ToolApp) (served : Nat) : Prop where
  linked : app.client.proxy.isSome = app.client.connected
  served : served ≤ app.calls.length

/-- What the function of an action does to both tools. -/
def Both (served : Nat) (app : ToolApp) (r : Option Nat × ToolApp) (a : Option Nat × App) : Prop :=
  r.1 = a.1 ∧ r.2.toApp served = a.2 ∧ r.2.Plugged served ∧ r.2.client = app.client

section Functions

variable {app : ToolApp} {served number : Nat}

theorem appCalls_reply (calls : List ToolCall) (i : Nat) (ok : Bool) :
    appCalls (calls.modify i fun k => { k with reply := some ok }) = appCalls calls := by
  unfold appCalls
  apply List.ext_getElem?
  intro j
  rw [List.getElem?_mapIdx, List.getElem?_mapIdx, List.getElem?_modify]
  cases calls[j]? with
  | none => rfl
  | some k =>
    by_cases hij : i = j
    · simp [hij]
    · simp [hij]

theorem appCalls_concat (calls : List ToolCall) (k : ToolCall) :
    appCalls (calls ++ [k]) = appCalls calls ++ [⟨calls.length, k.call, k.awaited⟩] :=
  List.mapIdx_concat

theorem length_appCalls (calls : List ToolCall) : (appCalls calls).length = calls.length :=
  List.length_mapIdx

theorem Both.nothing (h : app.Plugged served) :
    Both served app (none, app) (none, app.toApp served) := ⟨rfl, rfl, h, rfl⟩

theorem callNew_both (h : app.Plugged served) (number : Nat) (call : LoggerCall) (fn : Bool) :
    Both served app (app.callNew number call fn) ((app.toApp served).callNew call fn) := by
  unfold callNew App.callNew
  by_cases hproxy : app.client.proxy.isSome = true
  · have hconnected : (app.toApp served).client.connected = true := h.linked.symm.trans hproxy
    rw [if_pos hproxy, if_pos hconnected]
    refine ⟨rfl, ?_, ⟨h.linked, ?_⟩, rfl⟩
    · unfold toApp
      dsimp only
      rw [appCalls_concat, List.drop_append_of_le_length
        (by rw [length_appCalls]; exact h.served), List.length_append]
      rfl
    · exact h.served.trans (by simp)
  · have hconnected : ¬(app.toApp served).client.connected = true := fun hc =>
      hproxy (h.linked.trans hc)
    rw [if_neg hproxy, if_neg hconnected]
    exact .nothing h

theorem switchCategories_both (h : app.Plugged served) (number : Nat) (enable : Bool)
    (names : List String) (fn : Bool) :
    Both served app (app.switchCategories number enable names fn)
      (if enable then (app.toApp served).enableCategories names fn
        else (app.toApp served).disableCategories names fn) := by
  unfold switchCategories App.enableCategories App.disableCategories
  by_cases hnames : names = []
  · rw [if_neg (not_not_intro hnames), if_neg (not_not_intro hnames),
      if_neg (not_not_intro hnames), ite_self]
    exact .nothing h
  · rw [if_pos hnames, if_pos hnames, if_pos hnames]
    cases enable with
    | true => exact callNew_both h number _ fn
    | false => exact callNew_both h number _ fn

theorem actionReset_both (h : app.Plugged served) (number : Nat) :
    Both served app (app.actionReset number) (app.toApp served).actionReset := by
  unfold actionReset App.actionReset
  have hshown : (app.toApp served).client.shownCategories = app.client.shownCategories := rfl
  rw [hshown]
  generalize App.resetNames app.client.shownCategories = lists
  obtain ⟨enable, disable⟩ := lists
  dsimp only
  by_cases hany : enable ≠ [] ∨ disable ≠ []
  · rw [if_pos hany, if_pos hany]
    by_cases hboth : enable ≠ [] ∧ disable ≠ []
    · rw [if_pos hboth, if_pos hboth]
      -- the second call is made by what the first one has left
      obtain ⟨_, hfirst, hplugged, hclient⟩ :=
        switchCategories_both h number true enable false
      have hsecond := switchCategories_both hplugged number false disable true
      rw [hfirst] at hsecond
      exact ⟨hsecond.1, hsecond.2.1, hsecond.2.2.1, hsecond.2.2.2.trans hclient⟩
    · rw [if_neg hboth, if_neg hboth]
      by_cases henable : enable ≠ []
      · rw [if_pos henable, if_pos henable]
        exact switchCategories_both h number true enable true
      · rw [if_neg henable, if_neg henable]
        exact switchCategories_both h number false disable true
  · rw [if_neg hany, if_neg hany]
    exact .nothing h

theorem runAction_both (h : app.Plugged served) (number : Nat) {action : ToolAction}
    {a : AppAction} (ha : action.switching? = some a) :
    Both served app (app.runAction number action) ((app.toApp served).runAction a) := by
  cases action with
  | list => cases ha
  | setLevel value => cases ha
  | setBacklog value => cases ha
  | enableAll =>
    cases ha
    exact callNew_both h number _ true
  | disableAll =>
    cases ha
    exact callNew_both h number _ true
  | enable pattern =>
    cases ha
    exact callNew_both h number _ true
  | disable pattern =>
    cases ha
    exact callNew_both h number _ true
  | reset =>
    cases ha
    exact actionReset_both h number

/-! ## The next action -/

/-- The loop sets the rest of the actions itself. -/
theorem appRunActions_actions (a : App) (actions rest : List AppAction) :
    App.runActions actions { a with actions := rest } = App.runActions actions a := by
  cases actions with
  | nil => rfl
  | cons action actions =>
    unfold App.runActions
    rfl

theorem runActions_toApp (actions : List ToolAction) (h : app.Plugged served)
    (hswitches : ∀ action ∈ actions, action.Switches) :
    (runActions actions app).toApp served =
        App.runActions (actions.filterMap ToolAction.switching?) (app.toApp served) ∧
      (runActions actions app).Plugged served := by
  induction actions generalizing app with
  | nil => exact ⟨rfl, h.linked, h.served⟩
  | cons action rest ih =>
    have hrest : ∀ action ∈ rest, action.Switches := fun b hb =>
      hswitches b (List.mem_cons_of_mem _ hb)
    by_cases hcall : app.call = none
    · rw [runActions_cons hcall]
      have hbegun : Plugged { app with actions := rest, begun := app.begun + 1 } served :=
        ⟨h.linked, h.served⟩
      rcases hswitches action (List.mem_cons_self ..) with rfl | hsome
      · -- a list of the categories is printed, and that is all
        have hturned : (app.turned .list rest).toApp served =
            { app.toApp served with actions := rest.filterMap ToolAction.switching? } := by
          unfold toApp
          dsimp only
          rw [hcall]
          rfl
        have hlisted : (app.turned .list rest).Plugged served := ⟨h.linked, h.served⟩
        obtain ⟨htoApp, hplugged⟩ := ih hlisted hrest
        rw [hturned, appRunActions_actions] at htoApp
        exact ⟨htoApp, hplugged⟩
      · obtain ⟨a, ha⟩ := Option.isSome_iff_exists.mp hsome
        obtain ⟨hfst, hsnd, hplugged, _⟩ := runAction_both hbegun app.begun ha
        have hdone : (app.turned action rest).Plugged served := ⟨hplugged.linked, hplugged.served⟩
        obtain ⟨htoApp, hkept⟩ := ih hdone hrest
        refine ⟨htoApp.trans ?_, hkept⟩
        rw [List.filterMap_cons_some ha]
        have hnone : (app.toApp served).call.isNone = true := by
          show app.call.isNone = true
          rw [hcall]
          rfl
        rw [App.runActions, if_pos hnone]
        have hbefore : toApp { app with actions := rest, begun := app.begun + 1 } served =
            { app.toApp served with actions := rest.filterMap ToolAction.switching? } := rfl
        rw [hbefore] at hfst hsnd
        dsimp only at hfst hsnd ⊢
        rw [← hfst, ← hsnd]
        rfl
    · rw [runActions_busy hcall]
      obtain ⟨handle, hhandle⟩ := Option.ne_none_iff_exists'.mp hcall
      have hbusy : (app.toApp served).call = some handle := hhandle
      exact ⟨(DBusLog.runActions_busy hbusy _).symm,
        h.linked, h.served⟩

theorem quit_toApp (app : ToolApp) (served : Nat) :
    app.quit.toApp served = { app.toApp served with ended := some .quit } := by
  unfold quit toApp
  dsimp only
  rw [if_pos (Nat.succ_pos app.quits)]

/-- Two states that `App` tells apart only by how the tool has ended. -/
theorem toApp_same {app' : ToolApp} (hledger : SameLedger app app')
    (hclient : app'.client.toDBusLogClient = app.client.toDBusLogClient)
    (hfollow : app'.follow = app.follow) (hret : app'.ret = app.ret) :
    app'.toApp served = { app.toApp served with ended := (app'.toApp served).ended } := by
  unfold toApp
  dsimp only
  rw [hledger.actions, hledger.calls, hledger.call, hclient, hfollow, hret]

/-- The tool has not been told to quit yet. -/
theorem nextAction_toApp (h : app.Plugged served)
    (hswitches : ∀ action ∈ app.actions, action.Switches) (hquits : app.quits = 0)
    (hhandlers : app.messageHandlers ≤ 1) :
    app.nextAction.toApp served = (app.toApp served).nextAction ∧
      app.nextAction.Plugged served := by
  obtain ⟨htoApp, hplugged⟩ := runActions_toApp app.actions h hswitches
  have hloop := (runActions_frame app app.actions).1
  have hactions : (app.toApp served).actions =
      app.actions.filterMap ToolAction.switching? := rfl
  unfold nextAction App.nextAction
  dsimp only
  rw [hactions, ← htoApp]
  generalize runActions app.actions app = b at hplugged hloop ⊢
  have hquiet : b.quits = 0 := hloop.quits.trans hquits
  by_cases hcall : b.call.isNone = true
  · have hcall' : (b.toApp served).call.isNone = true := hcall
    rw [if_pos hcall, if_pos hcall']
    by_cases hfollow : b.follow = true
    · obtain ⟨hsame, hf, hret, hq, _, hone⟩ := appFollow_same b (hloop.messageHandlers ▸ hhandlers)
      have hundisturbed : ClientConnection.Undisturbed b.client b.appFollow.client := by
        rcases appFollow_client b with hclient | hclient
        · rw [hclient]
          exact .refl b.client
        · rw [hclient]
          exact ClientConnection.start_undisturbed b.client .application
      have hended : (b.appFollow.toApp served).ended = some .follow := by
        unfold toApp
        dsimp only
        rw [hq, hquiet, hone]
        rfl
      have hfollow' : (b.toApp served).follow = true := hfollow
      rw [if_pos hfollow, if_pos hfollow',
        toApp_same hsame hundisturbed.client hf hret, hended]
      refine ⟨rfl, ?_, ?_⟩
      · rw [hundisturbed.proxy, hundisturbed.client]
        exact hplugged.linked
      · rw [hsame.calls]
        exact hplugged.served
    · have hfollow' : ¬(b.toApp served).follow = true := hfollow
      rw [if_neg hfollow, if_neg hfollow', quit_toApp]
      exact ⟨rfl, hplugged.linked, hplugged.served⟩
  · have hcall' : ¬(b.toApp served).call.isNone = true := hcall
    rw [if_neg hcall, if_neg hcall']
    exact ⟨rfl, hplugged⟩

/-! ## The end of a call -/

theorem actionCallDone_toApp (h : app.Plugged served)
    (hswitches : ∀ action ∈ app.actions, action.Switches) (hquits : app.quits = 0)
    (hhandlers : app.messageHandlers ≤ 1) (number : Nat) (reply : Reply) :
    (app.actionCallDone number reply.ok).toApp served =
        (app.toApp served).actionCallDone reply ∧
      (app.actionCallDone number reply.ok).Plugged served := by
  cases reply with
  | methodReturn values =>
    have hdone : ({ app with call := none }.freeAction number).Plugged served :=
      ⟨h.linked, h.served⟩
    exact nextAction_toApp hdone hswitches hquits hhandlers
  | error type message =>
    exact ⟨quit_toApp { app with call := none, freed := number :: app.freed, ret := retErr } served,
      h.linked, h.served⟩

/-- A call that has not been cancelled ends. -/
theorem genericCallFinished_toApp (h : app.Plugged served)
    (hswitches : ∀ action ∈ app.actions, action.Switches) (hhandlers : app.messageHandlers ≤ 1)
    {i : Nat} {k : ToolCall} (hk : app.calls[i]? = some k) (hfn : k.fn = k.awaited)
    (hquits : k.fn = true → app.quits = 0) (reply : Reply) :
    (app.genericCallFinished i reply.ok).toApp served =
        (app.toApp served).genericCallFinished ⟨i, k.call, k.awaited⟩ reply ∧
      (app.genericCallFinished i reply.ok).Plugged served := by
  have hmodified : Plugged { app with
      calls := app.calls.modify i fun k => { k with reply := some reply.ok } } served :=
    ⟨h.linked, h.served.trans (by rw [List.length_modify])⟩
  have htoApp : toApp { app with
      calls := app.calls.modify i fun k => { k with reply := some reply.ok } } served =
        app.toApp served := by
    unfold toApp
    dsimp only
    rw [appCalls_reply, List.length_modify]
  unfold genericCallFinished App.genericCallFinished
  rw [hk]
  dsimp only
  rw [← hfn, ← htoApp]
  cases hcallback : k.fn with
  | true =>
    rw [if_pos rfl, if_pos rfl]
    exact actionCallDone_toApp hmodified hswitches (hquits hcallback) hhandlers k.action reply
  | false =>
    rw [if_neg (by simp), if_neg (by simp)]
    exact ⟨rfl, hmodified⟩

/-! ## What the loop leaves alone -/

theorem nextAction_frame (app : ToolApp) (hhandlers : app.messageHandlers ≤ 1) :
    app.nextAction.running = app.running ∧
      (app.nextAction.call ≠ none → app.nextAction.quits = app.quits) ∧
      ClientConnection.Undisturbed app.client app.nextAction.client ∧
      ∃ added, app.nextAction.calls = app.calls ++ added ∧ ∀ k ∈ added, k.New := by
  obtain ⟨hloop, hadded⟩ := runActions_frame app app.actions
  unfold nextAction
  dsimp only
  generalize runActions app.actions app = b at hloop hadded ⊢
  have hclient : ClientConnection.Undisturbed app.client b.client := by
    rw [hloop.client]
    exact .refl app.client
  split
  next hcall =>
    split
    · obtain ⟨hsame, _, _, _, hrunning, _⟩ := appFollow_same b (hloop.messageHandlers ▸ hhandlers)
      refine ⟨hrunning.trans hloop.running, fun hne => absurd ?_ hne, ?_, ?_⟩
      · rw [hsame.call]
        exact Option.isNone_iff_eq_none.mp hcall
      · rcases appFollow_client b with hfollow | hfollow
        · rw [hfollow]
          exact hclient
        · rw [hfollow]
          exact hclient.trans (ClientConnection.start_undisturbed b.client .application)
      · rw [hsame.calls]
        exact hadded
    · exact ⟨hloop.running, fun hne => absurd (Option.isNone_iff_eq_none.mp hcall) hne, hclient,
        hadded⟩
  next => exact ⟨hloop.running, fun _ => hloop.quits, hclient, hadded⟩

theorem genericCallFinished_frame (app : ToolApp) (hhandlers : app.messageHandlers ≤ 1) {i : Nat}
    {k : ToolCall} (hk : app.calls[i]? = some k) (ok : Bool) :
    (app.genericCallFinished i ok).running = app.running ∧
      ((app.genericCallFinished i ok).call ≠ none →
        (app.genericCallFinished i ok).quits = app.quits ∧ (k.fn = true ∨ app.call ≠ none)) ∧
      ClientConnection.Undisturbed app.client (app.genericCallFinished i ok).client ∧
      ∃ added, (app.genericCallFinished i ok).calls =
        (app.calls.modify i fun k => { k with reply := some ok }) ++ added ∧
          ∀ k ∈ added, k.New := by
  have hnone : ∀ calls : List ToolCall, ∃ added, calls = calls ++ added ∧ ∀ k ∈ added, k.New :=
    fun calls => ⟨[], (List.append_nil calls).symm, fun _ hk => nomatch hk⟩
  unfold genericCallFinished
  rw [hk]
  dsimp only
  split
  next hfn =>
    cases ok with
    | true =>
      obtain ⟨hrunning, hquits, hrest⟩ := nextAction_frame (freeAction { app with
        calls := app.calls.modify i fun k => { k with reply := some true }
        call := none } k.action) hhandlers
      exact ⟨hrunning, fun hne => ⟨hquits hne, .inl hfn⟩, hrest⟩
    | false => exact ⟨rfl, fun hne => absurd rfl hne, .refl app.client, hnone _⟩
  next => exact ⟨rfl, fun hne => ⟨rfl, .inr hne⟩, .refl app.client, hnone _⟩

end Functions

end ToolApp

/-! ## The tool and the server -/

section Link

variable {Policy β : Type} {settings : ToolSettings} {served : Nat} {t : ToolApp}
  {l : AppLink Policy β}

/-- The link is about the tool `t`. The replies that are on their way are to calls of the tool that
have not ended. -/
structure Wired (settings : ToolSettings) (served : Nat) (t : ToolApp) (l : AppLink Policy β) :
    Prop where
  toApp : l.app = t.toApp served
  inv : ToolApp.ToolInv settings t
  linked : t.client.Linked
  made : served ≤ t.calls.length
  running : t.running = true
  quiet : t.call ≠ none → t.quits = 0
  whole : ∀ k ∈ t.calls, k.awaited = k.fn ∧ k.cancelled = false
  unserved : ∀ i k, served ≤ i → t.calls[i]? = some k → k.reply = none
  replies : ∀ call ∈ l.wire.filterMap AppMessage.call?, call.handle < served ∧
    ∃ k, t.calls[call.handle]? = some k ∧ call = ⟨call.handle, k.call, k.awaited⟩ ∧ k.reply = none
  once : ((l.wire.filterMap AppMessage.call?).map (·.handle)).Nodup

theorem Wired.plugged (h : Wired settings served t l) : t.Plugged served :=
  ⟨h.linked.1, h.made⟩

theorem Wired.switches (h : Wired settings served t l)
    (hswitches : ∀ action ∈ settings.actions, action.Switches) :
    ∀ action ∈ t.actions, action.Switches := fun action haction => by
  rw [h.inv.rest] at haction
  exact hswitches action (List.mem_of_mem_drop haction)

/-- The server gets a call, of which the tool does not know. -/
theorem Wired.serve (h : Wired settings served t l)
    (deliver : DBusLogServer Policy β → LoggerCall → Option (Reply × DBusLogServer Policy β)) :
    ∃ served', Wired settings served' t (l.serve deliver) := by
  unfold AppLink.serve
  have hrequests : l.app.requests = (ToolApp.appCalls t.calls).drop served := by
    rw [h.toApp]
    rfl
  by_cases hlt : served < (ToolApp.appCalls t.calls).length
  · rw [List.drop_eq_getElem_cons hlt] at hrequests
    have hserved : served < t.calls.length := ToolApp.length_appCalls t.calls ▸ hlt
    have hcall : (ToolApp.appCalls t.calls)[served] =
        ⟨served, t.calls[served].call, t.calls[served].awaited⟩ := List.getElem_mapIdx ..
    have hk : t.calls[served]? = some t.calls[served] := List.getElem?_eq_getElem hserved
    have happ : { l.app with requests := (ToolApp.appCalls t.calls).drop (served + 1) } =
        t.toApp (served + 1) := by
      rw [h.toApp]
      rfl
    have hold : ∀ call ∈ l.wire.filterMap AppMessage.call?, call.handle < served + 1 ∧
        ∃ k, t.calls[call.handle]? = some k ∧ call = ⟨call.handle, k.call, k.awaited⟩ ∧
          k.reply = none := fun call hmem =>
      ⟨Nat.lt_succ_of_lt (h.replies call hmem).1, (h.replies call hmem).2⟩
    have hunserved : ∀ i k, served + 1 ≤ i → t.calls[i]? = some k → k.reply = none :=
      fun i k hi => h.unserved i k (Nat.le_of_succ_le hi)
    rw [hrequests]
    dsimp only
    refine ⟨served + 1, ?_⟩
    split
    next reply server _ =>
      have hsignals : ∀ signals : List BusSignal,
          (signals.map AppMessage.signal).filterMap AppMessage.call? = [] := by
        intro signals
        rw [List.filterMap_map]
        exact List.filterMap_eq_nil_iff.mpr fun _ _ => rfl
      have hwire : (l.wire ++ (server.sent.drop l.server.sent.length).map AppMessage.signal ++
          [AppMessage.reply (ToolApp.appCalls t.calls)[served] reply]).filterMap AppMessage.call? =
            l.wire.filterMap AppMessage.call? ++ [(ToolApp.appCalls t.calls)[served]] := by
        rw [List.filterMap_append, List.filterMap_append, hsignals, List.append_nil]
        rfl
      refine ⟨happ, h.inv, h.linked, hserved, h.running, h.quiet, h.whole, hunserved, ?_, ?_⟩
      · show ∀ call ∈ List.filterMap _ _, _
        rw [hwire]
        intro call hmem
        rcases List.mem_append.mp hmem with hmem | hmem
        · exact hold call hmem
        · rw [List.mem_singleton.mp hmem, hcall]
          exact ⟨Nat.lt_succ_self served, _, hk, rfl, h.unserved served _ le_rfl hk⟩
      · show ((List.filterMap _ _).map _).Nodup
        rw [hwire, List.map_append]
        refine List.nodup_append.mpr ⟨h.once, List.nodup_singleton _, ?_⟩
        intro i hi j hj hij
        obtain ⟨call, hmem, rfl⟩ := List.mem_map.mp hi
        rw [hcall] at hj
        have hlast : call.handle = served := hij.trans (List.mem_singleton.mp hj)
        exact absurd (h.replies call hmem).1 (hlast ▸ Nat.lt_irrefl served)
    next =>
      exact ⟨happ, h.inv, h.linked, hserved, h.running, h.quiet, h.whole, hunserved, hold, h.once⟩
  · rw [List.drop_eq_nil_of_le (Nat.le_of_not_lt hlt)] at hrequests
    rw [hrequests]
    exact ⟨served, h⟩

/-- The client of the tool gets a signal. -/
theorem Wired.signal (h : Wired settings served t l) {signal : BusSignal} {wire : List AppMessage}
    (hwire : l.wire = .signal signal :: wire) :
    ∃ t', t.step (.client (.signal signal)) = some t' ∧ Wired settings served t' l.receive := by
  let c : ClientConnection :=
    { t.client with toDBusLogClient := t.client.toDBusLogClient.handle signal }
  have hframe := ClientConnection.handle_frame t.client.toDBusLogClient signal
  have hsilent : { t with client := c }.handleSignals t.client = { t with client := c } := by
    have hnotified : c.notified.drop t.client.notified.length = [] := List.drop_length
    unfold ToolApp.handleSignals
    dsimp only
    rw [hnotified, if_neg List.not_mem_nil]
    refine if_neg fun hconnected => ?_
    have hbefore : c.connected = t.client.connected := hframe.1
    simp [hbefore] at hconnected
  have hclient : t.client.step (.signal signal) = some c := rfl
  have hstep : t.step (.client (.signal signal)) = some { t with client := c } := by
    unfold ToolApp.step
    rw [if_pos h.running]
    exact congrArg some hsilent
  have hreceive : l.receive = { l with
      app := { l.app with client := l.app.client.handle signal }, wire := wire } := by
    unfold AppLink.receive
    rw [hwire]
  have hcalls : wire.filterMap AppMessage.call? = l.wire.filterMap AppMessage.call? := by
    rw [hwire]
    rfl
  refine ⟨_, hstep, ?_, h.inv.step hstep, h.linked.step hclient, h.made, h.running, h.quiet,
    h.whole, h.unserved, ?_, ?_⟩
  · rw [hreceive, h.toApp]
    rfl
  · rw [hreceive]
    exact hcalls ▸ h.replies
  · rw [hreceive]
    exact hcalls ▸ h.once

/-- A call of the tool ends. -/
theorem Wired.reply (h : Wired settings served t l)
    (hswitches : ∀ action ∈ settings.actions, action.Switches) {call : AppCall} {reply : Reply}
    {wire : List AppMessage} (hwire : l.wire = .reply call reply :: wire) :
    ∃ t', t.step (.finished call.handle reply.ok) = some t' ∧
      Wired settings served t' l.receive := by
  have hcalls : l.wire.filterMap AppMessage.call? =
      call :: wire.filterMap AppMessage.call? := by
    rw [hwire]
    rfl
  obtain ⟨hserved, k, hk, hcall, hreply⟩ :=
    h.replies call (by rw [hcalls]; exact List.mem_cons_self ..)
  obtain ⟨hawaited, huncancelled⟩ := h.whole k (List.mem_of_getElem? hk)
  have hmay : t.mayFinish call.handle reply.ok = true := by
    simp [ToolApp.mayFinish, hk, hreply, huncancelled]
  have hstep : t.step (.finished call.handle reply.ok) =
      some (t.genericCallFinished call.handle reply.ok) := by
    unfold ToolApp.step
    rw [if_pos h.running]
    exact if_pos hmay
  -- a call with a function is the one that is awaited
  have hquits : k.fn = true → t.quits = 0 := fun hfn =>
    h.quiet fun hnone => by
      cases hnone.symm.trans ((h.inv.current call.handle).mpr ⟨k, hk, hfn, hreply⟩)
  obtain ⟨htoApp, hplugged⟩ := ToolApp.genericCallFinished_toApp h.plugged
    (h.switches hswitches) h.inv.handlers hk hawaited.symm hquits reply
  obtain ⟨hrunning, hquiet, hsame, added, hadded, hnew⟩ :=
    ToolApp.genericCallFinished_frame t h.inv.handlers hk reply.ok
  have hreceive : l.receive = { l with
      app := l.app.genericCallFinished call reply, wire := wire } := by
    unfold AppLink.receive
    rw [hwire]
  -- the calls that have not ended are as they were
  have hother : ∀ i, i ≠ call.handle → i < t.calls.length →
      (t.genericCallFinished call.handle reply.ok).calls[i]? = t.calls[i]? := by
    intro i hne hlt
    rw [hadded, List.getElem?_append_left (by rw [List.length_modify]; exact hlt),
      List.getElem?_modify]
    cases t.calls[i]? with
    | none => rfl
    | some k => exact congrArg some (if_neg hne.symm)
  have honce := h.once
  rw [hcalls, List.map_cons, List.nodup_cons] at honce
  refine ⟨_, hstep, ?_, h.inv.step hstep, h.linked.undisturbed hsame, hplugged.served,
    hrunning.trans h.running, fun hne => ?_, ?_, ?_, ?_, ?_⟩
  · rw [hreceive, h.toApp, hcall]
    exact htoApp.symm
  · obtain ⟨hquits', hfn | hcalled⟩ := hquiet hne
    · exact hquits'.trans (hquits hfn)
    · exact hquits'.trans (h.quiet hcalled)
  · intro k' hk'
    rw [hadded] at hk'
    rcases List.mem_append.mp hk' with hk' | hk'
    · obtain ⟨k₀, hk₀, j, _, rfl⟩ := ToolApp.mem_modify hk'
      split
      · exact h.whole k₀ hk₀
      · exact h.whole k₀ hk₀
    · exact ⟨(hnew k' hk').awaited, (hnew k' hk').cancelled⟩
  · intro i k' hi hk'
    by_cases hlt : i < t.calls.length
    · rw [hother i (Nat.ne_of_gt (Nat.lt_of_lt_of_le hserved hi)) hlt] at hk'
      exact h.unserved i k' hi hk'
    · rw [hadded, List.getElem?_append_right (by
        rw [List.length_modify]; exact Nat.le_of_not_lt hlt)] at hk'
      exact (hnew k' (List.mem_of_getElem? hk')).reply
  · rw [hreceive]
    intro call' hmem
    have hreplies := h.replies call' (by rw [hcalls]; exact List.mem_cons_of_mem _ hmem)
    have hne : call'.handle ≠ call.handle := fun he =>
      honce.1 (he ▸ List.mem_map_of_mem hmem)
    rw [hother call'.handle hne (Nat.lt_of_lt_of_le hreplies.1 h.made)]
    exact hreplies
  · rw [hreceive]
    exact honce.2

/-- The client of a tool that has been waiting for that becomes connected. -/
theorem Wired.connected {canOpen : Bool} {c c' : ClientConnection} {e : ClientEvent}
    (hlinked : c.Linked) (hbefore : c.connected = false) (hs : c.step e = some c')
    (hexternal : e.external = true) (hconnected : c'.connected = true)
    (hclean : .connectError ∉ c'.notified.drop c.notified.length)
    (hswitches : ∀ action ∈ settings.actions, action.Switches) (server : DBusLogServer Policy β) :
    ∃ t, { ToolApp.start settings canOpen with client := c }.step (.client e) = some t ∧
      Wired settings 0 t (AppLink.start server (.new c'.toDBusLogClient
        (settings.actions.filterMap ToolAction.switching?) settings.follow)) := by
  have hlinked' : c'.Linked := hlinked.step hs
  have hstep : { ToolApp.start settings canOpen with client := c }.step (.client e) =
      some { ToolApp.start settings canOpen with client := c' }.clientConnected := by
    have hsignals : { ToolApp.start settings canOpen with client := c' }.handleSignals c =
        { ToolApp.start settings canOpen with client := c' }.clientConnected := by
      unfold ToolApp.handleSignals
      dsimp only
      rw [if_neg hclean]
      exact if_pos ⟨hconnected, by rw [hbefore]; rfl⟩
    have hrunning : (ToolApp.start settings canOpen).running = true := rfl
    unfold ToolApp.step
    dsimp only
    rw [if_pos hrunning, if_pos hexternal, hs]
    exact congrArg some hsignals
  have hstart := ToolApp.start_inv settings canOpen
  have hinv : ToolApp.ToolInv settings { ToolApp.start settings canOpen with client := c } :=
    ⟨hstart.toLedger.same ⟨rfl, rfl, rfl, rfl, rfl, rfl⟩ id, hstart.follow, hstart.quitting,
      fun _ hc _ => absurd (hbefore.symm.trans hc) Bool.false_ne_true, hstart.handlers⟩
  obtain ⟨shown, hshown, hledger, hloop⟩ := ToolApp.clientConnected_same
    { ToolApp.start settings canOpen with client := c' }
  have hhandlers : shown.messageHandlers = 0 := hloop.messageHandlers
  have hquits : shown.quits = 0 := hloop.quits
  have htoApp : shown.toApp 0 = .new c'.toDBusLogClient
      (settings.actions.filterMap ToolAction.switching?) settings.follow := by
    have hended : (shown.toApp 0).ended = none := by
      unfold ToolApp.toApp
      dsimp only
      rw [hquits, hhandlers]
      rfl
    rw [ToolApp.toApp_same hledger (congrArg (·.toDBusLogClient) hloop.client) hloop.follow
      hloop.ret, hended]
    rfl
  have hplugged : shown.Plugged 0 := ⟨by rw [hloop.client]; exact hlinked'.1, Nat.zero_le _⟩
  obtain ⟨hnext, _⟩ := ToolApp.nextAction_toApp hplugged
    (by rw [hledger.actions]; exact hswitches) hquits (by rw [hhandlers]; exact Nat.zero_le 1)
  obtain ⟨hrunning, hquiet, hsame, added, hadded, hnew⟩ :=
    ToolApp.nextAction_frame shown (by rw [hhandlers]; exact Nat.zero_le 1)
  have hcalls : shown.nextAction.calls = added := by
    rw [hadded, hledger.calls]
    rfl
  have hinv' := hinv.step hstep
  rw [hshown] at hstep hinv'
  refine ⟨_, hstep, ?_, hinv', ?_, Nat.zero_le _, hrunning.trans hloop.running,
    fun hne => (hquiet hne).trans hquits, ?_, ?_, fun _ hmem => absurd hmem List.not_mem_nil, List.nodup_nil⟩
  · rw [hnext, htoApp]
    rfl
  · rw [hloop.client] at hsame
    exact hlinked'.undisturbed hsame
  · rw [hcalls]
    exact fun k hk => ⟨(hnew k hk).awaited, (hnew k hk).cancelled⟩
  · rw [hcalls]
    exact fun i k _ hk => (hnew k (List.mem_of_getElem? hk)).reply

/-- Whatever the server does and the tool gets, it is a run of the main loop. -/
theorem Wired.run (h : Wired settings served t l)
    (hswitches : ∀ action ∈ settings.actions, action.Switches)
    (deliver : DBusLogServer Policy β → LoggerCall → Option (Reply × DBusLogServer Policy β))
    (events : List AppEvent) : ∃ served' toolEvents t', ToolApp.run t toolEvents = some t' ∧
      Wired settings served' t' (l.run deliver events) := by
  induction events generalizing served t l with
  | nil => exact ⟨served, [], t, rfl, h⟩
  | cons event events ih =>
    have hstep : ∃ served' toolEvents t', ToolApp.run t toolEvents = some t' ∧
        Wired settings served' t' (l.step deliver event) := by
      cases event with
      | serve =>
        obtain ⟨served', hserved⟩ := h.serve deliver
        exact ⟨served', [], t, rfl, hserved⟩
      | receive =>
        show ∃ served' toolEvents t', ToolApp.run t toolEvents = some t' ∧
          Wired settings served' t' l.receive
        cases hwire : l.wire with
        | nil =>
          have hreceive : l.receive = l := by
            unfold AppLink.receive
            rw [hwire]
          exact ⟨served, [], t, rfl, hreceive.symm ▸ h⟩
        | cons message wire =>
          cases message with
          | signal signal =>
            obtain ⟨t', ht', hnext⟩ := h.signal hwire
            exact ⟨served, [.client (.signal signal)], t', Runs.run_cons_iff.mpr ⟨t', ht', rfl⟩,
              hnext⟩
          | reply call reply =>
            obtain ⟨t', ht', hnext⟩ := h.reply hswitches hwire
            exact ⟨served, [.finished call.handle reply.ok], t',
              Runs.run_cons_iff.mpr ⟨t', ht', rfl⟩, hnext⟩
    obtain ⟨served₁, events₁, t₁, hrun₁, hwired⟩ := hstep
    obtain ⟨served₂, events₂, t₂, hrun₂, hwired₂⟩ := ih hwired
    exact ⟨served₂, events₁ ++ events₂, t₂, Runs.run_append_iff.mpr ⟨t₁, hrun₁, hrun₂⟩, hwired₂⟩

/-- What the tool of `App` does with its server, the whole tool does in a run of its main loop, from
the moment on when its client becomes connected. -/
theorem ToolApp.run_of_link {canOpen : Bool} {c c' : ClientConnection} {e : ClientEvent}
    (hlinked : c.Linked) (hbefore : c.connected = false) (hs : c.step e = some c')
    (hexternal : e.external = true) (hconnected : c'.connected = true)
    (hclean : .connectError ∉ c'.notified.drop c.notified.length)
    (hswitches : ∀ action ∈ settings.actions, action.Switches) (server : DBusLogServer Policy β)
    (deliver : DBusLogServer Policy β → LoggerCall → Option (Reply × DBusLogServer Policy β))
    (events : List AppEvent) : ∃ served toolEvents t,
      ToolApp.run { ToolApp.start settings canOpen with client := c } (.client e :: toolEvents) =
        some t ∧
      ((AppLink.start server (.new c'.toDBusLogClient
        (settings.actions.filterMap ToolAction.switching?) settings.follow)).run deliver
          events).app = t.toApp served := by
  obtain ⟨t₀, hstep, hwired⟩ :=
    Wired.connected hlinked hbefore hs hexternal hconnected hclean hswitches
      server
  obtain ⟨served, toolEvents, t, hrun, hwired'⟩ := hwired.run hswitches deliver events
  exact ⟨served, toolEvents, t, Runs.run_cons_iff.mpr ⟨t₀, hstep, hrun⟩, hwired'.toApp⟩

end Link

end DBusLog

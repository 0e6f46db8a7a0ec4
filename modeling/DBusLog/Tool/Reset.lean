import DBusLog.Client.Mirror
import DBusLog.Tool.Mirror

/-!
# Reset

Whatever the tool has enabled and disabled before, a reset brings every category back to what it is
by default. While calls are under way, the tool has one call whose end it waits for, and that one
is the last; what the tool knows when an action begins is what the server has.
-/

namespace DBusLog

open DBusLogServer

/-! ## What the tool waits for -/

/-- The tool waits for the last of the calls, or there is none. -/
def Awaits (call : Option Nat) (pending : List AppCall) : Prop :=
  match call with
  | none => pending = []
  | some handle => ∃ init last, pending = init ++ [last] ∧ last.handle = handle ∧
      last.callback = true ∧ ∀ call ∈ init, call.callback = false

section Awaits

variable {call : AppCall} {pending : List AppCall} {waiting : Option Nat}

/-- The end of a call that the tool does not wait for. -/
theorem Awaits.tail (h : Awaits waiting (call :: pending)) (hcallback : call.callback = false) :
    Awaits waiting pending := by
  unfold Awaits at h ⊢
  cases waiting with
  | none => cases h
  | some handle =>
    obtain ⟨init, last, hpending, hhandle, hlast, hinit⟩ := h
    cases init with
    | nil =>
      -- it would be the call that the tool waits for
      rw [← (List.cons.inj hpending).1, hcallback] at hlast
      cases hlast
    | cons first init =>
      exact ⟨init, last, (List.cons.inj hpending).2, hhandle, hlast,
        fun other hother => hinit other (List.mem_cons_of_mem _ hother)⟩

/-- The call that the tool waits for is the last one. -/
theorem Awaits.eq_nil (h : Awaits waiting (call :: pending)) (hcallback : call.callback = true) :
    pending = [] := by
  unfold Awaits at h
  cases waiting with
  | none => cases h
  | some handle =>
    obtain ⟨init, last, hpending, _, _, hinit⟩ := h
    cases init with
    | nil => exact (List.cons.inj hpending).2
    | cons first init =>
      have hfirst := hinit first List.mem_cons_self
      rw [← (List.cons.inj hpending).1, hcallback] at hfirst
      cases hfirst

end Awaits

/-- The calls set each category of the table that is not as it is by default, and no other one. -/
structure Resets (t : KeyedTable DBusLogCategory.name) (requests : List AppCall) : Prop where
  covered : ∀ cat ∈ t.values, cat.enabled = cat.byDefault ∨
    ∃ request ∈ requests, ∃ names, request.call = namesCall cat.byDefault names ∧ cat.name ∈ names
  right : ∀ request ∈ requests, ∃ enable names, request.call = namesCall enable names ∧
    ∀ cat ∈ t.values, cat.name ∈ names → cat.byDefault = enable

/-- The tool has run actions up to one that has made a call. -/
structure Waiting (t : KeyedTable DBusLogCategory.name) (app : App) : Prop where
  awaited : Awaits app.call app.requests
  switching : ∀ request ∈ app.requests, Switching request.call
  last : app.actions ≠ [] → app.actions.getLast? = some .reset
  finished : app.call = none → app.actions = []
  resets : app.actions = [] → Resets t app.requests

/-- An action has been run in `app`: it has made no call, or its calls have been sent. -/
structure Ran (t : KeyedTable DBusLogCategory.name) (app : App) (action : AppAction)
    (r : Option Nat × App) : Prop where
  awaited : Awaits r.1 r.2.requests
  switching : ∀ request ∈ r.2.requests, Switching request.call
  resets : action = .reset → Resets t r.2.requests
  client : r.2.client = app.client
  ret : r.2.ret = app.ret

section Actions

variable {t : KeyedTable DBusLogCategory.name} {app : App}

theorem callNew_eq (h : app.client.connected = true) (call : LoggerCall) (callback : Bool) :
    app.callNew call callback = (some app.calls, { app with
      requests := app.requests ++ [⟨app.calls, call, callback⟩]
      calls := app.calls + 1 }) :=
  if_pos h

/-- One call, whose end the tool waits for. -/
theorem callNew_ran (h : InStep t app.client) (hrequests : app.requests = []) {call : LoggerCall}
    (hcall : Switching call) {action : AppAction} (haction : action ≠ .reset) :
    Ran t app action (app.callNew call true) := by
  rw [callNew_eq h.connected, hrequests]
  refine ⟨⟨[], _, rfl, rfl, rfl, fun _ hmem => nomatch hmem⟩, ?_, fun he => absurd he haction,
    rfl, rfl⟩
  intro request hmem
  rw [List.mem_singleton.mp hmem]
  exact hcall

theorem switching_namesCall (enable : Bool) (names : List String) :
    Switching (namesCall enable names) := by
  refine ⟨enable, ?_⟩
  cases enable with
  | true => rfl
  | false => rfl

/-- A list of the reset has only categories that are to be switched its way. -/
theorem resetList_right (h : InStep t app.client) (enable : Bool) {cat : DBusLogCategory}
    (hcat : cat ∈ t.values) (hname : cat.name ∈ resetList enable app.client) :
    cat.byDefault = enable := by
  obtain ⟨other, hother, hsame, hdefault, _⟩ := (mem_resetList_iff h).mp hname
  rw [← KeyedTable.eq_of_key_eq hother hcat hsame]
  exact hdefault

/-- Every category is as it is by default, or is in one of the lists. -/
theorem resetList_covered (h : InStep t app.client) {cat : DBusLogCategory}
    (hcat : cat ∈ t.values) :
    cat.enabled = cat.byDefault ∨ cat.name ∈ resetList cat.byDefault app.client := by
  by_cases hsame : cat.enabled = cat.byDefault
  · exact .inl hsame
  · refine .inr ((mem_resetList_iff h).mpr ⟨cat, hcat, rfl, rfl, ?_⟩)
    exact Bool.eq_not_of_ne hsame

/-- The calls for the lists that are not empty. -/
theorem resets_of_lists (h : InStep t app.client) {requests : List AppCall}
    (hcovered : ∀ enable, resetList enable app.client ≠ [] →
      ∃ request ∈ requests, request.call = namesCall enable (resetList enable app.client))
    (hright : ∀ request ∈ requests, ∃ enable,
      request.call = namesCall enable (resetList enable app.client)) :
    Resets t requests := by
  constructor
  · intro cat hcat
    obtain hsame | hname := resetList_covered h hcat
    · exact .inl hsame
    · obtain ⟨request, hmem, hcall⟩ := hcovered cat.byDefault (List.ne_nil_of_mem hname)
      exact .inr ⟨request, hmem, _, hcall, hname⟩
  · intro request hmem
    obtain ⟨enable, hcall⟩ := hright request hmem
    exact ⟨enable, _, hcall, fun cat hcat hname => resetList_right h enable hcat hname⟩

/-- The calls of a reset have been sent, and the tool waits for the last one. -/
theorem ran_of_lists (h : InStep t app.client) (init : List AppCall) (last : AppCall) {calls : Nat}
    (hcallback : last.callback = true) (hinit : ∀ call ∈ init, call.callback = false)
    (hcovered : ∀ enable, resetList enable app.client ≠ [] → ∃ request ∈ init ++ [last],
      request.call = namesCall enable (resetList enable app.client))
    (hright : ∀ request ∈ init ++ [last], ∃ enable,
      request.call = namesCall enable (resetList enable app.client)) :
    Ran t app .reset
      (some last.handle, { app with requests := init ++ [last], calls := calls }) where
  awaited := ⟨init, last, rfl, rfl, hcallback, hinit⟩
  switching request hmem := by
    obtain ⟨enable, hcall⟩ := hright request hmem
    rw [hcall]
    exact switching_namesCall enable _
  resets _ := resets_of_lists h hcovered hright
  client := rfl
  ret := rfl

/-- The reset calls the server for each list that is not empty. -/
theorem actionReset_ran (h : InStep t app.client) (hrequests : app.requests = []) :
    Ran t app .reset app.actionReset := by
  have hon : (App.resetNames app.client.shownCategories).1 = resetList true app.client := rfl
  have hoff : (App.resetNames app.client.shownCategories).2 = resetList false app.client := rfl
  unfold App.actionReset
  dsimp only
  rw [hon, hoff]
  by_cases henable : resetList true app.client = []
  · by_cases hdisable : resetList false app.client = []
    · -- there is nothing to reset
      rw [if_neg (by simp [henable, hdisable])]
      have hnone : ∀ request : AppCall, request ∉ app.requests := by simp [hrequests]
      refine ⟨hrequests, fun request hmem => absurd hmem (hnone request), fun _ =>
        resets_of_lists h ?_ fun request hmem => absurd hmem (hnone request), rfl, rfl⟩
      intro enable hne
      cases enable <;> contradiction
    · rw [if_pos (.inr hdisable), if_neg fun hboth => hboth.1 henable,
        if_neg (not_not.mpr henable)]
      unfold App.disableCategories
      rw [if_pos hdisable, callNew_eq h.connected, hrequests]
      refine ran_of_lists h [] ⟨app.calls, _, true⟩ rfl (fun _ hmem => nomatch hmem) ?_ ?_
      · intro enable hne
        cases enable with
        | true => exact absurd henable hne
        | false => exact ⟨_, List.mem_singleton_self _, rfl⟩
      · intro request hmem
        rw [List.mem_singleton.mp hmem]
        exact ⟨false, rfl⟩
  · by_cases hdisable : resetList false app.client = []
    · rw [if_pos (.inl henable), if_neg fun hboth => hboth.2 hdisable, if_pos henable]
      unfold App.enableCategories
      rw [if_pos henable, callNew_eq h.connected, hrequests]
      refine ran_of_lists h [] ⟨app.calls, _, true⟩ rfl (fun _ hmem => nomatch hmem) ?_ ?_
      · intro enable hne
        cases enable with
        | true => exact ⟨_, List.mem_singleton_self _, rfl⟩
        | false => exact absurd hdisable hne
      · intro request hmem
        rw [List.mem_singleton.mp hmem]
        exact ⟨true, rfl⟩
    · -- both calls, and the callback for the second one only
      rw [if_pos (.inl henable), if_pos ⟨henable, hdisable⟩]
      unfold App.enableCategories App.disableCategories
      rw [if_pos henable, if_pos hdisable, callNew_eq h.connected]
      dsimp only
      rw [callNew_eq (by exact h.connected), hrequests]
      refine ran_of_lists h [⟨app.calls, .categoryEnable _, false⟩]
        ⟨app.calls + 1, .categoryDisable _, true⟩ rfl ?_ ?_ ?_
      · intro call hmem
        rw [List.mem_singleton.mp hmem]
      · intro enable _
        cases enable with
        | true => exact ⟨_, List.mem_append_left _ (List.mem_singleton_self _), rfl⟩
        | false => exact ⟨_, List.mem_append_right _ (List.mem_singleton_self _), rfl⟩
      · intro request hmem
        obtain hmem | hmem := List.mem_append.mp hmem
        · rw [List.mem_singleton.mp hmem]
          exact ⟨true, rfl⟩
        · rw [List.mem_singleton.mp hmem]
          exact ⟨false, rfl⟩

/-- The function of an action. -/
theorem runAction_ran (app : App) (h : InStep t app.client) (hrequests : app.requests = [])
    (action : AppAction) : Ran t app action (app.runAction action) := by
  cases action with
  | enableAll => exact callNew_ran h hrequests ⟨true, rfl⟩ (by simp)
  | disableAll => exact callNew_ran h hrequests ⟨false, rfl⟩ (by simp)
  | enable pattern => exact callNew_ran h hrequests ⟨true, rfl⟩ (by simp)
  | disable pattern => exact callNew_ran h hrequests ⟨false, rfl⟩ (by simp)
  | reset => exact actionReset_ran h hrequests

/-! ## One action after another -/

theorem Resets.restored (h : Resets t []) {cat : DBusLogCategory} (hcat : cat ∈ t.values) :
    cat.enabled = cat.byDefault := by
  obtain hsame | ⟨request, hmem, _⟩ := h.covered cat hcat
  · exact hsame
  · cases hmem

theorem resets_nil (h : ∀ cat ∈ t.values, cat.enabled = cat.byDefault) : Resets t [] :=
  ⟨fun cat hcat => .inl (h cat hcat), fun _ hmem => nomatch hmem⟩

/-- The loop stops at a call. -/
theorem runActions_busy {handle : Nat} (hcall : app.call = some handle)
    (actions : List AppAction) : App.runActions actions app = { app with actions := actions } := by
  cases actions with
  | nil => rfl
  | cons action actions =>
    unfold App.runActions
    rw [hcall]
    rfl

/-- What the loop over the actions comes to, from a state in which no call is under way. -/
structure Advanced (t : KeyedTable DBusLogCategory.name) (app : App) (actions : List AppAction)
    (app' : App) : Prop extends Waiting t app' where
  client : app'.client = app.client
  ret : app'.ret = app.ret
  fewer : app'.actions.length < actions.length ∨
    app'.actions.length = actions.length ∧ app'.requests = []

/-- The actions that are left end with a reset, or the reset has been done. -/
structure ResetLast (t : KeyedTable DBusLogCategory.name) (actions : List AppAction) : Prop where
  last : actions ≠ [] → actions.getLast? = some .reset
  restored : actions = [] → ∀ cat ∈ t.values, cat.enabled = cat.byDefault

theorem runActions_advanced (actions : List AppAction) (h : InStep t app.client)
    (hcall : app.call = none) (hrequests : app.requests = []) (hlast : ResetLast t actions) :
    Advanced t app actions (App.runActions actions app) := by
  induction actions generalizing app with
  | nil =>
    unfold App.runActions
    refine ⟨⟨?_, ?_, hlast.last, fun _ => rfl, fun _ => ?_⟩, rfl, rfl, .inr ⟨rfl, hrequests⟩⟩
    · rw [show ({ app with actions := [] } : App).call = none from hcall]
      exact hrequests
    · intro request hmem
      rw [show ({ app with actions := [] } : App).requests = [] from hrequests] at hmem
      cases hmem
    · rw [show ({ app with actions := [] } : App).requests = [] from hrequests]
      exact resets_nil (hlast.restored rfl)
  | cons action actions ih =>
    have hran : Ran t { app with actions := actions } action
        (App.runAction { app with actions := actions } action) :=
      runAction_ran { app with actions := actions } h hrequests action
    have hidle : app.call.isNone = true := Option.isNone_iff_eq_none.mpr hcall
    unfold App.runActions
    rw [if_pos hidle]
    generalize ({ app with actions := actions } : App).runAction action = r at hran
    obtain ⟨call, after⟩ := r
    dsimp only
    obtain ⟨hawaited, hswitching, hresets, hclient, hret⟩ := hran
    -- the last action is the reset
    have hend : actions = [] → action = .reset := by
      intro hnil
      have hreset := hlast.last (List.cons_ne_nil _ _)
      rw [hnil] at hreset
      exact Option.some.inj hreset
    have hrest : actions ≠ [] → actions.getLast? = some .reset := by
      intro hne
      have hreset := hlast.last (List.cons_ne_nil _ _)
      rwa [List.getLast?_cons_of_ne_nil hne] at hreset
    change after.client = app.client at hclient
    change after.ret = app.ret at hret
    cases call with
    | none =>
      -- no call has been made, and the loop goes on
      have hnone : after.requests = [] := hawaited
      have hinStep : InStep t after.client := by
        rw [hclient]
        exact h
      have hlast' : ResetLast t actions := by
        refine ⟨hrest, fun hnil cat hcat => ?_⟩
        have hover := hresets (hend hnil)
        change Resets t after.requests at hover
        rw [hnone] at hover
        exact hover.restored hcat
      have hadvanced : Advanced t { after with call := none } actions
          (App.runActions actions { after with call := none }) := ih hinStep rfl hnone hlast'
      refine ⟨hadvanced.toWaiting, hadvanced.client.trans hclient, hadvanced.ret.trans hret, .inl ?_⟩
      obtain hfewer | ⟨hfewer, _⟩ := hadvanced.fewer
      · exact Nat.lt_succ_of_lt hfewer
      · exact Nat.lt_succ_of_le hfewer.le
    | some handle =>
      -- the loop stops, with a call to wait for
      rw [runActions_busy
        (show ({ after with call := some handle } : App).call = some handle from rfl)]
      refine ⟨⟨hawaited, hswitching, hrest, fun hnone => (nomatch hnone), fun hnil =>
        hresets (hend hnil)⟩, hclient, hret, .inl (Nat.lt_succ_self _)⟩

/-- `app_next_action` after an action that is over. -/
theorem nextAction_advanced (h : InStep t app.client) (hcall : app.call = none)
    (hrequests : app.requests = []) (hlast : ResetLast t app.actions) :
    Advanced t app app.actions app.nextAction := by
  have hadvanced := runActions_advanced app.actions h hcall hrequests hlast
  unfold App.nextAction
  dsimp only
  split
  · obtain ⟨⟨hawaited, hswitching, hrest, hover, hresets⟩, hclient, hret, hfewer⟩ := hadvanced
    exact ⟨⟨hawaited, hswitching, hrest, hover, hresets⟩, hclient, hret, hfewer⟩
  · exact hadvanced

end Actions

/-! ## The tool and the server -/

/-- Signals are followed by the reply to the call that has caused them. -/
def Framed (wire : List AppMessage) : Prop :=
  wire = [] ∨ ∃ front call reply, wire = front ++ [.reply call reply]

/-- The call that a message ends. -/
def AppMessage.call? : AppMessage → Option AppCall
  | .signal _ => none
  | .reply call _ => some call

def AppMessage.signal? : AppMessage → Option BusSignal
  | .signal told => some told
  | .reply _ _ => none

/-- The calls whose end the tool has not seen, the oldest first. -/
def AppLink.pending {Policy β : Type} (l : AppLink Policy β) : List AppCall :=
  l.wire.filterMap AppMessage.call? ++ l.app.requests

/-- The client when it has processed what is on its way. -/
def AppLink.caughtUp {Policy β : Type} (l : AppLink Policy β) : DBusLogClient :=
  (l.wire.filterMap AppMessage.signal?).foldl DBusLogClient.handle l.app.client

theorem Framed.tail {message : AppMessage} {wire : List AppMessage}
    (h : Framed (message :: wire)) : Framed wire := by
  obtain hnil | ⟨front, call, reply, hfront⟩ := h
  · cases hnil
  · cases front with
    | nil => exact .inl (List.cons.inj hfront).2
    | cons first front => exact .inr ⟨front, call, reply, (List.cons.inj hfront).2⟩

theorem Framed.eq_nil {wire : List AppMessage} (h : Framed wire)
    (hreplies : wire.filterMap AppMessage.call? = []) : wire = [] := by
  obtain hnil | ⟨front, call, reply, rfl⟩ := h
  · exact hnil
  · rw [List.filterMap_append] at hreplies
    cases (List.append_eq_nil_iff.mp hreplies).2

section Link

variable {Cred Policy β : Type} {lib : Libraries Cred Policy} {klass : DBusLogServerClass β}
  {ctx : ServerContext} {sender : String} {ready : β → Prop}
  {deliver : DBusLogServer Policy β → LoggerCall → Option (Reply × DBusLogServer Policy β)}

/-- A back end that is ready sends what it is told to send, and calls get through to the server. -/
structure Obliging (lib : Libraries Cred Policy) (klass : DBusLogServerClass β)
    (ctx : ServerContext) (sender : String)
    (deliver : DBusLogServer Policy β → LoggerCall → Option (Reply × DBusLogServer Policy β))
    (ready : β → Prop) : Prop where
  sends : ∀ b, ready b → Sends klass b
  delivers : ∀ (s : DBusLogServer Policy β) (call : LoggerCall), s.started = true →
    ready s.backend → Switching call → deliver s call = some (s.perform lib klass ctx sender call)

/-- The server is there for the tool, which may enable and disable categories. -/
structure Serving (lib : Libraries Cred Policy) (sender : String) (ready : β → Prop)
    (s : DBusLogServer Policy β) : Prop where
  started : s.started = true
  ready : ready s.backend
  allowed : ∀ enable, s.accessAllowed lib sender (enableAction enable) = true

/-- The tool is at work on a server whose core was `c₀` at first. -/
structure Running (lib : Libraries Cred Policy) (sender : String) (ready : β → Prop)
    (c₀ : DBusLogCore) (l : AppLink Policy β) : Prop where
  serving : Serving lib sender ready l.server
  toggled : c₀.Toggled l.server.core
  inStep : InStep l.server.core.categories l.caughtUp
  awaited : Awaits l.app.call l.pending
  switching : ∀ request ∈ l.app.requests, Switching request.call
  last : l.app.actions ≠ [] → l.app.actions.getLast? = some .reset
  finished : l.app.call = none → l.app.actions = []
  resets : l.app.actions = [] → Resets l.server.core.categories l.app.requests
  succeeded : ∀ call reply, .reply call reply ∈ l.wire → reply = .methodReturn []
  framed : Framed l.wire
  ret : l.app.ret = retOk

theorem Serving.setEach {s : DBusLogServer Policy β} (h : Serving lib sender ready s)
    (names : List String) (enable : Bool) :
    Serving lib sender ready (s.setEach klass names enable) := by
  have hkept : Kept ready s (s.setEach klass names enable) := .setEach names enable
  refine ⟨hkept.started.trans h.started, hkept.backend h.ready, fun enable => ?_⟩
  have hallowed := h.allowed enable
  unfold accessAllowed at hallowed ⊢
  rw [hkept.bus, hkept.policy]
  exact hallowed

/-- The tool begins, or begins again after a call. -/
theorem start_running {c₀ : DBusLogCore} {s : DBusLogServer Policy β} {app : App}
    (hserving : Serving lib sender ready s) (htoggled : c₀.Toggled s.core)
    (hinStep : InStep s.core.categories app.client) (hcall : app.call = none)
    (hrequests : app.requests = []) (hlast : ResetLast s.core.categories app.actions)
    (hret : app.ret = retOk) :
    Running lib sender ready c₀ (AppLink.start s app) := by
  have hadvanced := nextAction_advanced hinStep hcall hrequests hlast
  refine ⟨hserving, htoggled, ?_, hadvanced.awaited, hadvanced.switching, hadvanced.last,
    hadvanced.finished, hadvanced.resets, fun _ _ hmem => (nomatch hmem), .inl rfl,
    hadvanced.ret.trans hret⟩
  change InStep s.core.categories app.nextAction.client
  rw [hadvanced.client]
  exact hinStep

/-- What is left of a reset when one of its calls has been served. -/
theorem Resets.served {s : DBusLogServer Policy β} {request : AppCall} {requests : List AppCall}
    (h : Resets s.core.categories (request :: requests)) {names : List String} {enable : Bool}
    (hcall : ∀ enable' names', request.call = namesCall enable' names' →
      enable = enable' ∧ names = names') :
    Resets (s.setEach klass names enable).core.categories requests := by
  obtain ⟨enable', names', he, hright⟩ := h.right request List.mem_cons_self
  obtain ⟨rfl, rfl⟩ := hcall enable' names' he
  have hdefault := fun old : DBusLogCategory =>
    (DBusLogCategory.alike_ite (old.name ∈ names) enable old).continues.byDefault
  have hname := fun old : DBusLogCategory =>
    (DBusLogCategory.alike_ite (old.name ∈ names) enable old).name
  constructor
  · intro cat hcat
    obtain ⟨old, hold, rfl⟩ := (mem_setEach_iff klass s names enable).mp hcat
    rw [hdefault, hname]
    by_cases hmem : old.name ∈ names
    · left
      rw [if_pos hmem, DBusLogCategory.enabled_switched, hright old hold hmem]
    · rw [if_neg hmem]
      -- it is as it is by default, or in a later call
      obtain hsame | ⟨other, hother, names', hcall', hmem'⟩ := h.covered old hold
      · exact .inl hsame
      · obtain rfl | hother := List.mem_cons.mp hother
        · obtain ⟨_, rfl⟩ := hcall _ _ hcall'
          exact absurd hmem' hmem
        · exact .inr ⟨other, hother, names', hcall', hmem'⟩
  · intro other hother
    obtain ⟨enable', names', hcall', hright'⟩ := h.right other (List.mem_cons_of_mem _ hother)
    refine ⟨enable', names', hcall', fun cat hcat hmem => ?_⟩
    obtain ⟨old, hold, rfl⟩ := (mem_setEach_iff klass s names enable).mp hcat
    rw [hdefault]
    rw [hname] at hmem
    exact hright' old hold hmem

/-! ## Steps and runs -/

variable {c₀ : DBusLogCore} {l : AppLink Policy β}

/-- The server gets a call. -/
theorem Running.serve (hobliging : Obliging lib klass ctx sender deliver ready)
    (h : Running lib sender ready c₀ l) {request : AppCall} {requests : List AppCall}
    (hrequests : l.app.requests = request :: requests) :
    Running lib sender ready c₀ (l.serve deliver) ∧
      (l.serve deliver).app.actions = l.app.actions ∧
      (l.serve deliver).app.requests = requests := by
  have hswitching := h.switching request (hrequests ▸ List.mem_cons_self)
  obtain ⟨names, enable, hperform, hcall⟩ :=
    perform_switching klass ctx h.serving.allowed hswitching
  obtain ⟨signals, hsent, hinStep⟩ := setEach_inStep h.serving.started
    (hobliging.sends _ h.serving.ready) h.inStep names enable
  have hdeliver := hobliging.delivers l.server request.call h.serving.started h.serving.ready
    hswitching
  have hserve : l.serve deliver = { l with
      server := l.server.setEach klass names enable
      app := { l.app with requests := requests }
      wire := l.wire ++ signals.map .signal ++ [.reply request (.methodReturn [])] } := by
    unfold AppLink.serve
    rw [hrequests]
    dsimp only
    rw [hdeliver, hperform]
    dsimp only
    rw [hsent, List.drop_left]
  have hreplies : (signals.map AppMessage.signal).filterMap AppMessage.call? = [] := by
    rw [List.filterMap_map]
    exact List.filterMap_eq_nil_iff.mpr fun _ _ => rfl
  have hsignals : (signals.map AppMessage.signal).filterMap AppMessage.signal? = signals := by
    rw [List.filterMap_map]
    exact List.filterMap_some
  rw [hserve]
  refine ⟨⟨h.serving.setEach names enable, h.toggled.trans (setEach_toggled names enable), ?_, ?_,
    ?_, h.last, h.finished, fun hnil => ?_, ?_, .inr ⟨_, _, _, rfl⟩, h.ret⟩, rfl, rfl⟩
  · unfold AppLink.caughtUp at hinStep ⊢
    dsimp only
    rw [List.filterMap_append, List.filterMap_append, hsignals, List.foldl_append,
      List.foldl_append]
    exact hinStep
  · have hawaited := h.awaited
    unfold AppLink.pending at hawaited ⊢
    dsimp only
    rw [List.filterMap_append, List.filterMap_append, hreplies, List.append_nil, List.append_assoc]
    rw [hrequests] at hawaited
    exact hawaited
  · intro other hother
    exact h.switching other (hrequests ▸ List.mem_cons_of_mem _ hother)
  · have hresets := h.resets hnil
    rw [hrequests] at hresets
    exact hresets.served hcall
  · intro call reply hmem
    obtain hmem | hmem := List.mem_append.mp hmem
    · obtain hmem | hmem := List.mem_append.mp hmem
      · exact h.succeeded call reply hmem
      · obtain ⟨_, _, he⟩ := List.mem_map.mp hmem
        cases he
    · cases List.mem_singleton.mp hmem
      rfl

/-- The tool gets a signal. -/
theorem Running.signal (h : Running lib sender ready c₀ l) {signal : BusSignal}
    {wire : List AppMessage} (hwire : l.wire = .signal signal :: wire) :
    Running lib sender ready c₀ { l with
      app := { l.app with client := l.app.client.handle signal }
      wire := wire } := by
  refine ⟨h.serving, h.toggled, ?_, ?_, h.switching, h.last, h.finished, h.resets,
    fun call reply hmem => ?_, ?_, h.ret⟩
  · have hinStep := h.inStep
    unfold AppLink.caughtUp at hinStep
    rw [hwire] at hinStep
    exact hinStep
  · have hawaited := h.awaited
    unfold AppLink.pending at hawaited
    rw [hwire] at hawaited
    exact hawaited
  · exact h.succeeded call reply (hwire ▸ List.mem_cons_of_mem _ hmem)
  · exact (hwire ▸ h.framed).tail

/-- The tool gets the reply to a call that it does not wait for. -/
theorem Running.reply (h : Running lib sender ready c₀ l) {call : AppCall} {reply : Reply}
    {wire : List AppMessage} (hwire : l.wire = .reply call reply :: wire)
    (hcallback : call.callback = false) :
    Running lib sender ready c₀ { l with wire := wire } := by
  have hawaited := h.awaited
  unfold AppLink.pending at hawaited
  rw [hwire] at hawaited
  change Awaits l.app.call (call :: (wire.filterMap AppMessage.call? ++ l.app.requests))
    at hawaited
  refine ⟨h.serving, h.toggled, ?_, ?_, h.switching, h.last, h.finished, h.resets,
    fun call' reply' hmem => ?_, ?_, h.ret⟩
  · have hinStep := h.inStep
    unfold AppLink.caughtUp at hinStep
    rw [hwire] at hinStep
    exact hinStep
  · exact hawaited.tail hcallback
  · exact h.succeeded call' reply' (hwire ▸ List.mem_cons_of_mem _ hmem)
  · exact (hwire ▸ h.framed).tail

/-- The tool gets the reply that it waits for. There has been no other message. -/
theorem Running.awaited_last (h : Running lib sender ready c₀ l) {call : AppCall} {reply : Reply}
    {wire : List AppMessage} (hwire : l.wire = .reply call reply :: wire)
    (hcallback : call.callback = true) : wire = [] ∧ l.app.requests = [] := by
  have hawaited := h.awaited
  unfold AppLink.pending at hawaited
  rw [hwire] at hawaited
  change Awaits l.app.call (call :: (wire.filterMap AppMessage.call? ++ l.app.requests))
    at hawaited
  obtain ⟨hreplies, hrequests⟩ := List.append_eq_nil_iff.mp (hawaited.eq_nil hcallback)
  exact ⟨(hwire ▸ h.framed).tail.eq_nil hreplies, hrequests⟩

/-- There is less left to do: actions, or calls for the server, or messages for the tool. -/
def Lower (l' l : AppLink Policy β) : Prop :=
  Prod.Lex (· < ·) (Prod.Lex (· < ·) (· < ·))
    (l'.app.actions.length, l'.app.requests.length, l'.wire.length)
    (l.app.actions.length, l.app.requests.length, l.wire.length)

theorem lower_wf : WellFounded (@Lower Policy β) := by
  have hlex : WellFounded
      (Prod.Lex (· < ·) (Prod.Lex (· < ·) (· < ·)) : Nat × Nat × Nat → Nat × Nat × Nat → Prop) :=
    WellFounded.prod_lex Nat.lt_wfRel.wf (WellFounded.prod_lex Nat.lt_wfRel.wf Nat.lt_wfRel.wf)
  exact InvImage.wf (fun l : AppLink Policy β =>
    (l.app.actions.length, l.app.requests.length, l.wire.length)) hlex

/-- The tool gets a message. -/
theorem Running.receive (h : Running lib sender ready c₀ l) {message : AppMessage}
    {wire : List AppMessage} (hwire : l.wire = message :: wire) :
    Running lib sender ready c₀ l.receive ∧ Lower l.receive l := by
  have hshorter : wire.length < l.wire.length := by
    rw [hwire]
    exact Nat.lt_succ_self _
  cases message with
  | signal signal =>
    have hreceive : l.receive = { l with
        app := { l.app with client := l.app.client.handle signal }
        wire := wire } := by
      unfold AppLink.receive
      rw [hwire]
    rw [hreceive]
    exact ⟨h.signal hwire, .right _ (.right _ hshorter)⟩
  | reply call reply =>
    have hreceive : l.receive = { l with
        app := l.app.genericCallFinished call reply
        wire := wire } := by
      unfold AppLink.receive
      rw [hwire]
    unfold App.genericCallFinished at hreceive
    cases hcallback : call.callback with
    | false =>
      rw [hcallback, if_neg Bool.false_ne_true] at hreceive
      rw [hreceive]
      exact ⟨h.reply hwire hcallback, .right _ (.right _ hshorter)⟩
    | true =>
      -- nothing else is under way: the client has caught up when the tool goes on
      obtain ⟨hnil, hrequests⟩ := h.awaited_last hwire hcallback
      have hreply := h.succeeded call reply (hwire ▸ List.mem_cons_self)
      rw [hcallback, if_pos rfl, hreply, hnil] at hreceive
      change l.receive = AppLink.start l.server { l.app with call := none } at hreceive
      have hinStep := h.inStep
      unfold AppLink.caughtUp at hinStep
      rw [hwire, hnil] at hinStep
      have hlast : ResetLast l.server.core.categories l.app.actions := by
        refine ⟨h.last, fun hover cat hcat => ?_⟩
        have hresets := h.resets hover
        rw [hrequests] at hresets
        exact hresets.restored hcat
      rw [hreceive]
      refine ⟨start_running h.serving h.toggled hinStep rfl hrequests hlast h.ret, ?_⟩
      have hadvanced : Advanced l.server.core.categories { l.app with call := none } l.app.actions
          (App.nextAction { l.app with call := none }) :=
        nextAction_advanced hinStep rfl hrequests hlast
      obtain hfewer | ⟨hsame, hnone⟩ := hadvanced.fewer
      · exact .left _ _ hfewer
      · unfold Lower AppLink.start
        rw [hsame, hnone, hrequests]
        refine .right _ (.right _ ?_)
        rw [hwire]
        exact Nat.succ_pos _

/-- Step lemma. -/
theorem Running.step (hobliging : Obliging lib klass ctx sender deliver ready)
    (h : Running lib sender ready c₀ l) (event : AppEvent) :
    Running lib sender ready c₀ (l.step deliver event) := by
  cases event with
  | serve =>
    change Running lib sender ready c₀ (l.serve deliver)
    cases hrequests : l.app.requests with
    | nil =>
      unfold AppLink.serve
      rw [hrequests]
      exact h
    | cons request requests => exact (h.serve hobliging hrequests).1
  | receive =>
    change Running lib sender ready c₀ l.receive
    cases hwire : l.wire with
    | nil =>
      unfold AppLink.receive
      rw [hwire]
      exact h
    | cons message wire => exact (h.receive hwire).1

/-- Run lemma. -/
theorem Running.run (hobliging : Obliging lib klass ctx sender deliver ready)
    (h : Running lib sender ready c₀ l) (events : List AppEvent) :
    Running lib sender ready c₀ (l.run deliver events) := by
  induction events generalizing l with
  | nil => exact h
  | cons event events ih => exact ih (h.step hobliging event)

/-- Whatever has happened, the server and the tool can bring all actions to their end. -/
theorem Running.completes (hobliging : Obliging lib klass ctx sender deliver ready)
    (h : Running lib sender ready c₀ l) : ∃ events, (l.run deliver events).Done := by
  induction l using lower_wf.induction with
  | _ l ih =>
    cases hrequests : l.app.requests with
    | cons request requests =>
      obtain ⟨hrunning, hactions, hrest⟩ := h.serve hobliging hrequests
      have hlower : Lower (l.serve deliver) l := by
        unfold Lower
        rw [hactions, hrest, hrequests]
        exact .right _ (.left _ _ (Nat.lt_succ_self _))
      obtain ⟨events, hdone⟩ := ih _ hlower hrunning
      exact ⟨.serve :: events, hdone⟩
    | nil =>
      cases hwire : l.wire with
      | cons message wire =>
        obtain ⟨hrunning, hlower⟩ := h.receive hwire
        obtain ⟨events, hdone⟩ := ih _ hlower hrunning
        exact ⟨.receive :: events, hdone⟩
      | nil =>
        -- nothing is under way, so there is no call to wait for
        have hawaited := h.awaited
        unfold AppLink.pending at hawaited
        rw [hwire, hrequests] at hawaited
        have hidle : l.app.call = none := by
          cases hcall : l.app.call with
          | none => rfl
          | some handle =>
            rw [hcall] at hawaited
            obtain ⟨init, last, hpending, _⟩ := hawaited
            exact absurd hpending.symm (by simp)
        exact ⟨[], h.finished hidle, hidle⟩

/-- When all actions are over, nothing is under way, and the categories are what they are by
default. -/
theorem Running.restored (h : Running lib sender ready c₀ l) (hdone : l.Done) :
    l.app.requests = [] ∧ l.wire = [] ∧ c₀.Restored l.server.core := by
  obtain ⟨hactions, hcall⟩ := hdone
  have hpending := h.awaited
  rw [hcall] at hpending
  obtain ⟨hreplies, hrequests⟩ := List.append_eq_nil_iff.mp hpending
  have hresets := h.resets hactions
  rw [hrequests] at hresets
  exact ⟨hrequests, h.framed.eq_nil hreplies, h.toggled, fun cat hcat => hresets.restored hcat⟩

/-- Another reset finds nothing to do. -/
theorem Running.reset_again (h : Running lib sender ready c₀ l) (hdone : l.Done) :
    l.app.runAction .reset = (none, l.app) := by
  obtain ⟨_, hwire, hrestored⟩ := h.restored hdone
  have hinStep := h.inStep
  unfold AppLink.caughtUp at hinStep
  rw [hwire] at hinStep
  have hnil : ∀ enable, resetList enable l.app.client = [] := by
    intro enable
    apply List.eq_nil_iff_forall_not_mem.mpr
    intro name hname
    obtain ⟨cat, hcat, _, hdefault, henabled⟩ := (mem_resetList_iff hinStep).mp hname
    have hsame := hrestored.restored cat hcat
    rw [hdefault, henabled] at hsame
    cases enable <;> cases hsame
  have hon : (App.resetNames l.app.client.shownCategories).1 = [] := hnil true
  have hoff : (App.resetNames l.app.client.shownCategories).2 = [] := hnil false
  change l.app.actionReset = _
  unfold App.actionReset
  dsimp only
  rw [hon, hoff]
  rfl

end Link

/-! ## Both back ends -/

/-- The reset is over, and each category is what it was by default; the table has been `c₀` at
first, and `history` has led to it. -/
structure ResetOver {Cred Policy β : Type} (lib : Libraries Cred Policy)
    (klass : DBusLogServerClass β) (fresh : DBusLogServer Policy β) (history : List CategoryOp)
    (c₀ : DBusLogCore) (l : AppLink Policy β) : Prop where
  ret : l.app.ret = retOk
  requests : l.app.requests = []
  wire : l.wire = []
  restored : c₀.Restored l.server.core
  created : ∀ cat ∈ l.server.core.categories.values, ∃ made flags,
    CreatedAs lib klass fresh history cat made flags ∧
      (flags &&& CategoryFlag.enabledByDefault = 0 → cat.enabled = made.enabled)
  again : l.app.runAction .reset = (none, l.app)

/-- The tool runs actions that it is allowed to run, and then a reset, on a server that the client
mirrors. It can always get to the end, and when it has got there the reset is over. -/
def ResetRestores {Cred Policy β : Type} (lib : Libraries Cred Policy)
    (klass : DBusLogServerClass β)
    (deliver : DBusLogServer Policy β → LoggerCall → Option (Reply × DBusLogServer Policy β))
    (sender : String) (fresh : DBusLogServer Policy β) (setup ops : List CategoryOp)
    (client : DBusLogClient) (actions : List AppAction) (follow : Bool) (events : List AppEvent) :
    Prop :=
  let server := ((fresh.operateAll lib klass setup).start klass).operateAll lib klass ops
  Mirrored server.core.categories client →
  (∀ enable, server.accessAllowed lib sender (enableAction enable) = true) →
  let l := (AppLink.start server (.new client (actions ++ [.reset]) follow)).run deliver events
  (∃ more, (l.run deliver more).Done) ∧
    (l.Done → ResetOver lib klass fresh (setup ++ ops) server.core l)

section Backends

variable {Cred Policy β : Type} {lib : Libraries Cred Policy} {klass : DBusLogServerClass β}
  {ctx : ServerContext} {sender : String} {ready : β → Prop}
  {deliver : DBusLogServer Policy β → LoggerCall → Option (Reply × DBusLogServer Policy β)}

/-- For a back end that is ready when the server has been started. -/
theorem resetRestores_of_obliging (hobliging : Obliging lib klass ctx sender deliver ready)
    {fresh : DBusLogServer Policy β} (hempty : fresh.core.categories.values = [])
    {setup : List CategoryOp}
    (hstarted : ((fresh.operateAll lib klass setup).start klass).started = true)
    (hready : ready ((fresh.operateAll lib klass setup).start klass).backend)
    (ops : List CategoryOp) {autostartFlag : Bool} {clientEvents : List ClientEvent}
    {client : ClientConnection} (halternating : ClientEvent.Alternating clientEvents)
    (hrun : Runs.run ClientConnection.step (.new autostartFlag) clientEvents = some client)
    (hconnected : client.connected = true) (actions : List AppAction) (follow : Bool)
    (events : List AppEvent) :
    ResetRestores lib klass deliver sender fresh setup ops client.toDBusLogClient actions follow
      events := by
  unfold ResetRestores
  intro server hmirrored hallowed l
  have hcore : server.core = (fresh.operateAll lib klass (setup ++ ops)).core :=
    start_operateAll_core lib klass setup ops
  have hkept : Kept ready ((fresh.operateAll lib klass setup).start klass) server :=
    operateAll_kept lib klass ready ops
  have hcreated := operateAll_created lib klass hempty (setup ++ ops)
  rw [← hcore] at hcreated
  have hlast : ResetLast server.core.categories (actions ++ [.reset]) :=
    ⟨fun _ => List.getLast?_concat, fun hnil => absurd hnil (by simp)⟩
  have hinStep : InStep server.core.categories client.toDBusLogClient :=
    .of_run halternating hrun hconnected hmirrored fun cat hcat => (hcreated cat hcat).1
  have hbegin : Running lib sender ready server.core
      (AppLink.start server (.new client.toDBusLogClient (actions ++ [.reset]) follow)) :=
    start_running ⟨hkept.started.trans hstarted, hkept.backend hready, hallowed⟩ (.refl _) hinStep
      rfl rfl hlast rfl
  have hrunning : Running lib sender ready server.core l := hbegin.run hobliging events
  refine ⟨hrunning.completes hobliging, fun hdone => ?_⟩
  obtain ⟨hrequests, hwire, hrestored⟩ := hrunning.restored hdone
  refine ⟨hrunning.ret, hrequests, hwire, hrestored, fun cat hcat => ?_,
    hrunning.reset_again hdone⟩
  obtain ⟨old, hold, halike⟩ := hrestored.known cat hcat
  obtain ⟨_, made, flags, hmade⟩ := hcreated old hold
  have hmade' := hmade.continues halike.continues
  refine ⟨made, flags, hmade', fun hflags => ?_⟩
  rw [hrestored.restored cat hcat]
  exact hmade'.byDefault hflags

theorem obliging_dbus (lib : Libraries Cred Policy) (ctx : ServerContext) (sender : String) :
    Obliging lib DBusLogServerDbus.klass ctx sender
      (fun s => DBusLogServerDbus.deliver lib ctx s sender)
      (fun b : DBusLogServerDbus => b.filtering = true) where
  sends b _ := sends_dbus b
  delivers s call hstarted hfiltering hcall := by
    refine (DBusLogServerDbus.deliver_eq hstarted hfiltering call).trans ?_
    obtain ⟨enable, haction⟩ := hcall
    cases call with
    | setCategoryLevel name level => cases enable <;> cases haction
    | _ => rfl

theorem obliging_gio (lib : Libraries Cred Policy) (ctx : ServerContext) (sender : String) :
    Obliging lib DBusLogServerGio.klass ctx sender
      (fun s => DBusLogServerGio.deliver lib ctx s sender)
      (fun b : DBusLogServerGio => b.skeletonExported = true) where
  sends b hexported := sends_gio hexported
  delivers s call _ hexported hcall := by
    refine (DBusLogServerGio.deliver_eq hexported call).trans ?_
    obtain ⟨enable, haction⟩ := hcall
    cases call with
    | logOpen => cases enable <;> cases haction
    | _ => rfl

/-- Reset restores the defaults, for both back ends. -/
theorem resetRestores (lib : Libraries Cred Policy) (ctx : ServerContext) (bus : DABus)
    (path : String) (policy : Policy) (sender : String) (setup ops : List CategoryOp)
    (autostartFlag : Bool) (clientEvents : List ClientEvent) (client : ClientConnection)
    (halternating : ClientEvent.Alternating clientEvents)
    (hrun : Runs.run ClientConnection.step (.new autostartFlag) clientEvents = some client)
    (hconnected : client.connected = true) (actions : List AppAction) (follow : Bool)
    (events : List AppEvent) :
    ResetRestores lib DBusLogServerDbus.klass (fun s => DBusLogServerDbus.deliver lib ctx s sender)
        sender (DBusLogServerDbus.newFull bus path policy) setup ops client.toDBusLogClient actions
        follow events ∧
      ResetRestores lib DBusLogServerGio.klass (fun s => DBusLogServerGio.deliver lib ctx s sender)
        sender (DBusLogServerGio.newServer bus path policy) setup ops client.toDBusLogClient
        actions follow events := by
  constructor
  · have hkept : Kept (fun _ => True) (DBusLogServerDbus.newFull bus path policy)
        ((DBusLogServerDbus.newFull bus path policy).operateAll lib DBusLogServerDbus.klass setup) :=
      operateAll_kept lib _ _ setup
    obtain ⟨hstarted, hfiltering⟩ := Link.start_dbus hkept.started
    exact resetRestores_of_obliging (obliging_dbus lib ctx sender) rfl hstarted hfiltering ops
      halternating hrun hconnected actions follow events
  · have hkept : Kept (fun b => b = DBusLogServerGio.new)
        (DBusLogServerGio.newServer bus path policy)
        ((DBusLogServerGio.newServer bus path policy).operateAll lib DBusLogServerGio.klass setup) :=
      operateAll_kept lib _ _ setup
    obtain ⟨hstarted, hexported⟩ := Link.start_gio hkept.started (hkept.backend rfl)
    exact resetRestores_of_obliging (obliging_gio lib ctx sender) rfl hstarted hexported ops
      halternating hrun hconnected actions follow events

end Backends

/-! ## A reset in both directions -/

section Mixed

variable {β : Type} (klass : DBusLogServerClass β)
  (deliver : DBusLogServer Unit β → LoggerCall → Option (Reply × DBusLogServer Unit β))
  (fresh : DBusLogServer Unit β)

/-- One category is created enabled, one is not, and for one the flag "enabled by default" is asked
for. Then the first one is disabled. -/
def mixedHistory : List CategoryOp × List CategoryOp :=
  ([.addCategory "net" Level.warning CategoryFlag.enabled, .addCategory "app" Level.info 0,
      .addCategory "usb" Level.info CategoryFlag.enabledByDefault],
    [.callSetNamesEnabled ":1.1" ["net"] false])

/-- A client that connects to that server. -/
def mixedClient : List ClientEvent :=
  [.nameAppeared, .proxyCreated 0 true, .gotInterfaceVersion 0 (some 2),
    .gotAll2 0 (some (6, [("app", 2, 0, 6), ("net", 1, 2, 4), ("usb", 3, 2, 6)], 1000))]

/-- The tool enables everything and disables one category before the reset, for which the server
gets two calls. -/
def mixedEvents : List AppEvent :=
  [.serve, .receive, .receive, .receive, .receive, .serve, .receive, .receive, .serve, .serve,
    .receive, .receive, .receive, .receive]

def mixedServer : DBusLogServer Unit β :=
  ((fresh.operateAll rootOnly klass mixedHistory.1).start klass).operateAll rootOnly klass
    mixedHistory.2

def mixedReset (client : DBusLogClient) : AppLink Unit β :=
  (AppLink.start (mixedServer klass fresh)
    (.new client ([.enableAll, .disable "net"] ++ [AppAction.reset]) false)).run deliver mixedEvents

end Mixed

theorem resetRestores_mixed :
    ∃ client, Runs.run ClientConnection.step (.new false) mixedClient = some client ∧
      ResetOver rootOnly DBusLogServerDbus.klass (DBusLogServerDbus.newFull .system "/logger" ())
        (mixedHistory.1 ++ mixedHistory.2)
        (mixedServer DBusLogServerDbus.klass (DBusLogServerDbus.newFull .system "/logger" ())).core
        (mixedReset DBusLogServerDbus.klass
          (fun s => DBusLogServerDbus.deliver rootOnly ⟨none, fun _ => []⟩ s ":1.1")
          (DBusLogServerDbus.newFull .system "/logger" ()) client.toDBusLogClient) ∧
      ResetOver rootOnly DBusLogServerGio.klass (DBusLogServerGio.newServer .system "/logger" ())
        (mixedHistory.1 ++ mixedHistory.2)
        (mixedServer DBusLogServerGio.klass (DBusLogServerGio.newServer .system "/logger" ())).core
        (mixedReset DBusLogServerGio.klass
          (fun s => DBusLogServerGio.deliver rootOnly ⟨none, fun _ => []⟩ s ":1.1")
          (DBusLogServerGio.newServer .system "/logger" ()) client.toDBusLogClient) := by
  refine ⟨_, (Option.some_get (by decide +kernel)).symm, ?_⟩
  have halternating : ClientEvent.Alternating mixedClient := by
    unfold ClientEvent.Alternating
    decide
  obtain ⟨hdbus, hgio⟩ := resetRestores rootOnly ⟨none, fun _ => []⟩ .system "/logger" () ":1.1"
    mixedHistory.1 mixedHistory.2 false mixedClient _ halternating
    (Option.some_get (by decide +kernel)).symm (by decide +kernel) [.enableAll, .disable "net"]
    false mixedEvents
  exact ⟨(hdbus (by decide +kernel) (by decide)).2 (by decide +kernel),
    (hgio (by decide +kernel) (by decide)).2 (by decide +kernel)⟩

end DBusLog

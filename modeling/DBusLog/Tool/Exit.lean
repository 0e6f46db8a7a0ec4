import DBusLog.Server.Perform
import DBusLog.Tool.Process

/-!
# The calls and the exit status of the tool

At any time at most one call is awaited, and it is the one that `App` refers to. The calls are
those of the actions, in the order of the command line, and no server takes their arguments for
invalid ones. When the tool exits with `RET_OK`, everything has been done.
-/

namespace DBusLog

/-- The calls that an action may make. -/
def ToolAction.Makes : ToolAction → LoggerCall → Prop
  | .list, _ => False
  | .setLevel value, call => call = .setDefaultLevel value
  | .setBacklog value, call => call = .setBacklog value
  | .enableAll, call => call = .categoryEnablePattern "*"
  | .disableAll, call => call = .categoryDisablePattern "*"
  | .enable pattern, call => call = .categoryEnablePattern pattern
  | .disable pattern, call => call = .categoryDisablePattern pattern
  | .reset, call => ∃ names, names ≠ [] ∧
      (call = .categoryEnable names ∨ call = .categoryDisable names)

/-- The call is under way, and its function is `app_action_call_done`. -/
def ToolCall.Open (k : ToolCall) : Prop := k.fn = true ∧ k.reply = none

/-- A call that has just been made. -/
structure ToolCall.New (k : ToolCall) : Prop where
  awaited : k.awaited = k.fn
  cancelled : k.cancelled = false
  reply : k.reply = none

namespace ToolApp

/-- A new call of the action `number`. -/
structure Fresh (number : Nat) (action : ToolAction) (k : ToolCall) : Prop extends k.New where
  number : k.action = number
  makes : action.Makes k.call

/-- The call that is to be waited for is the last of the new ones, and the only one with a
function. -/
def Awaits (old : Nat) (added : List ToolCall) : Option Nat → Prop
  | none => ∀ k ∈ added, k.fn = false
  | some i => ∃ init last, added = init ++ [last] ∧ last.fn = true ∧ (∀ k ∈ init, k.fn = false) ∧
      i = old + init.length

/-- What the function of an action does. -/
structure Made (number : Nat) (action : ToolAction) (app : ToolApp)
    (r : Option Nat × ToolApp) : Prop where
  state : ∃ added stdout freed, r.2 = { app with
      calls := app.calls ++ added, stdout := stdout, freed := freed } ∧
    (∀ k ∈ added, Fresh number action k) ∧ Awaits app.calls.length added r.1 ∧
    (freed = app.freed ∨ r.1 = none ∧ freed = number :: app.freed)

section Actions

variable {app : ToolApp} {number : Nat} {action : ToolAction}

theorem Made.nothing (app : ToolApp) (number : Nat) (action : ToolAction) :
    Made number action app (none, app) :=
  ⟨[], app.stdout, app.freed, by simp, by simp, by simp [Awaits], .inl rfl⟩

theorem callNew_made {call : LoggerCall} (h : action.Makes call) :
    Made number action app (app.callNew number call true) := by
  unfold callNew
  split
  · refine ⟨[⟨call, number, true, true, false, none⟩], app.stdout, app.freed, rfl, ?_, ?_, .inl rfl⟩
    · intro k hk
      cases List.mem_singleton.mp hk
      exact ⟨⟨rfl, rfl, rfl⟩, rfl, h⟩
    · exact ⟨[], _, rfl, rfl, by simp, rfl⟩
  · exact .nothing app number action

theorem makes_switch {names : List String} (enable : Bool) (h : names ≠ []) :
    ToolAction.reset.Makes (if enable then .categoryEnable names else .categoryDisable names) := by
  refine ⟨names, h, ?_⟩
  cases enable with
  | true => exact .inl rfl
  | false => exact .inr rfl

theorem switchCategories_made (enable : Bool) {names : List String} (h : names ≠ []) :
    Made number .reset app (app.switchCategories number enable names true) := by
  unfold switchCategories
  rw [if_pos h]
  exact callNew_made (makes_switch enable h)

/-- The first call of a reset has no function. -/
theorem switchBoth_made {enable disable : List String} (he : enable ≠ []) (hd : disable ≠ []) :
    Made number .reset app
      ((app.switchCategories number true enable false).2.switchCategories number false disable
        true) := by
  unfold switchCategories
  rw [if_pos he, if_pos hd]
  unfold callNew
  by_cases hproxy : app.client.proxy.isSome = true
  · rw [if_pos hproxy]
    dsimp only
    rw [if_pos hproxy]
    refine ⟨[⟨.categoryEnable enable, number, false, false, false, none⟩,
      ⟨.categoryDisable disable, number, true, true, false, none⟩], app.stdout, app.freed, ?_, ?_,
      ?_, .inl rfl⟩
    · simp
    · intro k hk
      rcases List.mem_cons.mp hk with rfl | hk
      · exact ⟨⟨rfl, rfl, rfl⟩, rfl, makes_switch true he⟩
      · cases List.mem_singleton.mp hk
        exact ⟨⟨rfl, rfl, rfl⟩, rfl, makes_switch false hd⟩
    · exact ⟨[_], _, rfl, rfl, by simp, by simp⟩
  · rw [if_neg hproxy]
    dsimp only
    rw [if_neg hproxy]
    exact .nothing app number .reset

theorem actionReset_made : Made number .reset app (app.actionReset number) := by
  unfold actionReset
  generalize App.resetNames app.client.shownCategories = lists
  obtain ⟨enable, disable⟩ := lists
  dsimp only
  by_cases he : enable = []
  · by_cases hd : disable = []
    · rw [if_neg (by simp [he, hd])]
      exact .nothing app number .reset
    · rw [if_pos (.inr hd), if_neg (by simp [he]), if_neg (by simp [he])]
      exact switchCategories_made false hd
  · rw [if_pos (.inl he)]
    by_cases hd : disable = []
    · rw [if_neg (by simp [hd]), if_pos he]
      exact switchCategories_made true he
    · rw [if_pos ⟨he, hd⟩]
      exact switchBoth_made he hd

/-- The function of an action. -/
theorem runAction_made (app : ToolApp) (number : Nat) (action : ToolAction) :
    Made number action app (app.runAction number action) := by
  cases action with
  | list =>
    refine ⟨[], app.stdout ++ app.client.shownCategories.map categoryLine, number :: app.freed,
      ?_, by simp, ?_, .inr ⟨rfl, rfl⟩⟩
    · simp [runAction, actionList, freeAction]
    · simp [runAction, actionList, Awaits]
  | setLevel value => exact callNew_made rfl
  | setBacklog value =>
    show Made number _ app (app.actionSetBacklog number value)
    unfold actionSetBacklog
    split
    · exact callNew_made rfl
    · exact .nothing app number _
  | enableAll => exact callNew_made rfl
  | disableAll => exact callNew_made rfl
  | enable pattern => exact callNew_made rfl
  | disable pattern => exact callNew_made rfl
  | reset => exact actionReset_made

end Actions

/-! ## The calls -/

/-- The call `App` refers to is the one that is awaited. -/
def Current (calls : List ToolCall) (call : Option Nat) : Prop :=
  ∀ i, call = some i ↔ ∃ k, calls[i]? = some k ∧ k.Open

/-- What is known of the calls and the actions of a tool whose command line asks for the actions
`initial`. -/
structure Ledger (initial : List ToolAction) (app : ToolApp) : Prop where
  rest : app.actions = initial.drop app.begun
  begun : app.begun ≤ initial.length
  current : Current app.calls app.call
  made : ∀ k ∈ app.calls, k.action < app.begun ∧
    ∃ action, initial[k.action]? = some action ∧ action.Makes k.call
  ordered : (app.calls.map (·.action)).Pairwise (· ≤ ·)
  freed : app.freed.Nodup ∧ ∀ n ∈ app.freed, n < app.begun
  owned : ∀ k ∈ app.calls, k.Open → k.action ∉ app.freed
  uncancelled : ∀ k ∈ app.calls, k.fn = true → k.cancelled = false
  answered : app.ret = retOk → ∀ k ∈ app.calls, k.awaited = true → k.Open ∨ k.reply = some true
  covered : ∀ n < app.begun, ∀ action, initial[n]? = some action →
    action.silent = true ∨ n ∈ app.skipped ∨ ∃ k ∈ app.calls, k.action = n ∧ k.awaited = true

/-- What the actions leave alone. -/
structure SameLoop (app app' : ToolApp) : Prop where
  client : app'.client = app.client
  follow : app'.follow = app.follow
  ret : app'.ret = app.ret
  quits : app'.quits = app.quits
  running : app'.running = app.running
  messageHandlers : app'.messageHandlers = app.messageHandlers

theorem SameLoop.refl (app : ToolApp) : SameLoop app app := ⟨rfl, rfl, rfl, rfl, rfl, rfl⟩

theorem SameLoop.trans {app app' app'' : ToolApp} (h : SameLoop app app')
    (h' : SameLoop app' app'') : SameLoop app app'' where
  client := h'.client.trans h.client
  follow := h'.follow.trans h.follow
  ret := h'.ret.trans h.ret
  quits := h'.quits.trans h.quits
  running := h'.running.trans h.running
  messageHandlers := h'.messageHandlers.trans h.messageHandlers

section Calls

variable {initial : List ToolAction} {app : ToolApp} {number : Nat} {action : ToolAction}
  {calls added : List ToolCall} {call : Option Nat}

theorem Current.none_open (h : Current calls none) {k : ToolCall} (hk : k ∈ calls) : ¬k.Open := by
  intro hopen
  obtain ⟨i, hi⟩ := List.mem_iff_getElem?.mp hk
  cases (h i).mpr ⟨k, hi, hopen⟩

/-- Calls are added when none is awaited. -/
theorem Current.append (h : Current calls none) (hadded : Awaits calls.length added call)
    (hreply : ∀ k ∈ added, k.reply = none) : Current (calls ++ added) call := by
  intro i
  constructor
  · intro hi
    subst hi
    obtain ⟨init, last, rfl, hfn, _, rfl⟩ := hadded
    refine ⟨last, ?_, hfn, hreply last (by simp)⟩
    rw [List.getElem?_append_right (by omega), Nat.add_sub_cancel_left]
    simp
  · rintro ⟨k, hk, hopen⟩
    by_cases hlt : i < calls.length
    · rw [List.getElem?_append_left hlt] at hk
      exact absurd hopen (h.none_open (List.mem_of_getElem? hk))
    · rw [List.getElem?_append_right (Nat.le_of_not_lt hlt)] at hk
      cases call with
      | none =>
        have hfn := hadded k (List.mem_of_getElem? hk)
        cases hfn.symm.trans hopen.1
      | some j =>
        obtain ⟨init, last, rfl, _, hinit, rfl⟩ := hadded
        by_cases hlast : i - calls.length < init.length
        · rw [List.getElem?_append_left hlast] at hk
          have hfn := hinit k (List.mem_of_getElem? hk)
          cases hfn.symm.trans hopen.1
        · have hlen := (List.getElem?_eq_some_iff.mp hk).1
          simp only [List.length_append, List.length_singleton] at hlen
          exact congrArg some (by omega)

/-- One turn of the loop of `app_next_action`. -/
theorem Ledger.turn {rest : List ToolAction} (h : Ledger initial app)
    (hactions : app.actions = action :: rest) (hcall : app.call = none)
    {r : Option Nat × ToolApp}
    (hr : Made app.begun action { app with actions := rest, begun := app.begun + 1 } r) :
    Ledger initial { r.2 with
      call := r.1
      skipped := if r.1.isNone ∧ !action.silent then app.begun :: r.2.skipped else r.2.skipped } := by
  obtain ⟨added, stdout, freed, hstate, hfresh, hawaits, hfreed⟩ := hr
  obtain ⟨call, app'⟩ := r
  dsimp only at hstate hawaits hfreed ⊢
  subst hstate
  have hdrop := h.rest
  rw [hactions] at hdrop
  have hlt : app.begun < initial.length := by
    by_contra hle
    rw [List.drop_eq_nil_of_le (Nat.le_of_not_lt hle)] at hdrop
    cases hdrop
  rw [List.drop_eq_getElem_cons hlt] at hdrop
  obtain ⟨haction, hrest⟩ := List.cons.inj hdrop
  have hat : initial[app.begun]? = some action := by
    rw [List.getElem?_eq_getElem hlt, haction]
  have hcurrent : Current app.calls none := hcall ▸ h.current
  refine ⟨hrest, hlt, ?_, ?_, ?_, ?_, ?_, ?_, ?_, ?_⟩
  · exact hcurrent.append hawaits fun k hk => (hfresh k hk).reply
  · intro k hk
    rcases List.mem_append.mp hk with hk | hk
    · obtain ⟨hbegun, hmakes⟩ := h.made k hk
      exact ⟨Nat.lt_succ_of_lt hbegun, hmakes⟩
    · have hnumber := (hfresh k hk).number
      refine ⟨?_, action, ?_, (hfresh k hk).makes⟩
      · rw [hnumber]
        exact Nat.lt_succ_self _
      · rw [hnumber]
        exact hat
  · rw [List.map_append]
    refine List.pairwise_append.mpr ⟨h.ordered, ?_, ?_⟩
    · refine List.pairwise_iff_forall_sublist.mpr fun {a b} hab => ?_
      have hall : ∀ n ∈ added.map (·.action), n = app.begun := by
        intro n hn
        obtain ⟨k, hk, rfl⟩ := List.mem_map.mp hn
        exact (hfresh k hk).number
      rw [hall a (hab.subset (by simp)), hall b (hab.subset (by simp))]
    · intro a ha b hb
      obtain ⟨k, hk, rfl⟩ := List.mem_map.mp ha
      obtain ⟨k', hk', rfl⟩ := List.mem_map.mp hb
      rw [(hfresh k' hk').number]
      exact (h.made k hk).1.le
  · rcases hfreed with rfl | ⟨_, rfl⟩
    · exact ⟨h.freed.1, fun n hn => Nat.lt_succ_of_lt (h.freed.2 n hn)⟩
    · refine ⟨List.nodup_cons.mpr ⟨fun hmem => Nat.lt_irrefl _ (h.freed.2 _ hmem), h.freed.1⟩, ?_⟩
      intro n hn
      rcases List.mem_cons.mp hn with rfl | hn
      · exact Nat.lt_succ_self _
      · exact Nat.lt_succ_of_lt (h.freed.2 n hn)
  · intro k hk hopen
    rcases List.mem_append.mp hk with hold | hnew
    · exact absurd hopen (hcurrent.none_open hold)
    · rcases hfreed with rfl | ⟨rfl, _⟩
      · rw [(hfresh k hnew).number]
        exact fun hmem => Nat.lt_irrefl _ (h.freed.2 _ hmem)
      · cases (hawaits k hnew).symm.trans hopen.1
  · intro k hk hfn
    rcases List.mem_append.mp hk with hk | hk
    · exact h.uncancelled k hk hfn
    · exact (hfresh k hk).cancelled
  · intro hret k hk hawaited
    rcases List.mem_append.mp hk with hk | hk
    · exact h.answered hret k hk hawaited
    · have hnew := hfresh k hk
      exact .inl ⟨hnew.awaited.symm.trans hawaited, hnew.reply⟩
  · intro n hn b hb
    by_cases hsame : n = app.begun
    · subst hsame
      cases hat.symm.trans hb
      cases call with
      | none =>
        cases hsilent : action.silent with
        | true => exact .inl rfl
        | false => exact .inr (.inl (by simp))
      | some i =>
        obtain ⟨init, last, rfl, hfn, _, _⟩ := hawaits
        have hnew := hfresh last (by simp)
        exact .inr (.inr ⟨last, by simp, hnew.number, hnew.awaited.trans hfn⟩)
    · have hold : n < app.begun := Nat.lt_of_le_of_ne (Nat.le_of_lt_succ hn) hsame
      rcases h.covered n hold b hb with hs | hs | ⟨k, hk, hks⟩
      · exact .inl hs
      · refine .inr (.inl ?_)
        split
        · exact List.mem_cons_of_mem _ hs
        · exact hs
      · exact .inr (.inr ⟨k, List.mem_append_left _ hk, hks⟩)

/-- The state after one turn of the loop of `app_next_action`. -/
def turned (app : ToolApp) (action : ToolAction) (rest : List ToolAction) : ToolApp :=
  let r := { app with actions := rest, begun := app.begun + 1 }.runAction app.begun action
  { r.2 with
    call := r.1
    skipped := if r.1.isNone ∧ !action.silent then app.begun :: r.2.skipped else r.2.skipped }

theorem runActions_cons {rest : List ToolAction} (hcall : app.call = none) :
    runActions (action :: rest) app = runActions rest (app.turned action rest) := by
  rw [runActions, if_pos (by rw [hcall]; rfl)]
  rfl

theorem runActions_busy {actions : List ToolAction} (hcall : app.call ≠ none) :
    runActions actions app = { app with actions := actions } := by
  cases actions with
  | nil => rfl
  | cons action rest =>
    have hsome : ¬app.call.isNone = true := by simpa [Option.isNone_iff_eq_none] using hcall
    rw [runActions, if_neg hsome]

theorem turned_frame (app : ToolApp) (action : ToolAction) (rest : List ToolAction) :
    (app.turned action rest).actions = rest ∧ SameLoop app (app.turned action rest) ∧
      ∃ added, (app.turned action rest).calls = app.calls ++ added ∧ ∀ k ∈ added, k.New := by
  obtain ⟨added, _, _, hstate, hfresh, _⟩ :=
    runAction_made { app with actions := rest, begun := app.begun + 1 } app.begun action
  unfold turned
  dsimp only
  rw [hstate]
  exact ⟨rfl, ⟨rfl, rfl, rfl, rfl, rfl, rfl⟩, added, rfl, fun k hk => (hfresh k hk).toNew⟩

theorem runActions_frame (app : ToolApp) (actions : List ToolAction) :
    SameLoop app (runActions actions app) ∧
      ∃ added, (runActions actions app).calls = app.calls ++ added ∧ ∀ k ∈ added, k.New := by
  have hnone : ∃ added, app.calls = app.calls ++ added ∧ ∀ k ∈ added, k.New :=
    ⟨[], (List.append_nil _).symm, fun _ hk => nomatch hk⟩
  induction actions generalizing app with
  | nil => exact ⟨⟨rfl, rfl, rfl, rfl, rfl, rfl⟩, hnone⟩
  | cons action rest ih =>
    by_cases hcall : app.call = none
    · obtain ⟨_, hloop, added, hadded, hnew⟩ := turned_frame app action rest
      obtain ⟨hloop', added', hadded', hnew'⟩ := ih (app.turned action rest)
        ⟨[], (List.append_nil _).symm, fun _ hk => nomatch hk⟩
      rw [runActions_cons hcall]
      refine ⟨hloop.trans hloop', added ++ added', ?_, fun k hk => ?_⟩
      · rw [hadded', hadded, List.append_assoc]
      · rcases List.mem_append.mp hk with hk | hk
        · exact hnew k hk
        · exact hnew' k hk
    · rw [runActions_busy hcall]
      exact ⟨⟨rfl, rfl, rfl, rfl, rfl, rfl⟩, hnone⟩

/-- The loop of `app_next_action` stops at a call that is to be waited for. -/
theorem runActions_ledger (actions : List ToolAction) (h : Ledger initial app)
    (hactions : app.actions = actions) :
    Ledger initial (runActions actions app) ∧
      ((runActions actions app).call = none → (runActions actions app).actions = []) := by
  induction actions generalizing app with
  | nil =>
    have he : runActions [] app = app := by
      unfold runActions
      rw [← hactions]
    rw [he]
    exact ⟨h, fun _ => hactions⟩
  | cons action rest ih =>
    by_cases hcall : app.call = none
    · have hturned : Ledger initial (app.turned action rest) := h.turn hactions hcall
        (runAction_made { app with actions := rest, begun := app.begun + 1 } app.begun action)
      rw [runActions_cons hcall]
      exact ih hturned (turned_frame app action rest).1
    · rw [runActions_busy hcall, ← hactions]
      exact ⟨h, fun hnone => absurd hnone hcall⟩

/-- A call that is to be waited for has used an action up. -/
theorem runActions_fewer (actions : List ToolAction) (hcall : app.call = none)
    (hsome : (runActions actions app).call ≠ none) :
    (runActions actions app).actions.length < actions.length := by
  induction actions generalizing app with
  | nil => exact absurd hcall hsome
  | cons action rest ih =>
    rw [runActions_cons hcall] at hsome ⊢
    by_cases hnext : (app.turned action rest).call = none
    · exact Nat.lt_succ_of_lt (ih hnext hsome)
    · rw [runActions_busy hnext]
      exact Nat.lt_succ_self rest.length

end Calls

/-! ## The invariant -/

/-- Nothing is left to do. -/
def Finished (app : ToolApp) : Prop := app.actions = [] ∧ app.call = none ∧ app.follow = false

/-- The tool waits for a call, follows, or is to exit with `RET_CANCEL` and has cancelled a call. -/
def Occupied (app : ToolApp) : Prop :=
  app.call.isSome ∨ (app.follow = true ∧ app.actions = [] ∧ app.messageHandlers = 1) ∨
    app.ret = retCancel ∧ ∃ k ∈ app.calls, k.cancelled = true

structure ToolInv (settings : ToolSettings) (app : ToolApp) : Prop extends
    Ledger settings.actions app where
  follow : app.follow = settings.follow
  quitting : 0 < app.quits ∨ app.running = false → app.ret = retOk → Finished app
  occupied : app.running = true → app.client.connected = true → app.quits = 0 → Occupied app
  handlers : app.messageHandlers ≤ 1

/-- The calls and the actions are as they were. -/
structure SameLedger (app app' : ToolApp) : Prop where
  actions : app'.actions = app.actions
  calls : app'.calls = app.calls
  call : app'.call = app.call
  begun : app'.begun = app.begun
  skipped : app'.skipped = app.skipped
  freed : app'.freed = app.freed

section Invariant

variable {initial : List ToolAction} {settings : ToolSettings} {app app' : ToolApp}

theorem SameLedger.refl (app : ToolApp) : SameLedger app app := ⟨rfl, rfl, rfl, rfl, rfl, rfl⟩

theorem SameLedger.trans {app'' : ToolApp} (h : SameLedger app app') (h' : SameLedger app' app'') :
    SameLedger app app'' where
  actions := h'.actions.trans h.actions
  calls := h'.calls.trans h.calls
  call := h'.call.trans h.call
  begun := h'.begun.trans h.begun
  skipped := h'.skipped.trans h.skipped
  freed := h'.freed.trans h.freed

theorem Ledger.same (h : Ledger initial app) (hs : SameLedger app app')
    (hret : app'.ret = retOk → app.ret = retOk) : Ledger initial app' where
  rest := by rw [hs.actions, hs.begun]; exact h.rest
  begun := by rw [hs.begun]; exact h.begun
  current := by rw [hs.calls, hs.call]; exact h.current
  made := by rw [hs.calls, hs.begun]; exact h.made
  ordered := by rw [hs.calls]; exact h.ordered
  freed := by rw [hs.freed, hs.begun]; exact h.freed
  owned := by rw [hs.calls, hs.freed]; exact h.owned
  uncancelled := by rw [hs.calls]; exact h.uncancelled
  answered := by rw [hs.calls]; exact fun hok => h.answered (hret hok)
  covered := by rw [hs.calls, hs.begun, hs.skipped]; exact h.covered

/-! ### The next action -/

theorem openFile_same (app : ToolApp) : SameLedger app app.openFile ∧ SameLoop app app.openFile := by
  unfold openFile
  split
  · split
    · exact ⟨⟨rfl, rfl, rfl, rfl, rfl, rfl⟩, ⟨rfl, rfl, rfl, rfl, rfl, rfl⟩⟩
    · exact ⟨⟨rfl, rfl, rfl, rfl, rfl, rfl⟩, ⟨rfl, rfl, rfl, rfl, rfl, rfl⟩⟩
  · exact ⟨.refl app, .refl app⟩

/-- Following connects the handler of messages once. -/
theorem appFollow_same (app : ToolApp) (h : app.messageHandlers ≤ 1) :
    SameLedger app app.appFollow ∧ app.appFollow.follow = app.follow ∧
      app.appFollow.ret = app.ret ∧ app.appFollow.quits = app.quits ∧
      app.appFollow.running = app.running ∧ app.appFollow.messageHandlers = 1 := by
  have hhandlers : (if app.messageHandlers = 0 then { app with messageHandlers := 1 }
      else app).messageHandlers = 1 := by
    split
    · rfl
    · omega
  have hsame : SameLedger app (if app.messageHandlers = 0 then { app with messageHandlers := 1 }
      else app) := by
    split
    · exact ⟨rfl, rfl, rfl, rfl, rfl, rfl⟩
    · exact .refl app
  have hframe : ∀ b : ToolApp, b = (if app.messageHandlers = 0 then { app with messageHandlers := 1 }
      else app) → b.follow = app.follow ∧ b.ret = app.ret ∧ b.quits = app.quits ∧
      b.running = app.running := by
    rintro b rfl
    split
    · exact ⟨rfl, rfl, rfl, rfl⟩
    · exact ⟨rfl, rfl, rfl, rfl⟩
  unfold appFollow
  dsimp only
  generalize hb : (if app.messageHandlers = 0 then { app with messageHandlers := 1 } else app) = b
    at hhandlers hsame
  obtain ⟨hfollow, hret, hquits, hrunning⟩ := hframe b hb.symm
  split
  · obtain ⟨hledger, hloop⟩ :=
      openFile_same { b with client := (b.client.start .application).2 }
    have hstart : SameLedger b { b with client := (b.client.start .application).2 } :=
      ⟨rfl, rfl, rfl, rfl, rfl, rfl⟩
    exact ⟨(hsame.trans hstart).trans hledger,
      hloop.follow.trans hfollow, hloop.ret.trans hret, hloop.quits.trans hquits,
      hloop.running.trans hrunning, hloop.messageHandlers.trans hhandlers⟩
  · exact ⟨hsame, hfollow, hret, hquits, hrunning, hhandlers⟩

/-- The client may be started, and that is all. -/
theorem appFollow_client (app : ToolApp) : app.appFollow.client = app.client ∨
    app.appFollow.client = (app.client.start .application).2 := by
  have hclient : (if app.messageHandlers = 0 then { app with messageHandlers := 1 }
      else app).client = app.client := by
    split
    · rfl
    · rfl
  unfold appFollow
  dsimp only
  generalize (if app.messageHandlers = 0 then { app with messageHandlers := 1 } else app) = b
    at hclient ⊢
  rw [← hclient]
  split
  · exact .inr (openFile_same { b with client := (b.client.start .application).2 }).2.client
  · exact .inl rfl

/-- After `app_next_action` the tool waits for something, or it is about to quit with all actions
behind it. -/
theorem nextAction_inv (h : Ledger settings.actions app) (hfollow₀ : app.follow = settings.follow)
    (hquitting : 0 < app.quits ∨ app.running = false → app.ret = retOk → Finished app)
    (hhandlers : app.messageHandlers ≤ 1) : ToolInv settings app.nextAction := by
  obtain ⟨hledger, hdone⟩ := runActions_ledger app.actions h rfl
  have hloop := (runActions_frame app app.actions).1
  unfold nextAction
  dsimp only
  have hhandlers' : (runActions app.actions app).messageHandlers ≤ 1 := by
    rw [hloop.messageHandlers]
    exact hhandlers
  by_cases hcall : (runActions app.actions app).call = none
  · rw [if_pos (by rw [hcall]; rfl)]
    by_cases hfollow : app.follow = true
    · rw [if_pos (by rw [hloop.follow]; exact hfollow)]
      obtain ⟨hsame, hf, hret, hquits, hrunning, hone⟩ := appFollow_same _ hhandlers'
      refine ⟨hledger.same hsame fun hok => hret ▸ hok, hf.trans (hloop.follow.trans hfollow₀),
        fun hq hok => ?_, fun _ _ _ => ?_, hone.le⟩
      · -- a tool that is to follow does not quit by itself
        rw [hquits, hrunning, hloop.quits, hloop.running] at hq
        rw [hret, hloop.ret] at hok
        cases hfollow.symm.trans (hquitting hq hok).2.2
      · refine .inr (.inl ⟨hf.trans (hloop.follow.trans hfollow), ?_, hone⟩)
        exact hsame.actions.trans (hdone hcall)
    · have hno : app.follow = false := by simpa using hfollow
      rw [if_neg (by rw [hloop.follow]; exact hfollow)]
      refine ⟨hledger.same ⟨rfl, rfl, rfl, rfl, rfl, rfl⟩ id, hloop.follow.trans hfollow₀,
        fun _ _ => ?_, fun _ _ hq => ?_, hhandlers'⟩
      · exact ⟨hdone hcall, hcall, hloop.follow.trans hno⟩
      · exact absurd hq (Nat.succ_ne_zero _)
  · have hsome : (runActions app.actions app).call.isSome := Option.isSome_iff_ne_none.mpr hcall
    have hnot : ¬(runActions app.actions app).call.isNone = true := by simp [hcall]
    rw [if_neg hnot]
    refine ⟨hledger, hloop.follow.trans hfollow₀, fun hq hok => ?_, fun _ _ _ => .inl hsome,
      hhandlers'⟩
    rw [hloop.quits, hloop.running] at hq
    rw [hloop.ret] at hok
    obtain ⟨hactions, hnone, _⟩ := hquitting hq hok
    rw [hactions] at hcall
    exact absurd hnone hcall

theorem nextAction_quiet (app : ToolApp) (hhandlers : app.messageHandlers ≤ 1) :
    app.nextAction.ret = app.ret ∧ app.nextAction.client.notified = app.client.notified := by
  have hloop := (runActions_frame app app.actions).1
  have hquiet : (runActions app.actions app).ret = app.ret ∧
      (runActions app.actions app).client.notified = app.client.notified :=
    ⟨hloop.ret, by rw [hloop.client]⟩
  unfold nextAction
  dsimp only
  split
  · split
    · obtain ⟨_, _, hret, _⟩ := appFollow_same _ (hloop.messageHandlers ▸ hhandlers)
      refine ⟨hret.trans hquiet.1, Eq.trans ?_ hquiet.2⟩
      rcases appFollow_client (runActions app.actions app) with hclient | hclient
      · rw [hclient]
      · rw [hclient, ClientConnection.start_notified]
    · exact hquiet
  · exact hquiet

/-! ### The end of a call -/

theorem mem_modify {calls : List ToolCall} {i : Nat} {f : ToolCall → ToolCall} {k' : ToolCall}
    (h : k' ∈ calls.modify i f) :
    ∃ k ∈ calls, ∃ j, calls[j]? = some k ∧ k' = if i = j then f k else k := by
  obtain ⟨j, hj⟩ := List.mem_iff_getElem?.mp h
  rw [List.getElem?_modify] at hj
  obtain ⟨k, hk, rfl⟩ := Option.map_eq_some_iff.mp hj
  exact ⟨k, List.mem_of_getElem? hk, j, hk, rfl⟩

theorem mem_modify_of_mem {calls : List ToolCall} (i : Nat) (f : ToolCall → ToolCall) {k : ToolCall}
    (h : k ∈ calls) : k ∈ calls.modify i f ∨ f k ∈ calls.modify i f := by
  obtain ⟨j, hj⟩ := List.mem_iff_getElem?.mp h
  have hmod : (calls.modify i f)[j]? = some (if i = j then f k else k) := by
    rw [List.getElem?_modify, hj]
    rfl
  by_cases hij : i = j
  · rw [if_pos hij] at hmod
    exact .inr (List.mem_of_getElem? hmod)
  · rw [if_neg hij] at hmod
    exact .inl (List.mem_of_getElem? hmod)

/-- A call is updated, but what it asks for stays. -/
structure Update (f : ToolCall → ToolCall) : Prop where
  call : ∀ k, (f k).call = k.call
  action : ∀ k, (f k).action = k.action
  awaited : ∀ k, (f k).awaited = k.awaited

/-- Everything but the state of the awaited call survives the update of a call. -/
theorem Ledger.update {f : ToolCall → ToolCall} {i : Nat} {call : Option Nat} {freed : List Nat}
    {ret : Int} (h : Ledger initial app) (hf : Update f)
    (hcurrent : Current (app.calls.modify i f) call)
    (hfreed : freed.Nodup ∧ ∀ n ∈ freed, n < app.begun)
    (howned : ∀ k ∈ app.calls.modify i f, k.Open → k.action ∉ freed)
    (huncancelled : ∀ k ∈ app.calls, (f k).fn = true → k.fn = true ∧ (f k).cancelled = k.cancelled)
    (hanswered : ret = retOk → ∀ k ∈ app.calls.modify i f, k.awaited = true →
      k.Open ∨ k.reply = some true) :
    Ledger initial { app with
      calls := app.calls.modify i f, call := call, freed := freed, ret := ret } where
  rest := h.rest
  begun := h.begun
  current := hcurrent
  made k' hk' := by
    obtain ⟨k, hk, j, _, rfl⟩ := mem_modify hk'
    obtain ⟨hbegun, action, hat, hmakes⟩ := h.made k hk
    split
    · rw [hf.action, hf.call]
      exact ⟨hbegun, action, hat, hmakes⟩
    · exact ⟨hbegun, action, hat, hmakes⟩
  ordered := by
    have hmap : (app.calls.modify i f).map (·.action) = app.calls.map (·.action) := by
      refine List.ext_getElem? fun j => ?_
      rw [List.getElem?_map, List.getElem?_map, List.getElem?_modify]
      cases app.calls[j]? with
      | none => rfl
      | some k =>
        by_cases hij : i = j
        · simp [hij, hf.action]
        · simp [hij]
    show ((app.calls.modify i f).map (·.action)).Pairwise (· ≤ ·)
    rw [hmap]
    exact h.ordered
  freed := hfreed
  owned := howned
  uncancelled k' hk' hfn := by
    obtain ⟨k, hk, j, _, rfl⟩ := mem_modify hk'
    split at hfn
    next hij =>
      obtain ⟨hold, hcancelled⟩ := huncancelled k hk hfn
      rw [if_pos hij, hcancelled]
      exact h.uncancelled k hk hold
    next hij =>
      rw [if_neg hij]
      exact h.uncancelled k hk hfn
  answered := hanswered
  covered n hn action hat := by
    rcases h.covered n hn action hat with hs | hs | ⟨k, hk, hnumber, hawaited⟩
    · exact .inl hs
    · exact .inr (.inl hs)
    · rcases mem_modify_of_mem i f hk with hmem | hmem
      · exact .inr (.inr ⟨k, hmem, hnumber, hawaited⟩)
      · exact .inr (.inr ⟨f k, hmem, (hf.action k).trans hnumber, (hf.awaited k).trans hawaited⟩)

/-- The awaited call is over, or has no function any more. -/
theorem Current.close {calls : List ToolCall} {i : Nat} {f : ToolCall → ToolCall}
    (h : Current calls (some i)) (hf : ∀ k, ¬(f k).Open) : Current (calls.modify i f) none := by
  intro j
  constructor
  · intro hj
    cases hj
  · rintro ⟨k', hk', hopen⟩
    rw [List.getElem?_modify] at hk'
    obtain ⟨k, hk, rfl⟩ := Option.map_eq_some_iff.mp hk'
    by_cases hij : i = j
    · rw [if_pos hij] at hopen
      exact absurd hopen (hf k)
    · rw [if_neg hij] at hopen
      exact absurd (Option.some.inj ((h j).mpr ⟨k, hk, hopen⟩)) hij

/-- A call that nobody awaits is over. -/
theorem Current.settle {calls : List ToolCall} {call : Option Nat} {i : Nat} {k : ToolCall}
    {f : ToolCall → ToolCall} (h : Current calls call) (hk : calls[i]? = some k)
    (hnot : ¬k.Open) (hf : ¬(f k).Open) : Current (calls.modify i f) call := by
  intro j
  rw [h j, List.getElem?_modify]
  by_cases hij : i = j
  · subst hij
    rw [hk]
    simp [hnot, hf]
  · simp [hij]

theorem update_reply (ok : Bool) : Update fun k => { k with reply := some ok } :=
  ⟨fun _ => rfl, fun _ => rfl, fun _ => rfl⟩

theorem update_cancel : Update fun k => { k with fn := false, cancelled := true } :=
  ⟨fun _ => rfl, fun _ => rfl, fun _ => rfl⟩

/-- The end of the awaited call, which frees the action. -/
theorem Ledger.done {i : Nat} {k : ToolCall} (h : Ledger initial app) (hcall : app.call = some i)
    (hk : app.calls[i]? = some k) (hopen : k.Open) (ok : Bool) :
    Ledger initial { app with
      calls := app.calls.modify i fun k => { k with reply := some ok }
      call := none
      freed := k.action :: app.freed
      ret := if ok then app.ret else retErr } := by
  have hmem := List.mem_of_getElem? hk
  have hcurrent := hcall ▸ h.current
  have hclosed : Current (app.calls.modify i fun k => { k with reply := some ok }) none :=
    hcurrent.close fun k hk => by cases hk.2
  refine h.update (update_reply ok) hclosed ⟨?_, ?_⟩ ?_ (fun _ _ hfn => ⟨hfn, rfl⟩) ?_
  · exact List.nodup_cons.mpr ⟨h.owned k hmem hopen, h.freed.1⟩
  · intro n hn
    rcases List.mem_cons.mp hn with rfl | hn
    · exact (h.made k hmem).1
    · exact h.freed.2 n hn
  · intro k' hk' hopen'
    exact absurd hopen' (hclosed.none_open hk')
  · intro hret k' hk' hawaited
    obtain ⟨old, hold, j, hj, rfl⟩ := mem_modify hk'
    cases ok with
    | false => cases hret
    | true =>
      split
      · exact .inr rfl
      next hij =>
        rw [if_neg hij] at hawaited
        rcases h.answered hret old hold hawaited with hopen' | hreply
        · exact absurd (Option.some.inj ((hcurrent j).mpr ⟨old, hj, hopen'⟩)) hij
        · exact .inr hreply

/-- The end of a call without a function. -/
theorem Ledger.settle {i : Nat} {k : ToolCall} (h : Ledger initial app)
    (hk : app.calls[i]? = some k) (hfn : k.fn = false) (hreply : k.reply = none) (ok : Bool) :
    Ledger initial { app with
      calls := app.calls.modify i fun k => { k with reply := some ok } } := by
  have hnot : ¬k.Open := fun hopen => by cases hfn.symm.trans hopen.1
  refine h.update (update_reply ok) (h.current.settle hk hnot fun hopen => by cases hopen.2)
    h.freed ?_ (fun _ _ hfn => ⟨hfn, rfl⟩) ?_
  · intro k' hk' hopen'
    obtain ⟨old, hold, j, _, rfl⟩ := mem_modify hk'
    split at hopen'
    · cases hopen'.2
    next hij =>
      rw [if_neg hij]
      exact h.owned old hold hopen'
  · intro hret k' hk' hawaited
    obtain ⟨old, hold, j, hj, rfl⟩ := mem_modify hk'
    split at hawaited
    next hij =>
      -- a call that was to be awaited has been cancelled
      subst hij
      cases hk.symm.trans hj
      rcases h.answered hret k hold hawaited with hopen' | hdone
      · exact absurd hopen' hnot
      · cases hreply.symm.trans hdone
    next hij =>
      rw [if_neg hij]
      exact h.answered hret old hold hawaited

/-- A signal cancels the awaited call. -/
theorem Ledger.cancel {i : Nat} (h : Ledger initial app) (hcall : app.call = some i) :
    Ledger initial { app with
      calls := app.calls.modify i fun k => { k with fn := false, cancelled := true }
      call := none
      ret := retCancel } := by
  have hclosed : Current
      (app.calls.modify i fun k => { k with fn := false, cancelled := true }) none :=
    (hcall ▸ h.current).close fun k hk => by cases hk.1
  refine h.update update_cancel hclosed h.freed ?_ (fun _ _ hfn => (by cases hfn))
    fun hret => (by cases hret)
  intro k' hk' hopen'
  exact absurd hopen' (hclosed.none_open hk')

/-! ### Steps -/

theorem genericCallFinished_inv {i : Nat} {ok : Bool} (h : ToolInv settings app)
    (hmay : app.mayFinish i ok = true) :
    ToolInv settings (app.genericCallFinished i ok) := by
  unfold mayFinish at hmay
  cases hk : app.calls[i]? with
  | none =>
    rw [hk] at hmay
    cases hmay
  | some k =>
    rw [hk, Option.any_some, Bool.and_eq_true] at hmay
    have hreply : k.reply = none := Option.isNone_iff_eq_none.mp hmay.1
    unfold genericCallFinished
    rw [hk]
    dsimp only
    cases hfn : k.fn with
    | true =>
      have hcall : app.call = some i := (h.current i).mpr ⟨k, hk, hfn, hreply⟩
      have hledger := h.toLedger.done hcall hk ⟨hfn, hreply⟩ ok
      -- while a call is awaited the tool does not quit with `RET_OK`
      have hbusy : 0 < app.quits ∨ app.running = false → app.ret ≠ retOk := by
        intro hq hok
        cases hcall.symm.trans (h.quitting hq hok).2.1
      rw [if_pos rfl]
      cases ok with
      | true =>
        exact nextAction_inv hledger h.follow (fun hq hok => absurd hok (hbusy hq)) h.handlers
      | false =>
        exact ⟨hledger.same ⟨rfl, rfl, rfl, rfl, rfl, rfl⟩ id, h.follow, fun _ hok => (by cases hok),
          fun _ _ hq => absurd hq (Nat.succ_ne_zero _), h.handlers⟩
    | false =>
      rw [if_neg (by simp)]
      refine ⟨h.toLedger.settle hk hfn hreply ok, h.follow, h.quitting, fun hrunning hconnected hq =>
        ?_, h.handlers⟩
      rcases h.occupied hrunning hconnected hq with hcall | hfollows | ⟨hcancel, k', hk', hcancelled⟩
      · exact .inl hcall
      · exact .inr (.inl hfollows)
      · refine .inr (.inr ⟨hcancel, ?_⟩)
        rcases mem_modify_of_mem i (fun k => { k with reply := some ok }) hk' with hmem | hmem
        · exact ⟨_, hmem, hcancelled⟩
        · exact ⟨_, hmem, hcancelled⟩

theorem appSignal_inv (h : ToolInv settings app) : ToolInv settings app.appSignal.2 := by
  unfold appSignal
  dsimp only
  split
  next i hcall =>
    obtain ⟨k, hk, _⟩ := (h.current i).mp hcall
    have hcancelled : (app.calls.modify i fun k => { k with fn := false, cancelled := true })[i]? =
        some { k with fn := false, cancelled := true } := by
      rw [List.getElem?_modify_eq, hk]
      rfl
    exact ⟨h.toLedger.cancel hcall, h.follow, fun _ hok => (by cases hok), fun _ _ _ =>
      .inr (.inr ⟨rfl, _, List.mem_of_getElem? hcancelled, rfl⟩), h.handlers⟩
  next hcall =>
    exact ⟨h.toLedger.same ⟨rfl, rfl, rfl, rfl, rfl, rfl⟩ fun hok => (by cases hok), h.follow,
      fun _ hok => (by cases hok), fun _ _ hq => absurd hq (Nat.succ_ne_zero _), h.handlers⟩

/-- What a message does is no concern of the actions. -/
theorem clientMessage_same (app : ToolApp) (category : Option DBusLogCategory)
    (msg : DBusLogMessage) (time : String) (intact : Bool) :
    SameLedger app (app.clientMessage category msg time intact) ∧
      SameLoop app (app.clientMessage category msg time intact) := by
  unfold clientMessage print
  dsimp only
  split
  · split
    · exact ⟨⟨rfl, rfl, rfl, rfl, rfl, rfl⟩, ⟨rfl, rfl, rfl, rfl, rfl, rfl⟩⟩
    · exact ⟨⟨rfl, rfl, rfl, rfl, rfl, rfl⟩, ⟨rfl, rfl, rfl, rfl, rfl, rfl⟩⟩
  · exact ⟨⟨rfl, rfl, rfl, rfl, rfl, rfl⟩, ⟨rfl, rfl, rfl, rfl, rfl, rfl⟩⟩

theorem ToolInv.same (h : ToolInv settings app) (hledger : SameLedger app app')
    (hloop : SameLoop app app') : ToolInv settings app' where
  toLedger := h.toLedger.same hledger fun hok => hloop.ret ▸ hok
  follow := hloop.follow.trans h.follow
  quitting hq hok := by
    rw [hloop.quits, hloop.running] at hq
    rw [hloop.ret] at hok
    obtain ⟨hactions, hcall, hfollow⟩ := h.quitting hq hok
    exact ⟨hledger.actions.trans hactions, hledger.call.trans hcall, hloop.follow.trans hfollow⟩
  occupied hrunning hconnected hq := by
    rw [hloop.running] at hrunning
    rw [hloop.client] at hconnected
    rw [hloop.quits] at hq
    unfold Occupied
    rw [hledger.call, hloop.follow, hledger.actions, hloop.messageHandlers, hloop.ret,
      hledger.calls]
    exact h.occupied hrunning hconnected hq
  handlers := by
    rw [hloop.messageHandlers]
    exact h.handlers

theorem handlers_same (handlers : List Unit) (category : Option DBusLogCategory)
    (msg : DBusLogMessage) (time : String) (intact : Bool) (app : ToolApp) :
    SameLedger app (handlers.foldl (fun app _ => app.clientMessage category msg time intact) app) ∧
    SameLoop app (handlers.foldl (fun app _ => app.clientMessage category msg time intact) app) := by
  induction handlers generalizing app with
  | nil => exact ⟨.refl app, .refl app⟩
  | cons _ handlers ih =>
    obtain ⟨hledger, hloop⟩ := clientMessage_same app category msg time intact
    obtain ⟨hledger', hloop'⟩ := ih (app.clientMessage category msg time intact)
    exact ⟨hledger.trans hledger', hloop.trans hloop'⟩

/-- What `client_connected` prints does not matter for the rest. -/
theorem clientConnected_same (app : ToolApp) : ∃ shown : ToolApp,
    app.clientConnected = shown.nextAction ∧ SameLedger app shown ∧ SameLoop app shown := by
  have hlevel : ∀ b : ToolApp, b = (if app.printLogLevel then { app with
      printLogLevel := false
      stdout := app.stdout ++ [.number app.client.defaultLevel.toInt32] } else app) →
      SameLedger app b ∧ SameLoop app b := by
    rintro b rfl
    split
    · exact ⟨⟨rfl, rfl, rfl, rfl, rfl, rfl⟩, ⟨rfl, rfl, rfl, rfl, rfl, rfl⟩⟩
    · exact ⟨.refl app, .refl app⟩
  have hbacklog : ∀ b d : ToolApp, d = (if b.printBacklog then { b with
      printBacklog := false
      stdout := if b.client.apiVersion > 1 then b.stdout ++ [.number b.client.backlog]
        else b.stdout } else b) → SameLedger b d ∧ SameLoop b d := by
    rintro b d rfl
    split
    · exact ⟨⟨rfl, rfl, rfl, rfl, rfl, rfl⟩, ⟨rfl, rfl, rfl, rfl, rfl, rfl⟩⟩
    · exact ⟨.refl b, .refl b⟩
  obtain ⟨hledger, hloop⟩ := hlevel _ rfl
  obtain ⟨hledger', hloop'⟩ := hbacklog _ _ rfl
  exact ⟨_, rfl, hledger.trans hledger', hloop.trans hloop'⟩

/-- The tool goes on when the client has become connected. -/
theorem clientConnected_inv (h : Ledger settings.actions app)
    (hfollow₀ : app.follow = settings.follow)
    (hquitting : 0 < app.quits ∨ app.running = false → app.ret = retOk → Finished app)
    (hhandlers : app.messageHandlers ≤ 1) : ToolInv settings app.clientConnected := by
  obtain ⟨shown, hshown, hledger, hloop⟩ := clientConnected_same app
  rw [hshown]
  refine nextAction_inv (h.same hledger fun hok => hloop.ret ▸ hok) (hloop.follow.trans hfollow₀)
    (fun hq hok => ?_) ?_
  · rw [hloop.quits, hloop.running] at hq
    rw [hloop.ret] at hok
    obtain ⟨hactions, hcall, hfollow⟩ := hquitting hq hok
    exact ⟨hledger.actions.trans hactions, hledger.call.trans hcall, hloop.follow.trans hfollow⟩
  · rw [hloop.messageHandlers]
    exact hhandlers

theorem clientConnected_quiet (app : ToolApp) (hhandlers : app.messageHandlers ≤ 1) :
    app.clientConnected.ret = app.ret ∧
      app.clientConnected.client.notified = app.client.notified := by
  obtain ⟨shown, hshown, _, hloop⟩ := clientConnected_same app
  obtain ⟨hret, hnotified⟩ :=
    nextAction_quiet shown (hloop.messageHandlers ▸ hhandlers)
  rw [hshown]
  exact ⟨hret.trans hloop.ret, hnotified.trans (by rw [hloop.client])⟩

/-- The client has signalled something. -/
theorem handleSignals_inv (h : ToolInv settings app) (c : ClientConnection) :
    ToolInv settings ({ app with client := c }.handleSignals app.client) := by
  have hledger : Ledger settings.actions { app with client := c } :=
    h.toLedger.same ⟨rfl, rfl, rfl, rfl, rfl, rfl⟩ id
  unfold handleSignals
  dsimp only
  split
  · -- the attempt to connect has failed
    split
    · refine clientConnected_inv (hledger.same ⟨rfl, rfl, rfl, rfl, rfl, rfl⟩ fun hok => ?_)
        h.follow (fun _ hok => (by cases hok)) h.handlers
      cases hok
    · exact ⟨hledger.same ⟨rfl, rfl, rfl, rfl, rfl, rfl⟩ fun hok => (by cases hok), h.follow,
        fun _ hok => (by cases hok), fun _ _ hq => absurd hq (Nat.succ_ne_zero _), h.handlers⟩
  · split
    · exact clientConnected_inv hledger h.follow h.quitting h.handlers
    next hquiet =>
      refine ⟨hledger, h.follow, h.quitting, fun hrunning hconnected hq => ?_, h.handlers⟩
      have hbefore : app.client.connected = true := by
        by_contra hno
        exact hquiet ⟨hconnected, by simpa using hno⟩
      exact h.occupied hrunning hbefore hq

/-- The step lemma. -/
theorem ToolInv.step {event : ToolEvent} (h : ToolInv settings app)
    (hs : app.step event = some app') : ToolInv settings app' := by
  unfold ToolApp.step at hs
  split at hs
  next =>
    cases event with
    | client event =>
      dsimp only at hs
      split at hs
      · obtain ⟨c, _, rfl⟩ := Option.map_eq_some_iff.mp hs
        exact handleSignals_inv h c
      · cases hs
    | finished call ok =>
      dsimp only at hs
      split at hs
      next hmay =>
        cases hs
        exact genericCallFinished_inv h hmay
      next => cases hs
    | message msg time intact =>
      dsimp only at hs
      split at hs
      · cases hs
        obtain ⟨hledger, hloop⟩ := handlers_same (List.replicate app.messageHandlers ())
          ((app.client.receiverMessage msg).1.bind fun p => app.client.memory[p]?)
          (app.client.receiverMessage msg).2 time intact app
        exact h.same hledger hloop
      · cases hs
    | sigterm =>
      dsimp only at hs
      split at hs
      · cases hs
        have hsignal := appSignal_inv h
        unfold appSigterm
        dsimp only
        split
        · exact hsignal
        · exact ⟨hsignal.toLedger.same ⟨rfl, rfl, rfl, rfl, rfl, rfl⟩ id, hsignal.follow,
            hsignal.quitting, hsignal.occupied, hsignal.handlers⟩
      · cases hs
    | sigint =>
      dsimp only at hs
      split at hs
      · cases hs
        have hsignal := appSignal_inv h
        unfold appSigint
        dsimp only
        split
        · exact hsignal
        · exact ⟨hsignal.toLedger.same ⟨rfl, rfl, rfl, rfl, rfl, rfl⟩ id, hsignal.follow,
            hsignal.quitting, hsignal.occupied, hsignal.handlers⟩
      · cases hs
    | timeout =>
      dsimp only at hs
      split at hs
      · cases hs
        exact ⟨h.toLedger.same ⟨rfl, rfl, rfl, rfl, rfl, rfl⟩ fun hok => (by cases hok), h.follow,
          fun _ hok => (by cases hok), fun _ _ hq => absurd hq (Nat.succ_ne_zero _), h.handlers⟩
      · cases hs
    | idle =>
      dsimp only at hs
      split at hs
      next hq =>
        cases hs
        exact ⟨h.toLedger.same ⟨rfl, rfl, rfl, rfl, rfl, rfl⟩ id, h.follow,
          fun _ hok => h.quitting (.inl hq) hok, fun hrun => (by cases hrun), h.handlers⟩
      next => cases hs
  next => cases hs

theorem start_inv (settings : ToolSettings) (canOpen : Bool) :
    ToolInv settings (start settings canOpen) := by
  refine ⟨⟨rfl, Nat.zero_le _, ?_, ?_, List.Pairwise.nil, ⟨List.nodup_nil, ?_⟩, ?_, ?_, ?_, ?_⟩, rfl,
    ?_, ?_, Nat.zero_le _⟩
  · intro i
    simp [start]
  · exact fun _ hk => (by cases hk)
  · exact fun _ hn => (by cases hn)
  · exact fun _ hk => (by cases hk)
  · exact fun _ hk => (by cases hk)
  · exact fun _ _ hk => (by cases hk)
  · exact fun _ hn => absurd hn (Nat.not_lt_zero _)
  · rintro (hq | hr)
    · exact absurd hq (Nat.lt_irrefl 0)
    · cases hr
  · exact fun _ hconnected => (by cases hconnected)

/-! ### The exit status -/

theorem genericCallFinished_retOk {i : Nat} {ok : Bool} (h : ToolInv settings app)
    (hmay : app.mayFinish i ok = true) (hret : (app.genericCallFinished i ok).ret = retOk) :
    app.ret = retOk ∧
      (app.genericCallFinished i ok).client.notified = app.client.notified := by
  unfold mayFinish at hmay
  unfold genericCallFinished at hret ⊢
  cases hk : app.calls[i]? with
  | none =>
    rw [hk] at hmay
    cases hmay
  | some k =>
    rw [hk, Option.any_some, Bool.and_eq_true] at hmay
    rw [hk] at hret
    dsimp only at hret ⊢
    cases hfn : k.fn with
    | true =>
      rw [if_pos hfn] at hret
      rw [if_pos rfl]
      cases ok with
      | true =>
        have hkeeps := nextAction_quiet (freeAction { app with
          calls := app.calls.modify i fun k => { k with reply := some true }
          call := none } k.action) h.handlers
        exact ⟨hkeeps.1.symm.trans hret, hkeeps.2⟩
      | false => cases hret
    | false =>
      rw [if_neg (by simp [hfn])] at hret
      exact ⟨hret, rfl⟩

/-- A failed connection is signalled. -/
theorem handleSignals_retOk (h : ToolInv settings app) {c : ClientConnection}
    (hgrows : app.client.notified <+: c.notified)
    (hret : ({ app with client := c }.handleSignals app.client).ret = retOk) :
    app.ret = retOk ∧
      (.connectError ∈ ({ app with client := c }.handleSignals app.client).client.notified →
        .connectError ∈ app.client.notified) := by
  obtain ⟨more, hmore⟩ := hgrows
  unfold handleSignals at hret ⊢
  dsimp only at hret ⊢
  rw [← hmore, List.drop_left] at hret ⊢
  by_cases herror : .connectError ∈ more
  · -- the status is that of an error from now on
    rw [if_pos herror] at hret
    have hfailed : { app with client := c }.clientConnectError.ret ≠ retOk := by
      show retErr ≠ retOk
      decide
    have hkeeps := (clientConnected_quiet { app with client := c }.clientConnectError h.handlers).1
    split at hret
    · exact absurd (hkeeps.symm.trans hret) hfailed
    · exact absurd hret hfailed
  · rw [if_neg herror] at hret ⊢
    have hquiet : .connectError ∈ c.notified → .connectError ∈ app.client.notified := by
      rw [← hmore]
      exact fun hmem => (List.mem_append.mp hmem).resolve_right herror
    split at hret
    next hconnected =>
      obtain ⟨hkeeps, hnotified⟩ := clientConnected_quiet { app with client := c } h.handlers
      rw [if_pos hconnected, hnotified]
      exact ⟨hkeeps.symm.trans hret, hquiet⟩
    next hconnected =>
      rw [if_neg hconnected]
      exact ⟨hret, hquiet⟩

/-- A tool that is still to exit with `RET_OK` has not been told to stop, has not waited too long,
and has not failed to connect. -/
theorem step_retOk {event : ToolEvent} (h : ToolInv settings app)
    (hs : app.step event = some app') (hret : app'.ret = retOk) :
    app.ret = retOk ∧ event ≠ .sigterm ∧ event ≠ .sigint ∧ event ≠ .timeout ∧
      (.connectError ∈ app'.client.notified → .connectError ∈ app.client.notified) := by
  have hsignal : app.appSignal.2.ret ≠ retOk := by
    unfold appSignal
    dsimp only
    split
    · exact (by decide : retCancel ≠ retOk)
    · exact (by decide : retCancel ≠ retOk)
  unfold ToolApp.step at hs
  split at hs
  next =>
    cases event with
    | client event =>
      obtain ⟨_, hs⟩ := Option.ite_none_right_eq_some.mp hs
      obtain ⟨c, hc, rfl⟩ := Option.map_eq_some_iff.mp hs
      obtain ⟨hbefore, hnotified⟩ :=
        handleSignals_retOk h (ClientConnection.step_notified hc) hret
      exact ⟨hbefore, nofun, nofun, nofun, hnotified⟩
    | finished call ok =>
      obtain ⟨hmay, hs⟩ := Option.ite_none_right_eq_some.mp hs
      cases hs
      obtain ⟨hbefore, hnotified⟩ := genericCallFinished_retOk h hmay hret
      exact ⟨hbefore, nofun, nofun, nofun, fun hmem => hnotified ▸ hmem⟩
    | message msg time intact =>
      obtain ⟨_, hs⟩ := Option.ite_none_right_eq_some.mp hs
      cases hs
      obtain ⟨_, hloop⟩ := handlers_same (List.replicate app.messageHandlers ())
        ((app.client.receiverMessage msg).1.bind fun p => app.client.memory[p]?)
        (app.client.receiverMessage msg).2 time intact app
      exact ⟨hloop.ret.symm.trans hret, nofun, nofun, nofun, fun hmem => hloop.client ▸ hmem⟩
    | sigterm =>
      obtain ⟨_, hs⟩ := Option.ite_none_right_eq_some.mp hs
      cases hs
      unfold appSigterm at hret
      dsimp only at hret
      split at hret
      · exact absurd hret hsignal
      · exact absurd hret hsignal
    | sigint =>
      obtain ⟨_, hs⟩ := Option.ite_none_right_eq_some.mp hs
      cases hs
      unfold appSigint at hret
      dsimp only at hret
      split at hret
      · exact absurd hret hsignal
      · exact absurd hret hsignal
    | timeout =>
      obtain ⟨_, hs⟩ := Option.ite_none_right_eq_some.mp hs
      cases hs
      cases hret
    | idle =>
      obtain ⟨_, hs⟩ := Option.ite_none_right_eq_some.mp hs
      cases hs
      exact ⟨hret, nofun, nofun, nofun, id⟩
  next => cases hs

/-- The same for a run. -/
theorem run_retOk {events : List ToolEvent} (h : ToolInv settings app)
    (hrun : run app events = some app') (hret : app'.ret = retOk) :
    app.ret = retOk ∧ .sigterm ∉ events ∧ .sigint ∉ events ∧ .timeout ∉ events ∧
      (.connectError ∈ app'.client.notified → .connectError ∈ app.client.notified) := by
  induction events generalizing app with
  | nil =>
    cases hrun
    exact ⟨hret, List.not_mem_nil, List.not_mem_nil, List.not_mem_nil, id⟩
  | cons event events ih =>
    obtain ⟨next, hs, hrun⟩ := Runs.run_cons_iff.mp hrun
    obtain ⟨hret', hterm, hint, htimeout, hnotified⟩ := ih (h.step hs) hrun
    obtain ⟨hbefore, hterm₁, hint₁, htimeout₁, hnotified₁⟩ := step_retOk h hs hret'
    exact ⟨hbefore, List.not_mem_cons_of_ne_of_not_mem hterm₁.symm hterm,
      List.not_mem_cons_of_ne_of_not_mem hint₁.symm hint,
      List.not_mem_cons_of_ne_of_not_mem htimeout₁.symm htimeout,
      fun hmem => hnotified₁ (hnotified hmem)⟩

/-- In every run. -/
theorem run_inv {settings : ToolSettings} {canOpen : Bool} {events : List ToolEvent}
    (hrun : run (start settings canOpen) events = some app) : ToolInv settings app :=
  Runs.invariant_of_forall (C := fun _ => True) (fun _ _ _ h _ hs => h.step hs)
    (fun _ _ => trivial) hrun (start_inv settings canOpen)

end Invariant

end ToolApp

/-! ## The command line and the server -/

/-- The argument of an action is in the range that its option checks. -/
def ToolAction.Valid : ToolAction → Prop
  | .setLevel value => value > Level.undefined.toInt32 ∧ value < Level.count.toInt32
  | .setBacklog value => value > 0
  | _ => True

/-- Every server replies to the call with success, unless it denies the access. -/
def LoggerCall.Taken (call : LoggerCall) : Prop :=
  ∀ (Cred Policy β : Type) (lib : Libraries Cred Policy) (klass : DBusLogServerClass β)
    (ctx : ServerContext) (s : DBusLogServer Policy β) (sender : String),
    (s.perform lib klass ctx sender call).1 = .methodReturn [] ∨
      (s.perform lib klass ctx sender call).1 = DBusLogServer.errorReply (-eacces)

section Valid

variable {s s' : ToolSettings}

theorem addAction_valid {action : ToolAction} (h : ∀ a ∈ s.actions, a.Valid)
    (hvalid : action.Valid) : ∀ a ∈ (s.addAction action).actions, a.Valid := by
  intro a ha
  rcases List.mem_append.mp ha with ha | ha
  · exact h a ha
  · cases List.mem_singleton.mp ha
    exact hvalid

/-- One option. -/
theorem option_valid (h : ∀ a ∈ s.actions, a.Valid) {opt : ToolOption}
    (hs : s.option opt = some s') : ∀ a ∈ s'.actions, a.Valid := by
  cases opt with
  | logLevel value =>
    simp only [ToolSettings.option, ToolSettings.optionLogLevel] at hs
    split at hs
    next hrange =>
      cases hs
      exact addAction_valid h hrange
    next => cases hs
  | backlog value =>
    simp only [ToolSettings.option, ToolSettings.optionBacklog] at hs
    split at hs
    next hrange =>
      cases hs
      exact addAction_valid h hrange
    next => cases hs
  | all =>
    cases hs
    exact addAction_valid h trivial
  | none =>
    cases hs
    exact addAction_valid h trivial
  | enable pattern =>
    cases hs
    exact addAction_valid h trivial
  | disable pattern =>
    cases hs
    exact addAction_valid h trivial
  | reset =>
    cases hs
    exact addAction_valid h trivial
  | _ =>
    cases hs
    exact h

theorem options_valid (opts : List ToolOption) (h : ∀ a ∈ s.actions, a.Valid)
    (hs : s.options opts = some s') : ∀ a ∈ s'.actions, a.Valid := by
  induction opts generalizing s with
  | nil =>
    cases hs
    exact h
  | cons opt opts ih =>
    obtain ⟨t, ht, hs⟩ := Option.bind_eq_some_iff.mp hs
    exact ih (option_valid h ht) hs

theorem finish_valid (h : ∀ a ∈ s.actions, a.Valid) : ∀ a ∈ s.finish.actions, a.Valid := by
  have hlist : ∀ a ∈ (if s.list then s.addAction .list else s).actions, a.Valid := by
    split
    · exact addAction_valid h trivial
    · exact h
  unfold ToolSettings.finish
  dsimp only
  generalize (if s.list then s.addAction .list else s) = t at hlist
  generalize hd : (if t.actions = [] ∧ !t.printLogLevel ∧ !t.printBacklog then
      { t with follow := true } else t) = d
  have hactions : d.actions = t.actions := by
    rw [← hd]
    split <;> rfl
  rw [← hactions] at hlist
  split
  · exact hlist
  · exact hlist

/-- What `app_init` accepts. -/
theorem appInit_valid {opts : List ToolOption} {args : List String} {path service : String}
    {settings : ToolSettings} (h : appInit opts args = some (path, service, settings)) :
    ∀ a ∈ settings.actions, a.Valid := by
  have hzero : ∀ a ∈ ToolSettings.zero.actions, a.Valid := fun _ ha => (by cases ha)
  unfold appInit at h
  split at h
  next s service' hopts =>
    cases h
    exact finish_valid (options_valid opts hzero hopts)
  next s path' service' hopts =>
    cases h
    exact finish_valid (options_valid opts hzero hopts)
  next => cases h

/-- The range of `app_option_log_level` is that of `dbus_log_core_set_default_level`. -/
theorem level_in_range {value : Int32} (h : value > Level.undefined.toInt32)
    (h' : value < Level.count.toInt32) :
    value.toUInt32 ≥ Level.always ∧ value.toUInt32 < Level.count := by
  have hpos : (0 : Int) < value.toInt := Int32.lt_iff_toInt_lt.mp h
  have hlt : value.toInt < 9 := Int32.lt_iff_toInt_lt.mp h'
  have hsigned : value.toInt = value.toUInt32.toBitVec.toInt := rfl
  have hunsigned : value.toUInt32.toBitVec.toNat = value.toUInt32.toNat := rfl
  rw [BitVec.toInt_eq_toNat_cond] at hsigned
  constructor
  · show Level.always ≤ value.toUInt32
    rw [UInt32.le_iff_toNat_le]
    show 1 ≤ value.toUInt32.toNat
    split at hsigned <;> omega
  · rw [UInt32.lt_iff_toNat_lt]
    show value.toUInt32.toNat < 9
    split at hsigned <;> omega

/-- A setter that finds nothing wrong but the access. -/
theorem finish_taken {Policy β : Type} {r : Int × DBusLogServer Policy β}
    (h : r.1 = 0 ∨ r.1 = -eacces) :
    (DBusLogServer.finish r).1 = .methodReturn [] ∨
      (DBusLogServer.finish r).1 = DBusLogServer.errorReply (-eacces) := by
  unfold DBusLogServer.finish
  rcases h with h | h
  · rw [h]
    exact .inl rfl
  · rw [h]
    exact .inr rfl

theorem names_taken {Cred Policy β : Type} (lib : Libraries Cred Policy)
    (klass : DBusLogServerClass β) (s : DBusLogServer Policy β) (sender : String)
    (names : List String) (enable : Bool) :
    (s.callSetNamesEnabled lib klass sender names enable).1 = 0 ∨
      (s.callSetNamesEnabled lib klass sender names enable).1 = -eacces := by
  unfold DBusLogServer.callSetNamesEnabled
  split
  · exact .inr rfl
  · exact .inl rfl

theorem pattern_taken {Cred Policy β : Type} (lib : Libraries Cred Policy)
    (klass : DBusLogServerClass β) (s : DBusLogServer Policy β) (sender : String)
    (pattern : Option String) (enable : Bool) :
    (s.callSetPatternEnabled lib klass sender pattern enable).1 = 0 ∨
      (s.callSetPatternEnabled lib klass sender pattern enable).1 = -eacces := by
  unfold DBusLogServer.callSetPatternEnabled
  split
  · exact .inr rfl
  · exact .inl rfl

/-- The calls of valid actions. -/
theorem taken_of_makes {action : ToolAction} {call : LoggerCall} (hvalid : action.Valid)
    (hmakes : action.Makes call) : call.Taken := by
  intro Cred Policy β lib klass ctx s sender
  cases action with
  | list => exact hmakes.elim
  | setLevel value =>
    cases hmakes
    obtain ⟨hlow, hhigh⟩ := hvalid
    refine finish_taken ?_
    unfold DBusLogServer.callSetDefaultLevel
    split
    · exact .inr rfl
    · unfold DBusLogCore.setDefaultLevel
      rw [if_pos (level_in_range hlow hhigh)]
      exact .inl rfl
  | setBacklog value =>
    cases hmakes
    refine finish_taken ?_
    unfold DBusLogServer.callSetBacklog
    split
    · exact .inr rfl
    · exact .inl rfl
  | enableAll =>
    cases hmakes
    exact finish_taken (pattern_taken lib klass s sender _ true)
  | disableAll =>
    cases hmakes
    exact finish_taken (pattern_taken lib klass s sender _ false)
  | enable pattern =>
    cases hmakes
    exact finish_taken (pattern_taken lib klass s sender _ true)
  | disable pattern =>
    cases hmakes
    exact finish_taken (pattern_taken lib klass s sender _ false)
  | reset =>
    obtain ⟨names, _, rfl | rfl⟩ := hmakes
    · exact finish_taken (names_taken lib klass s sender names true)
    · exact finish_taken (names_taken lib klass s sender names false)

end Valid

namespace ToolApp

section Run

variable {opts : List ToolOption} {args : List String} {path service : String}
  {settings : ToolSettings} {canOpen : Bool} {events : List ToolEvent} {app : ToolApp}

/-- The actions that are left have not been freed. -/
theorem ToolInv.destroy_nodup (h : ToolInv settings app) : app.destroy.freed.Nodup := by
  refine List.nodup_append.mpr ⟨?_, h.freed.1, fun n hn n' hn' heq => ?_⟩
  · exact List.nodup_reverse.mpr List.nodup_range'
  · have hle := (List.mem_range'_1.mp (List.mem_reverse.mp hn)).1
    have hlt := h.freed.2 n' hn'
    omega

/-- In every run of an accepted command line at most one call is awaited, and it is the one that
`App` refers to: the assertion of `app_action_call_done` holds, and a signal never cancels a call
that is over. The calls have been made in the order of the command line, and a server refuses none
of them but for the access. No action is freed twice, or before its call is over. -/
theorem callsInOrder (hinit : appInit opts args = some (path, service, settings))
    (hrun : run (start settings canOpen) events = some app) :
    (∀ i, app.call = some i ↔
      ∃ k, app.calls[i]? = some k ∧ k.fn = true ∧ k.reply = none) ∧
    (app.calls.map (·.action)).Pairwise (· ≤ ·) ∧
    (∀ k ∈ app.calls, k.call.Taken ∧
      ∃ action, settings.actions[k.action]? = some action ∧ action.Makes k.call) ∧
    app.destroy.freed.Nodup ∧
    ∀ k ∈ app.calls, k.fn = true → k.reply = none → k.action ∉ app.freed := by
  have h := run_inv hrun
  refine ⟨h.current, h.ordered, fun k hk => ?_, h.destroy_nodup,
    fun k hk hfn hreply => h.owned k hk ⟨hfn, hreply⟩⟩
  obtain ⟨_, action, hat, hmakes⟩ := h.made k hk
  exact ⟨taken_of_makes (appInit_valid hinit action (List.mem_of_getElem? hat)) hmakes,
    action, hat, hmakes⟩

/-- A tool that sets a level and enables some categories, and its first call. -/
theorem callsInOrder_run : ∃ app, appInit [.logLevel "3", .enable "a*"] ["logger"] =
      some ("/", "logger", { ToolSettings.zero with actions := [.setLevel 3, .enable "a*"] }) ∧
    run (start { ToolSettings.zero with actions := [.setLevel 3, .enable "a*"] } true)
      [.client .nameAppeared, .client (.proxyCreated 0 true),
        .client (.gotInterfaceVersion 0 (some 2)), .client (.gotAll2 0 (some (5, [], 1000)))] =
      some app ∧
    app.call = some 0 ∧ ∀ k ∈ app.calls, k.call.Taken := by
  obtain ⟨app, happ, hcall⟩ := Option.map_eq_some_iff.mp (by decide : (run (start
    { ToolSettings.zero with actions := [.setLevel 3, .enable "a*"] } true)
    [.client .nameAppeared, .client (.proxyCreated 0 true),
      .client (.gotInterfaceVersion 0 (some 2)), .client (.gotAll2 0 (some (5, [], 1000)))]).map
      (·.call) = some (some 0))
  have hinit : appInit [.logLevel "3", .enable "a*"] ["logger"] =
      some ("/", "logger", { ToolSettings.zero with actions := [.setLevel 3, .enable "a*"] }) := by
    decide
  exact ⟨app, hinit, happ, hcall, fun k hk => ((callsInOrder hinit happ).2.2.1 k hk).1⟩

theorem toolMain_eq_some {ret : Int} {result : Option ToolApp} (hret : ret ≠ retErr)
    (h : toolMain opts args canOpen events = some (ret, result)) :
    ∃ path service settings app, appInit opts args = some (path, service, settings) ∧
      run (start settings canOpen) events = some app ∧ app.running = false ∧ app.ret = ret := by
  unfold toolMain at h
  split at h
  next path service settings hinit =>
    obtain ⟨app, hrun, hend⟩ := Option.bind_eq_some_iff.mp h
    split at hend
    · cases hend
    next hended =>
      cases hend
      exact ⟨path, service, settings, app, hinit, hrun, by simpa using hended, rfl⟩
  next =>
    cases h
    exact absurd rfl hret

/-- When the tool exits with `RET_OK`, its command line has been accepted and does not tell it to
follow, no signal has come, no time has run out and no attempt to connect has failed. Every action
has been begun, and every call that an action has waited for has been answered without an error.
Each action other than `list` and `reset` has made such a call, unless its function has returned
NULL. -/
theorem exitOk {result : Option ToolApp}
    (hmain : toolMain opts args canOpen events = some (retOk, result)) :
    ∃ path service settings app, appInit opts args = some (path, service, settings) ∧
      run (start settings canOpen) events = some app ∧
      settings.follow = false ∧ .sigterm ∉ events ∧ .sigint ∉ events ∧ .timeout ∉ events ∧
      .connectError ∉ app.client.notified ∧ app.begun = settings.actions.length ∧
      (∀ k ∈ app.calls, k.awaited = true → k.reply = some true) ∧
      ∀ n action, settings.actions[n]? = some action → action.silent = false → n ∉ app.skipped →
        ∃ k ∈ app.calls, k.action = n ∧ action.Makes k.call ∧ k.reply = some true := by
  obtain ⟨path, service, settings, app, hinit, hrun, hended, hret⟩ :=
    toolMain_eq_some (by decide) hmain
  refine ⟨path, service, settings, app, hinit, hrun, ?_⟩
  have h := run_inv hrun
  obtain ⟨hactions, hcall, hfollow⟩ := h.quitting (.inr hended) hret
  have hbegun : app.begun = settings.actions.length := by
    have hle := List.drop_eq_nil_iff.mp (h.rest.symm.trans hactions)
    exact Nat.le_antisymm h.begun hle
  have hreplies : ∀ k ∈ app.calls, k.awaited = true → k.reply = some true := by
    intro k hk hawaited
    rcases h.answered hret k hk hawaited with hopen | hreply
    · exact absurd hopen (Current.none_open (hcall ▸ h.current) hk)
    · exact hreply
  obtain ⟨_, hterm, hint, htimeout, hnotified⟩ := run_retOk (start_inv settings canOpen) hrun hret
  refine ⟨h.follow.symm.trans hfollow, hterm, hint, htimeout,
    fun hmem => List.not_mem_nil (hnotified hmem), hbegun, hreplies,
    fun n action hat hsilent hskipped => ?_⟩
  have hlt : n < app.begun := hbegun ▸ (List.getElem?_eq_some_iff.mp hat).1
  rcases h.covered n hlt action hat with hs | hs | ⟨k, hk, rfl, hawaited⟩
  · cases hsilent.symm.trans hs
  · exact absurd hs hskipped
  · obtain ⟨_, action', hat', hmakes⟩ := h.made k hk
    cases hat.symm.trans hat'
    exact ⟨k, hk, rfl, hmakes, hreplies k hk hawaited⟩

/-- A level is set, some categories are enabled, and all are listed. -/
theorem exitOk_run : ∃ result, toolMain [.logLevel "3", .enable "a*", .categories] ["logger"] true
      [.client .nameAppeared, .client (.proxyCreated 0 true),
        .client (.gotInterfaceVersion 0 (some 2)), .client (.gotAll2 0 (some (5, [], 1000))),
        .finished 0 true, .finished 1 true, .idle] = some (retOk, result) ∧
    ∃ path service settings, appInit [.logLevel "3", .enable "a*", .categories] ["logger"] =
      some (path, service, settings) ∧ settings.follow = false := by
  obtain ⟨⟨ret, result⟩, hmain, hret⟩ := Option.map_eq_some_iff.mp (by decide : (toolMain
    [.logLevel "3", .enable "a*", .categories] ["logger"] true
    [.client .nameAppeared, .client (.proxyCreated 0 true),
      .client (.gotInterfaceVersion 0 (some 2)), .client (.gotAll2 0 (some (5, [], 1000))),
      .finished 0 true, .finished 1 true, .idle]).map (·.1) = some retOk)
  cases hret
  obtain ⟨path, service, settings, _, hinit, _, hfollow, _⟩ := exitOk hmain
  exact ⟨result, hmain, path, service, settings, hinit, hfollow⟩

/-- The answer to the awaited call makes the tool quit, or it goes on to another call with fewer
actions left. -/
theorem answer_step {i : Nat} (h : ToolInv settings app) (hrunning : app.running = true)
    (hfollow : settings.follow = false) (hi : app.call = some i) :
    ∃ app', app.step (.finished i true) = some app' ∧ ToolInv settings app' ∧
      app'.running = true ∧ app'.ret = app.ret ∧
      (0 < app'.quits ∨ app'.call ≠ none ∧ app'.actions.length < app.actions.length) := by
  obtain ⟨k, hk, hopen⟩ := (h.current i).mp hi
  have hmay : app.mayFinish i true = true := by
    simp [mayFinish, hk, hopen.2, h.uncancelled k (List.mem_of_getElem? hk) hopen.1]
  have hstep : app.step (.finished i true) = some (app.genericCallFinished i true) := by
    unfold ToolApp.step
    rw [if_pos hrunning]
    exact if_pos hmay
  have hinv := genericCallFinished_inv h hmay
  refine ⟨_, hstep, hinv, ?_⟩
  -- the next action starts with no call under way
  have hnext : app.genericCallFinished i true = nextAction { app with
      calls := app.calls.modify i fun k => { k with reply := some true }
      call := none
      freed := k.action :: app.freed } := by
    unfold genericCallFinished
    rw [hk]
    exact if_pos hopen.1
  have hloop := (runActions_frame { app with
      calls := app.calls.modify i fun k => { k with reply := some true }
      call := none
      freed := k.action :: app.freed } app.actions).1
  rw [hnext]
  unfold nextAction
  dsimp only
  split
  next hlast =>
    have hquiet : ¬app.follow = true := by simp [h.follow.trans hfollow]
    rw [if_neg (by rw [hloop.follow]; exact hquiet)]
    exact ⟨hloop.running.trans hrunning, hloop.ret, .inl (Nat.succ_pos _)⟩
  next hmore =>
    have hcall : (runActions app.actions { app with
        calls := app.calls.modify i fun k => { k with reply := some true }
        call := none
        freed := k.action :: app.freed }).call ≠ none := fun hnone => hmore (by rw [hnone]; rfl)
    exact ⟨hloop.running.trans hrunning, hloop.ret,
      .inr ⟨hcall, runActions_fewer app.actions rfl hcall⟩⟩

/-- While the awaited calls are answered, the actions get fewer, until the tool is to quit. -/
theorem completes {n : Nat} (h : ToolInv settings app) (hn : app.actions.length ≤ n)
    (hrunning : app.running = true) (hfollow : settings.follow = false) (hcall : app.call ≠ none) :
    ∃ replies : List ToolEvent, replies.length ≤ n + 1 ∧
      (∀ e ∈ replies, ∃ i, e = .finished i true) ∧
      ∃ app', run app replies = some app' ∧ app'.running = true ∧ 0 < app'.quits ∧
        app'.ret = app.ret := by
  induction n generalizing app with
  | zero =>
    obtain ⟨i, hi⟩ := Option.ne_none_iff_exists'.mp hcall
    obtain ⟨app', hstep, _, hrunning', hret, hnext⟩ := answer_step h hrunning hfollow hi
    refine ⟨[.finished i true], le_rfl, fun e he => ⟨i, List.mem_singleton.mp he⟩, app',
      Runs.run_cons_iff.mpr ⟨app', hstep, rfl⟩, hrunning', ?_, hret⟩
    rcases hnext with hquits | ⟨_, hfewer⟩
    · exact hquits
    · omega
  | succ n ih =>
    obtain ⟨i, hi⟩ := Option.ne_none_iff_exists'.mp hcall
    obtain ⟨app', hstep, hinv, hrunning', hret, hnext⟩ := answer_step h hrunning hfollow hi
    rcases hnext with hquits | ⟨hcall', hfewer⟩
    · exact ⟨[.finished i true], by simp, fun e he => ⟨i, List.mem_singleton.mp he⟩, app',
        Runs.run_cons_iff.mpr ⟨app', hstep, rfl⟩, hrunning', hquits, hret⟩
    · obtain ⟨replies, hlen, hreplies, app'', hrun, hend⟩ := ih hinv (by omega) hrunning' hcall'
      refine ⟨.finished i true :: replies, by simpa using hlen, ?_, app'',
        Runs.run_cons_iff.mpr ⟨app', hstep, hrun⟩, hend.1, hend.2.1, hend.2.2.trans hret⟩
      intro e he
      rcases List.mem_cons.mp he with rfl | he
      · exact ⟨i, rfl⟩
      · exact hreplies e he

/-- A tool that is not to follow, and has a connection, never waits for nothing, unless it has
cancelled a call and is to exit with `RET_CANCEL`: when its awaited calls are answered, at most one
for each action that is left and one more, it exits with the status that it has. -/
theorem terminates (hrun : run (start settings canOpen) events = some app)
    (hrunning : app.running = true) (hconnected : app.client.connected = true)
    (hfollow : settings.follow = false)
    (hkept : app.ret = retCancel → ∀ k ∈ app.calls, k.cancelled = false) :
    ∃ replies : List ToolEvent, replies.length ≤ app.actions.length + 1 ∧
      (∀ e ∈ replies, ∃ i, e = .finished i true) ∧
      ∃ app', run app (replies ++ [.idle]) = some app' ∧ app'.running = false ∧
        app'.ret = app.ret := by
  have h := run_inv hrun
  have hidle : ∀ b : ToolApp, b.running = true → 0 < b.quits →
      b.step .idle = some { b with running := false } := by
    intro b hb hq
    unfold ToolApp.step
    rw [if_pos hb]
    exact if_pos hq
  by_cases hq : app.quits = 0
  · rcases h.occupied hrunning hconnected hq with hcall | ⟨hf, _, _⟩ | ⟨hret, k, hk, hcancelled⟩
    · obtain ⟨replies, hlen, hreplies, app', hrun', hrunning', hquits, hret'⟩ :=
        completes h le_rfl hrunning hfollow (Option.isSome_iff_ne_none.mp hcall)
      exact ⟨replies, hlen, hreplies, _,
        Runs.run_concat_iff.mpr ⟨app', hrun', hidle app' hrunning' hquits⟩, rfl, hret'⟩
    · cases hfollow.symm.trans (h.follow.symm.trans hf)
    · cases hcancelled.symm.trans (hkept hret k hk)
  · exact ⟨[], Nat.zero_le _, fun e he => (by cases he), _,
      Runs.run_cons_iff.mpr ⟨_, hidle app hrunning (Nat.pos_of_ne_zero hq), rfl⟩, rfl, rfl⟩

/-- The tool has just made the first of two calls. -/
theorem terminates_run : ∃ app, run (start
      { ToolSettings.zero with actions := [.setLevel 3, .enable "a*"] } true)
      [.client .nameAppeared, .client (.proxyCreated 0 true),
        .client (.gotInterfaceVersion 0 (some 2)), .client (.gotAll2 0 (some (5, [], 1000)))] =
      some app ∧ app.actions = [.enable "a*"] ∧
    ∃ replies app', run app (replies ++ [.idle]) = some app' ∧ app'.running = false ∧
      app'.ret = retOk := by
  obtain ⟨app, happ, he⟩ := Option.map_eq_some_iff.mp (by decide : (run (start
    { ToolSettings.zero with actions := [.setLevel 3, .enable "a*"] } true)
    [.client .nameAppeared, .client (.proxyCreated 0 true),
      .client (.gotInterfaceVersion 0 (some 2)), .client (.gotAll2 0 (some (5, [], 1000)))]).map
      (fun app => (app.actions, app.running, app.client.connected, app.ret)) =
      some ([.enable "a*"], true, true, retOk))
  simp only [Prod.mk.injEq] at he
  obtain ⟨hactions, hrunning, hconnected, hret⟩ := he
  obtain ⟨replies, _, _, app', hrun, hended, hsame⟩ :=
    terminates happ hrunning hconnected rfl fun hcancel => (by cases hret.symm.trans hcancel)
  exact ⟨app, happ, hactions, replies, app', hrun, hended, hsame.trans hret⟩

end Run

end ToolApp

end DBusLog

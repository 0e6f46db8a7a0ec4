import DBusLog.Lib.Designation
import DBusLog.Client.Attempts

/-!
# The contexts that a client points to

A client points to the context of its attempt to connect and to the call that autostart has made,
so that it can cancel them. Both are freed by their own completions, and both may be replaced or
given up before. In any order of the events the two pointers are exactly the contexts that are
neither freed nor cancelled, so nothing that has been freed can be cancelled.
-/

namespace DBusLog

/-- The context has not been freed. -/
def DBusLogClientInit.Live (i : DBusLogClientInit) : Prop := ∀ ok, i.stage ≠ .freed ok

instance (i : DBusLogClientInit) : Decidable i.Live :=
  decidable_of_iff (i.stage ≠ .freed false ∧ i.stage ≠ .freed true)
    (Bool.forall_bool (p := fun ok => i.stage ≠ .freed ok)).symm

/-- The attempt is still to connect the client. -/
def DBusLogClientInit.Wanted (i : DBusLogClientInit) : Prop := i.Live ∧ i.cancelled = false

/-- The call is to tell the client that it has finished. -/
def DBusLogClientCall.Autostarts (k : DBusLogClientCall) : Prop :=
  k.pending = true ∧ k.fn = some .autostartFinished

namespace ClientConnection

variable {c c' : ClientConnection}

/-- The two pointers of a client designate the contexts that are still wanted. -/
structure Designating (c : ClientConnection) : Prop where
  init : Designates DBusLogClientInit.Wanted c.inits c.init
  autostart : Designates DBusLogClientCall.Autostarts c.calls c.autostart

theorem designating_new (autostartFlag : Bool) : Designating (new autostartFlag) where
  init := .nil
  autostart := .nil

/-! ## The call of autostart -/

/-- A call that has been cancelled tells nobody. -/
theorem cancelled_not_autostarts :
    ∀ k : DBusLogClientCall, ¬({ k with fn := none, cancelled := true }).Autostarts := by
  rintro k ⟨_, hfn⟩
  cases hfn

/-- Whatever autostart has been waiting for, it does not any more. -/
theorem stop_autostart (h : Designates DBusLogClientCall.Autostarts c.calls c.autostart)
    (emitSignals : Bool) :
    Designates DBusLogClientCall.Autostarts (c.stop emitSignals).calls none ∧
      (c.stop emitSignals).autostart = none := by
  have hafter : ∀ d : ClientConnection,
      Designates DBusLogClientCall.Autostarts d.calls none → d.autostart = none →
      let e := { d with receiver := none }
      let e := if e.started then
          let e := { e with started := false }
          if emitSignals then e.notify .logStartedChanged else e
        else e
      Designates DBusLogClientCall.Autostarts e.calls none ∧ e.autostart = none := by
    intro d hcalls hnone
    dsimp only
    split
    · cases emitSignals <;> exact ⟨hcalls, hnone⟩
    · exact ⟨hcalls, hnone⟩
  unfold stop
  cases hauto : c.autostart with
  | none =>
    rw [hauto] at h
    exact hafter c h hauto
  | some call =>
    rw [hauto] at h
    exact hafter _ (h.modify_clear cancelled_not_autostarts) rfl

/-- A call of the application is nothing to autostart. -/
theorem start_autostart (h : Designates DBusLogClientCall.Autostarts c.calls c.autostart) :
    Designates DBusLogClientCall.Autostarts (c.start .application).2.calls
      (c.start .application).2.autostart := by
  unfold start
  split
  · refine h.append_of_not fun k hk => ?_
    rw [List.mem_singleton.mp hk]
    rintro ⟨_, hfn⟩
    cases hfn
  · exact h

theorem clientConnected_autostart
    (h : Designates DBusLogClientCall.Autostarts c.calls c.autostart) (proxy : Nat) :
    Designates DBusLogClientCall.Autostarts (c.clientConnected proxy).calls
      (c.clientConnected proxy).autostart := by
  obtain ⟨hcalls, hnone⟩ := stop_autostart h true
  unfold clientConnected
  dsimp only
  split
  · -- the proxy is there, and no other call of autostart is
    exact hcalls.append_single ⟨rfl, rfl⟩
  · rw [← hnone] at hcalls
    exact hcalls

theorem clientStarted_autostart
    (h : Designates DBusLogClientCall.Autostarts c.calls c.autostart) (call fd : Nat)
    (cookie : UInt32) :
    Designates DBusLogClientCall.Autostarts (c.clientStarted call fd cookie).calls
      (c.clientStarted call fd cookie).autostart := by
  obtain ⟨hcalls, hnone⟩ := stop_autostart h false
  rw [← hnone] at hcalls
  unfold clientStarted
  dsimp only
  split
  · exact hcalls
  · exact hcalls

/-- The callback of a call and its end. Only the call of autostart takes its pointer along. -/
theorem finish_autostart (h : Designates DBusLogClientCall.Autostarts c.calls c.autostart)
    (call : Nat) :
    Designates DBusLogClientCall.Autostarts ((c.callFn call).callFree call).calls
      ((c.callFn call).callFree call).autostart := by
  have hfreed : ∀ k : DBusLogClientCall, ¬({ k with pending := false }).Autostarts := by
    rintro k ⟨hpending, _⟩
    cases hpending
  by_cases hcurrent : c.autostart = some call
  · -- the call that the pointer designates is one of autostart
    have hcalls : Designates DBusLogClientCall.Autostarts (c.callFree call).calls none :=
      (hcurrent ▸ h).modify_clear hfreed
    obtain ⟨k, hk, _, hfn⟩ := (h call).mp hcurrent
    unfold callFn
    rw [hk, Option.bind_some, hfn]
    dsimp only
    unfold autostartFinished
    rw [if_pos hcurrent]
    exact hcalls
  · have hsame : c.callFn call = c := by
      unfold callFn autostartFinished
      split
      · exact if_neg hcurrent
      · rfl
      · rfl
    rw [hsame]
    refine h.modify fun k hk => iff_of_false (hfreed k) fun hauto => ?_
    exact hcurrent ((h.iff_of_getElem? hk).mp hauto)

theorem startFinished_autostart
    (h : Designates DBusLogClientCall.Autostarts c.calls c.autostart) (call : Nat)
    (result : Option (List Nat × UInt32)) :
    Designates DBusLogClientCall.Autostarts (c.startFinished call result).calls
      (c.startFinished call result).autostart := by
  unfold startFinished
  dsimp only
  apply finish_autostart
  split
  · exact clientStarted_autostart h call _ _
  · exact h
  · exact h

/-- What disconnecting does to the contexts is what stopping does. -/
theorem disconnect_contexts (c : ClientConnection) (emitSignals : Bool) :
    (c.disconnect emitSignals).inits = c.inits ∧ (c.disconnect emitSignals).init = c.init ∧
      (c.disconnect emitSignals).calls = (c.stop emitSignals).calls ∧
      (c.disconnect emitSignals).autostart = (c.stop emitSignals).autostart ∧
      (c.disconnect emitSignals).receiver = (c.stop emitSignals).receiver := by
  obtain ⟨_, hinits, hinit, _, _⟩ := stop_undisturbed c emitSignals
  rw [← hinits, ← hinit]
  unfold disconnect
  generalize c.stop emitSignals = d
  dsimp only
  by_cases hproxy : d.proxy.isSome = true
  · rw [if_pos hproxy]
    split
    · cases emitSignals <;> exact ⟨rfl, rfl, rfl, rfl, rfl⟩
    · exact ⟨rfl, rfl, rfl, rfl, rfl⟩
  · rw [if_neg hproxy]
    split
    · cases emitSignals <;> exact ⟨rfl, rfl, rfl, rfl, rfl⟩
    · exact ⟨rfl, rfl, rfl, rfl, rfl⟩

/-! ## The attempt to connect -/

/-- The attempt that a client points to is given up. -/
theorem initCancel_init (h : Designates DBusLogClientInit.Wanted c.inits c.init) :
    Designates DBusLogClientInit.Wanted (c.initCancel c.init).inits none := by
  cases hinit : c.init with
  | none =>
    rw [hinit] at h
    exact h
  | some attempt =>
    rw [hinit] at h
    refine h.modify_clear ?_
    rintro i ⟨_, hcancelled⟩
    cases hcancelled

theorem Designating.nameAppeared (h : Designating c) : Designating c.nameAppeared where
  init := by
    unfold ClientConnection.nameAppeared
    refine (initCancel_init h.init).append_single ⟨fun ok hfreed => ?_, rfl⟩
    cases hfreed
  autostart := by
    unfold ClientConnection.nameAppeared
    cases c.init with
    | none => exact h.autostart
    | some attempt => exact h.autostart

theorem Designating.disconnect (h : Designating c) (emitSignals : Bool) :
    Designating (c.disconnect emitSignals) := by
  obtain ⟨hinits, hinit, hcalls, hauto, _⟩ := disconnect_contexts c emitSignals
  obtain ⟨hstopped, hnone⟩ := stop_autostart h.autostart emitSignals
  constructor
  · rw [hinits, hinit]
    exact h.init
  · rw [hcalls, hauto, hnone]
    exact hstopped

theorem Designating.nameVanished (h : Designating c) : Designating c.nameVanished := by
  unfold ClientConnection.nameVanished
  apply Designating.disconnect
  constructor
  · exact initCancel_init h.init
  · cases c.init with
    | none => exact h.autostart
    | some attempt => exact h.autostart

/-- A step of an attempt that goes on. -/
theorem Designating.setStage (h : Designating c) {attempt : Nat} {stage : InitStage}
    {i : DBusLogClientInit} (hi : c.inits[attempt]? = some i) (hlive : i.Live)
    (hstage : ∀ ok, stage ≠ .freed ok) : Designating (c.setStage attempt stage) where
  init := by
    refine h.init.modify fun j hj => ?_
    cases hi.symm.trans hj
    exact and_congr_left' (iff_of_true hstage hlive)
  autostart := h.autostart

theorem freed_not_wanted (ok : Bool) :
    ∀ i : DBusLogClientInit, ¬({ i with stage := .freed ok }).Wanted := by
  rintro i ⟨hlive, _⟩
  exact hlive ok rfl

theorem Designating.initFree (h : Designating c) (attempt : Nat)
    (categories : Option (KeyedTable (Prod.fst : UInt32 × Nat → UInt32))) :
    Designating (c.initFree attempt categories) := by
  unfold ClientConnection.initFree
  by_cases hcurrent : c.init = some attempt
  · rw [if_pos hcurrent]
    have hcleared : Designates DBusLogClientInit.Wanted
        (c.setStage attempt (.freed categories.isSome)).inits none :=
      (hcurrent ▸ h.init).modify_clear (freed_not_wanted _)
    cases categories with
    | none => exact ⟨hcleared, h.autostart⟩
    | some table =>
      -- connecting may make a call of autostart, but no attempt
      have hcall := clientConnected_autostart (c := { c with
        init := none
        categories := DBusLogClient.sortedValues c.memory table
        table := table }) h.autostart attempt
      obtain ⟨_, hinits, hinit, _⟩ := clientConnected_spec { c with
        init := none
        categories := DBusLogClient.sortedValues c.memory table
        table := table } attempt
      refine ⟨?_, hcall⟩
      unfold ClientConnection.setStage at hcleared ⊢
      dsimp only at hcleared ⊢
      rw [hinits, hinit]
      exact hcleared
  · rw [if_neg hcurrent]
    refine ⟨h.init.modify fun i hi => iff_of_false (freed_not_wanted _ i) fun hwanted => ?_,
      h.autostart⟩
    exact hcurrent ((h.init.iff_of_getElem? hi).mp hwanted)

/-! ## Every step -/

/-- What the pointers do not speak of. -/
theorem Designating.snapshot (h : Designating c) (memory : List DBusLogCategory) (level : Level)
    (backlog version : Int32) : Designating { c with
      memory := memory
      defaultLevel := level
      backlog := backlog
      apiVersion := version } :=
  ⟨h.init, h.autostart⟩

theorem Designating.undisturbed (h : Designating c) (hsame : Undisturbed c c')
    (hcalls : Designates DBusLogClientCall.Autostarts c'.calls c'.autostart) :
    Designating c' where
  init := by
    rw [hsame.inits, hsame.init]
    exact h.init
  autostart := hcalls

/-- Step lemma. -/
theorem Designating.step {e : ClientEvent} (h : Designating c) (hs : c.step e = some c') :
    Designating c' := by
  cases e with
  | nameAppeared =>
    cases hs
    exact h.nameAppeared
  | nameVanished =>
    cases hs
    exact h.nameVanished
  | proxyCreated attempt ok =>
    obtain ⟨hawaits, he⟩ := Option.ite_none_right_eq_some.mp hs
    cases he
    obtain ⟨i, hi, hlive, _⟩ := awaits_spec hawaits (by decide)
    unfold initProxyCreated
    split
    · exact h.setStage hi hlive (by decide)
    · exact h.initFree attempt none
  | gotInterfaceVersion attempt version =>
    obtain ⟨hawaits, he⟩ := Option.ite_none_right_eq_some.mp hs
    cases he
    obtain ⟨i, hi, hlive, _⟩ := awaits_spec hawaits (by decide)
    cases version with
    | none => exact h.initFree attempt none
    | some version =>
      have hversion := h.snapshot c.memory c.defaultLevel c.backlog version
      unfold initGetInterfaceVersionFinished
      dsimp only
      split
      · exact hversion.setStage hi hlive (by decide)
      · exact hversion.setStage hi hlive (by decide)
  | gotAll attempt result =>
    obtain ⟨_, he⟩ := Option.ite_none_right_eq_some.mp hs
    cases he
    cases result with
    | none => exact h.initFree attempt none
    | some result =>
      obtain ⟨level, entries⟩ := result
      exact (h.snapshot _ level.toUInt32 c.backlog c.apiVersion).initFree attempt (some _)
  | gotAll2 attempt result =>
    obtain ⟨_, he⟩ := Option.ite_none_right_eq_some.mp hs
    cases he
    cases result with
    | none => exact h.initFree attempt none
    | some result =>
      obtain ⟨level, entries, backlog⟩ := result
      exact (h.snapshot _ level.toUInt32 backlog c.apiVersion).initFree attempt (some _)
  | start =>
    cases hs
    exact h.undisturbed (start_undisturbed c .application) (start_autostart h.autostart)
  | cancel call =>
    obtain ⟨hmay, he⟩ := Option.ite_none_right_eq_some.mp hs
    cases he
    refine ⟨h.init, h.autostart.modify fun k hk => iff_of_false (cancelled_not_autostarts k) ?_⟩
    -- the application cancels only calls of its own
    rintro ⟨_, hfn⟩
    unfold mayCancel at hmay
    rw [hk] at hmay
    simp [hfn] at hmay
  | logOpened call result =>
    obtain ⟨_, he⟩ := Option.ite_none_right_eq_some.mp hs
    cases he
    exact h.undisturbed (startFinished_undisturbed c call result)
      (startFinished_autostart h.autostart call result)
  | receiverClosed =>
    obtain ⟨_, he⟩ := Option.ite_none_right_eq_some.mp hs
    cases he
    obtain ⟨hcalls, hnone⟩ := stop_autostart h.autostart true
    rw [← hnone] at hcalls
    exact h.undisturbed (stop_undisturbed c true) hcalls
  | signal signal =>
    cases hs
    exact ⟨h.init, h.autostart⟩

/-- Run lemma. -/
theorem Designating.run {autostartFlag : Bool} {events : List ClientEvent}
    (hrun : Runs.run ClientConnection.step (new autostartFlag) events = some c) : Designating c :=
  Runs.invariant_of_forall (C := fun _ => True) (fun _ _ _ h _ hs => h.step hs)
    (fun _ _ => trivial) hrun (designating_new autostartFlag)

/-- A client points to what is neither freed nor cancelled. In every run `init` is exactly the
attempt whose context has not been freed and which has not been cancelled, and `autostart` is
exactly the call of autostart which is pending and has not been cancelled; there is no second one
of either. In the runs that GLib makes, in which the name appears and vanishes by turns, `init` is
the attempt of the latest appearance. -/
theorem contextsDesignated (autostartFlag : Bool) (events : List ClientEvent)
    (c : ClientConnection) (hrun : Runs.run step (new autostartFlag) events = some c) :
    (∀ k, c.init = some k ↔
      ∃ i, c.inits[k]? = some i ∧ (∀ ok, i.stage ≠ .freed ok) ∧ i.cancelled = false) ∧
    (∀ j, c.autostart = some j ↔
      ∃ k, c.calls[j]? = some k ∧ k.pending = true ∧ k.fn = some .autostartFinished) ∧
    (ClientEvent.Alternating events → ∀ k, c.init = some k →
      ClientEvent.latestAttempt events = some k) :=
  ⟨(Designating.run hrun).init, (Designating.run hrun).autostart,
    fun halternating => (Attempting.run halternating hrun).current⟩

/-- The name appears, vanishes and appears again, and the first attempt fails late; the second one
connects, and the application makes a call of its own beside that of autostart. -/
def secondAppearance : List ClientEvent :=
  [.nameAppeared, .proxyCreated 0 true, .nameVanished, .nameAppeared, .gotInterfaceVersion 0 none,
    .proxyCreated 1 true, .gotInterfaceVersion 1 (some 1), .gotAll 1 (some (6, [])), .start]

/-- Before the second attempt is at its end -/
def secondAttempt : List ClientEvent := secondAppearance.take 6

theorem contextsDesignated_secondAppearance : ∃ c d,
    Runs.run step (new true) secondAttempt = some c ∧
    Runs.run step (new true) secondAppearance = some d ∧
    (∃ i, c.inits[1]? = some i ∧ (∀ ok, i.stage ≠ .freed ok) ∧ i.cancelled = false) ∧
    ClientEvent.latestAttempt secondAttempt = some 1 ∧
    ∃ k, d.calls[0]? = some k ∧ k.pending = true ∧ k.fn = some .autostartFinished := by
  obtain ⟨c, hc, hinit⟩ := Option.map_eq_some_iff.mp (by decide +kernel :
    (Runs.run step (new true) secondAttempt).map (·.init) = some (some 1))
  obtain ⟨d, hd, hautostart⟩ := Option.map_eq_some_iff.mp (by decide +kernel :
    (Runs.run step (new true) secondAppearance).map (·.autostart) = some (some 0))
  have halternating : ClientEvent.Alternating secondAttempt := by
    unfold ClientEvent.Alternating
    decide
  obtain ⟨hwanted, _, hlatest⟩ := contextsDesignated true secondAttempt c hc
  have hpending := (contextsDesignated true secondAppearance d hd).2.1
  exact ⟨c, d, hc, hd, (hwanted 1).mp hinit, hlatest halternating 1 hinit,
    (hpending 0).mp hautostart⟩

end ClientConnection

end DBusLog

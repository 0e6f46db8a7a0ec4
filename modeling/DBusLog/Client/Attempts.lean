import DBusLog.Client.Connection
import Mathlib.Data.List.Chain
import Mathlib.Data.List.Induction

/-!
# Attempts to connect

Each appearance of the name of the server starts an attempt, and an attempt that comes too late has
been cancelled. All its steps fail then, and its end is nothing to the client, because the client
has another attempt by now, or none.
-/

namespace DBusLog

namespace ClientEvent

/-- What the event says about the name of the server: it is there, or not. -/
def name? : ClientEvent → Option Bool
  | .nameAppeared => some true
  | .nameVanished => some false
  | _ => none

/-- The attempt whose step completes. -/
def attempt? : ClientEvent → Option Nat
  | .proxyCreated attempt _ | .gotInterfaceVersion attempt _ | .gotAll attempt _
  | .gotAll2 attempt _ => some attempt
  | _ => none

/-- The name appears and vanishes by turns. -/
def Alternating (events : List ClientEvent) : Prop :=
  (events.filterMap name?).IsChain (· ≠ ·)

/-- The number of attempts, and the last one if the name has not vanished since. -/
def tell : Nat × Option Nat → ClientEvent → Nat × Option Nat
  | (n, _), .nameAppeared => (n + 1, some n)
  | (n, _), .nameVanished => (n, none)
  | told, _ => told

def told (events : List ClientEvent) : Nat × Option Nat := events.foldl tell (0, none)

/-- The attempt that the last event about the name has started. -/
def latestAttempt (events : List ClientEvent) : Option Nat := (told events).2

theorem told_append (events : List ClientEvent) (e : ClientEvent) :
    told (events ++ [e]) = tell (told events) e := List.foldl_append

theorem tell_quiet {e : ClientEvent} (h : e.name? = none) (t : Nat × Option Nat) :
    tell t e = t := by
  cases e with
  | nameAppeared => cases h
  | nameVanished => cases h
  | _ => rfl

/-- There is no latest attempt but after an appearance. -/
theorem appeared_of_latest {events : List ClientEvent} {k : Nat}
    (h : latestAttempt events = some k) :
    (events.filterMap name?).getLast? = some true := by
  induction events using List.reverseRecOn with
  | nil => cases h
  | append_singleton events e ih =>
    unfold latestAttempt at h ih
    rw [told_append] at h
    rw [List.filterMap_append]
    cases hname : e.name? with
    | none =>
      rw [tell_quiet hname] at h
      rw [List.filterMap_cons_none hname, List.filterMap_nil, List.append_nil]
      exact ih h
    | some present =>
      rw [List.filterMap_cons_some hname, List.filterMap_nil, List.getLast?_concat]
      cases e with
      | nameAppeared =>
        cases hname
        rfl
      | nameVanished => cases h
      | _ => cases hname

/-- The name does not appear while there is a latest attempt. -/
theorem Alternating.fresh {events : List ClientEvent}
    (h : Alternating (events ++ [.nameAppeared])) : latestAttempt events = none := by
  cases hlatest : latestAttempt events with
  | none => rfl
  | some k =>
    exfalso
    unfold Alternating at h
    rw [List.filterMap_append] at h
    exact (List.isChain_append.mp h).2.2 true (appeared_of_latest hlatest) true rfl rfl

end ClientEvent

namespace ClientConnection

open ClientEvent

/-! ## What the parts do -/

variable {c c' : ClientConnection}

theorem clientConnected_spec (c : ClientConnection) (proxy : Nat) :
    (c.clientConnected proxy).toDBusLogClient = c.toDBusLogClient.becomeConnected ∧
      (c.clientConnected proxy).inits = c.inits ∧ (c.clientConnected proxy).init = c.init ∧
      (c.clientConnected proxy).proxy = some proxy := by
  have hstop := stop_undisturbed c true
  have hconnected : ∀ t : ClientConnection, t = { c.stop true with
      proxy := some proxy
      toDBusLogClient := (c.stop true).toDBusLogClient.becomeConnected } →
      t.toDBusLogClient = c.toDBusLogClient.becomeConnected ∧ t.inits = c.inits ∧
        t.init = c.init ∧ t.proxy = some proxy := by
    rintro t rfl
    exact ⟨congrArg DBusLogClient.becomeConnected hstop.client, hstop.inits, hstop.init, rfl⟩
  unfold clientConnected
  dsimp only
  split
  · obtain ⟨hclient, hinits, hinit, hproxy⟩ := hconnected _ rfl
    have hstart := start_undisturbed { c.stop true with
      proxy := some proxy
      toDBusLogClient := (c.stop true).toDBusLogClient.becomeConnected } .autostartFinished
    exact ⟨hstart.client.trans hclient, hstart.inits.trans hinits, hstart.init.trans hinit,
      hstart.proxy.trans hproxy⟩
  · exact hconnected _ rfl

theorem becomeConnected_frame (c : DBusLogClient) :
    c.becomeConnected.connected = true ∧ c.becomeConnected.handling = true := by
  unfold DBusLogClient.becomeConnected
  dsimp only
  split
  · exact ⟨rfl, rfl⟩
  · exact ⟨rfl, rfl⟩

theorem handle_frame (c : DBusLogClient) (signal : BusSignal) :
    (c.handle signal).connected = c.connected ∧ (c.handle signal).handling = c.handling := by
  have hremove : ∀ (d : DBusLogClient) id, (d.categoryRemove id).2.connected = d.connected ∧
      (d.categoryRemove id).2.handling = d.handling := by
    intro d id
    unfold DBusLogClient.categoryRemove
    split
    · exact ⟨rfl, rfl⟩
    · exact ⟨rfl, rfl⟩
  unfold DBusLogClient.handle
  split
  · cases signal with
    | categoryAdded name id flags => exact hremove _ id
    | categoryRemoved id => exact hremove c id
    | categoryFlagsChanged id flags =>
      dsimp only
      unfold DBusLogClient.categoryFlagsChanged
      split
      · exact ⟨rfl, rfl⟩
      · exact ⟨rfl, rfl⟩
    | _ => exact ⟨rfl, rfl⟩
  · exact ⟨rfl, rfl⟩

/-! ## The invariant -/

/-- The attempt has completed all its steps. -/
def Succeeded (c : ClientConnection) (k : Nat) : Prop :=
  ∃ i, c.inits[k]? = some i ∧ i.stage = .freed true

/-- `t` is what the events so far have told: the number of attempts and the latest one. -/
structure Attempting (t : Nat × Option Nat) (c : ClientConnection) : Prop where
  count : t.1 = c.inits.length
  /-- An attempt that is not the current one has come to its end or has been cancelled. -/
  waiting : ∀ k i, c.inits[k]? = some i →
    (∃ ok, i.stage = .freed ok) ∨ i.cancelled = true ∨ c.init = some k
  current : ∀ k, c.init = some k → t.2 = some k
  connected : c.connected = true ↔ ∃ k, t.2 = some k ∧ c.Succeeded k
  linked : c.proxy.isSome = c.connected ∧ c.handling = c.connected
  idle : c.connected = false → c.table.values = [] ∧ c.categories = []

variable {t : Nat × Option Nat}

theorem attempting_new (autostartFlag : Bool) : Attempting (0, none) (new autostartFlag) where
  count := rfl
  waiting k i hi := by cases hi
  current k hk := by cases hk
  connected := by
    constructor
    · intro h
      cases h
    · rintro ⟨k, hk, _⟩
      cases hk
  linked := ⟨rfl, rfl⟩
  idle _ := ⟨rfl, rfl⟩

theorem Attempting.undisturbed (h : Attempting t c) (hsame : Undisturbed c c') :
    Attempting t c' := by
  obtain ⟨hclient, hinits, hinit, hproxy, _⟩ := hsame
  have hsucceeded : ∀ k, c'.Succeeded k ↔ c.Succeeded k := by
    intro k
    unfold Succeeded
    rw [hinits]
  refine ⟨?_, ?_, ?_, ?_, ?_, ?_⟩
  · rw [hinits]
    exact h.count
  · rw [hinits, hinit]
    exact h.waiting
  · rw [hinit]
    exact h.current
  · simp only [hclient, hsucceeded]
    exact h.connected
  · rw [hproxy, hclient]
    exact h.linked
  · rw [hclient]
    exact h.idle

/-! ## Steps of an attempt -/

theorem getElem?_setStage (c : ClientConnection) (attempt k : Nat) (stage : InitStage) :
    (c.setStage attempt stage).inits[k]? = (c.inits[k]?).map fun i =>
      if attempt = k then { i with stage := stage } else i :=
  List.getElem?_modify _ _ _ _

theorem succeeded_setStage {attempt : Nat} {stage : InitStage} {i : DBusLogClientInit}
    (hi : c.inits[attempt]? = some i) (hopen : i.stage ≠ .freed true)
    (hstage : stage ≠ .freed true) (k : Nat) :
    (c.setStage attempt stage).Succeeded k ↔ c.Succeeded k := by
  unfold Succeeded
  rw [getElem?_setStage]
  by_cases hk : attempt = k
  · subst hk
    rw [hi]
    refine iff_of_false ?_ ?_
    · rintro ⟨j, hj, hdone⟩
      cases hj
      dsimp only at hdone
      rw [if_pos rfl] at hdone
      exact hstage hdone
    · rintro ⟨j, hj, hdone⟩
      cases hj
      exact hopen hdone
  · simp only [if_neg hk, Option.map_id']

/-- The attempt goes on, or it ends with an error. -/
theorem Attempting.setStage (h : Attempting t c) {attempt : Nat} {stage : InitStage}
    {i : DBusLogClientInit} (hi : c.inits[attempt]? = some i) (hopen : ∀ ok, i.stage ≠ .freed ok)
    (hstage : stage ≠ .freed true) : Attempting t (c.setStage attempt stage) where
  count := h.count.trans (List.length_modify _ _ _).symm
  waiting k j hj := by
    rw [getElem?_setStage] at hj
    obtain ⟨j₀, hj₀, rfl⟩ := Option.map_eq_some_iff.mp hj
    by_cases hk : attempt = k
    · subst hk
      cases hi.symm.trans hj₀
      rw [if_pos rfl]
      exact .inr ((h.waiting attempt i hi).resolve_left fun ⟨ok, hfreed⟩ => hopen ok hfreed)
    · rw [if_neg hk]
      exact h.waiting k j₀ hj₀
  current := h.current
  connected := by
    simp only [succeeded_setStage hi (hopen true) hstage]
    exact h.connected
  linked := h.linked
  idle := h.idle

/-- The current attempt has come to its end. -/
theorem Attempting.clear (h : Attempting t c) {attempt : Nat} {i : DBusLogClientInit}
    (hi : c.inits[attempt]? = some i) (hfreed : ∃ ok, i.stage = .freed ok)
    (hcurrent : c.init = some attempt) : Attempting t { c with init := none } where
  count := h.count
  waiting k j hj := by
    obtain hfreed' | hcancelled | hk := h.waiting k j hj
    · exact .inl hfreed'
    · exact .inr (.inl hcancelled)
    · cases hcurrent.symm.trans hk
      cases hi.symm.trans hj
      exact .inl hfreed
  current k hk := by cases hk
  connected := h.connected
  linked := h.linked
  idle := h.idle

theorem Attempting.initFree_error (h : Attempting t c) {attempt : Nat} {i : DBusLogClientInit}
    (hi : c.inits[attempt]? = some i) (hopen : ∀ ok, i.stage ≠ .freed ok) :
    Attempting t (c.initFree attempt none) := by
  have hended : Attempting t (c.setStage attempt (.freed false)) := h.setStage hi hopen (by decide)
  unfold initFree
  by_cases hcurrent : c.init = some attempt
  · rw [if_pos hcurrent]
    have hi' : (c.setStage attempt (.freed false)).inits[attempt]? =
        some { i with stage := .freed false } := by
      rw [getElem?_setStage, hi]
      exact congrArg some (if_pos rfl)
    have hcleared := hended.clear hi' ⟨false, rfl⟩ hcurrent
    exact ⟨hcleared.count, hcleared.waiting, hcleared.current, hcleared.connected, hcleared.linked,
      hcleared.idle⟩
  · rw [if_neg hcurrent]
    exact hended

/-- The current attempt ends without an error. -/
theorem Attempting.initFree_ok (h : Attempting t c) {attempt : Nat} {i : DBusLogClientInit}
    (hi : c.inits[attempt]? = some i) (hcurrent : c.init = some attempt)
    (table : KeyedTable (Prod.fst : UInt32 × Nat → UInt32)) :
    Attempting t (c.initFree attempt (some table)) := by
  unfold initFree
  rw [if_pos hcurrent]
  dsimp only
  obtain ⟨hclient, hinits, hinit, hproxy⟩ := clientConnected_spec { c with
    init := none
    categories := DBusLogClient.sortedValues c.memory table
    table := table } attempt
  generalize ClientConnection.clientConnected { c with
    init := none
    categories := DBusLogClient.sortedValues c.memory table
    table := table } attempt = d at hclient hinits hinit hproxy
  have hframe := becomeConnected_frame { c.toDBusLogClient with
    categories := DBusLogClient.sortedValues c.memory table
    table := table }
  have hconnected : d.connected = true := (congrArg DBusLogClient.connected hclient).trans hframe.1
  have hhandling : d.handling = true := (congrArg DBusLogClient.handling hclient).trans hframe.2
  have hi' : d.inits[attempt]? = some i := by
    rw [hinits]
    exact hi
  refine ⟨?_, fun k j hj => ?_, fun k hk => ?_, ?_, ?_, fun hidle => ?_⟩
  · exact h.count.trans ((List.length_modify _ _ _).trans (congrArg _ hinits)).symm
  · rw [getElem?_setStage, hinits] at hj
    obtain ⟨j₀, hj₀, rfl⟩ := Option.map_eq_some_iff.mp hj
    by_cases hk : attempt = k
    · rw [if_pos hk]
      exact .inl ⟨true, rfl⟩
    · rw [if_neg hk]
      obtain hfreed | hcancelled | hk' := h.waiting k j₀ hj₀
      · exact .inl hfreed
      · exact .inr (.inl hcancelled)
      · exact absurd (Option.some.inj (hcurrent.symm.trans hk')) hk
  · exact absurd (hinit.symm.trans hk) (by intro hnone; cases hnone)
  · refine iff_of_true hconnected ⟨attempt, h.current attempt hcurrent,
      { i with stage := .freed true }, ?_, rfl⟩
    rw [getElem?_setStage, hi']
    exact congrArg some (if_pos rfl)
  · change d.proxy.isSome = d.connected ∧ d.handling = d.connected
    rw [hproxy, hconnected, hhandling]
    exact ⟨rfl, rfl⟩
  · exact absurd (hidle.symm.trans hconnected) Bool.false_ne_true

/-! ## The name -/

theorem Attempting.nameAppeared (h : Attempting t c) (hfresh : t.2 = none) :
    Attempting (tell t .nameAppeared) c.nameAppeared := by
  have hnone : c.init = none := by
    cases hinit : c.init with
    | none => rfl
    | some k => cases hfresh.symm.trans (h.current k hinit)
  have hidle : c.connected = false := by
    cases hconnected : c.connected with
    | false => rfl
    | true =>
      obtain ⟨k, hk, _⟩ := h.connected.mp hconnected
      cases hfresh.symm.trans hk
  have hnew : ∀ k i, (c.inits ++ [⟨false, .proxyNew⟩])[k]? = some i →
      c.inits[k]? = some i ∨ k = c.inits.length ∧ i = ⟨false, .proxyNew⟩ := by
    intro k i hi
    by_cases hlt : k < c.inits.length
    · rw [List.getElem?_append_left hlt] at hi
      exact .inl hi
    · rw [List.getElem?_append_right (Nat.le_of_not_lt hlt)] at hi
      obtain ⟨hzero, rfl⟩ := List.getElem?_eq_some_iff.mp hi
      rw [List.length_singleton] at hzero
      exact .inr ⟨by omega, List.getElem_singleton _⟩
  unfold ClientConnection.nameAppeared
  rw [hnone]
  change Attempting (t.1 + 1, some t.1) { c with
    inits := c.inits ++ [⟨false, .proxyNew⟩]
    init := some c.inits.length }
  refine ⟨?_, fun k i hi => ?_, fun k hk => ?_, ?_, h.linked, h.idle⟩
  · show t.1 + 1 = (c.inits ++ [DBusLogClientInit.mk false .proxyNew]).length
    rw [List.length_append, h.count]
    rfl
  · obtain hold | ⟨rfl, rfl⟩ := hnew k i hi
    · obtain hfreed | hcancelled | hk := h.waiting k i hold
      · exact .inl hfreed
      · exact .inr (.inl hcancelled)
      · cases hnone.symm.trans hk
    · exact .inr (.inr rfl)
  · rw [← hk]
    exact congrArg some h.count
  · refine iff_of_false (fun hconnected => ?_) ?_
    · exact absurd (hidle.symm.trans hconnected) Bool.false_ne_true
    · rintro ⟨k, hk, i, hi, hdone⟩
      cases hk
      obtain hold | ⟨_, rfl⟩ := hnew t.1 i hi
      · have hlt := (List.getElem?_eq_some_iff.mp hold).1
        have hcount := h.count
        omega
      · cases hdone

theorem disconnect_spec (c : ClientConnection) (emitSignals : Bool)
    (hlinked : c.proxy.isSome = c.connected ∧ c.handling = c.connected) :
    (c.disconnect emitSignals).inits = c.inits ∧ (c.disconnect emitSignals).init = c.init ∧
      (c.disconnect emitSignals).connected = false ∧ (c.disconnect emitSignals).handling = false ∧
      (c.disconnect emitSignals).proxy = none ∧ (c.disconnect emitSignals).table.values = [] ∧
      (c.disconnect emitSignals).categories = [] := by
  obtain ⟨hclient, hinits, hinit, hproxy, _⟩ := stop_undisturbed c emitSignals
  have hconnected : (c.stop emitSignals).connected = c.connected :=
    congrArg DBusLogClient.connected hclient
  have hhandling : (c.stop emitSignals).handling = c.handling :=
    congrArg DBusLogClient.handling hclient
  obtain ⟨hsome, hhandled⟩ := hlinked
  rw [← hproxy, ← hconnected] at hsome
  rw [← hhandling, ← hconnected] at hhandled
  rw [← hinits, ← hinit]
  unfold disconnect
  generalize c.stop emitSignals = d at hsome hhandled
  dsimp only
  by_cases hd : d.connected = true
  · rw [hd] at hsome
    rw [if_pos hsome]
    dsimp only
    rw [if_pos hd]
    cases emitSignals with
    | true => exact ⟨rfl, rfl, rfl, rfl, rfl, rfl, rfl⟩
    | false => exact ⟨rfl, rfl, rfl, rfl, rfl, rfl, rfl⟩
  · have hoff := Bool.eq_false_of_not_eq_true hd
    rw [hoff] at hsome hhandled
    have hnone : d.proxy = none := by
      cases hproxy : d.proxy with
      | none => rfl
      | some proxy =>
        rw [hproxy] at hsome
        cases hsome
    have hnosome : ¬d.proxy.isSome = true := by
      rw [hsome]
      exact Bool.false_ne_true
    rw [if_neg hnosome]
    dsimp only
    rw [if_neg hd]
    exact ⟨rfl, rfl, hoff, hhandled, hnone, rfl, rfl⟩

theorem Attempting.nameVanished (h : Attempting t c) :
    Attempting (tell t .nameVanished) c.nameVanished := by
  have hcancelled : ∀ (k : Nat) (i : DBusLogClientInit),
      (c.initCancel c.init).inits[k]? = some i →
      (∃ ok, i.stage = .freed ok) ∨ i.cancelled = true := by
    intro k i hi
    cases hinit : c.init with
    | none =>
      rw [hinit] at hi
      obtain hfreed | hcancelled | hk := h.waiting k i hi
      · exact .inl hfreed
      · exact .inr hcancelled
      · cases hinit.symm.trans hk
    | some attempt =>
      rw [hinit] at hi
      obtain ⟨j, hj, rfl⟩ := Option.map_eq_some_iff.mp ((List.getElem?_modify _ _ _ _).symm.trans hi)
      by_cases hk : attempt = k
      · rw [if_pos hk]
        exact .inr rfl
      · rw [if_neg hk]
        obtain hfreed | hcancelled | hk' := h.waiting k j hj
        · exact .inl hfreed
        · exact .inr hcancelled
        · exact absurd (Option.some.inj (hinit.symm.trans hk')) hk
  have hkept : (c.initCancel c.init).inits.length = c.inits.length ∧
      (c.initCancel c.init).toDBusLogClient = c.toDBusLogClient ∧
      (c.initCancel c.init).proxy = c.proxy := by
    cases c.init with
    | none => exact ⟨rfl, rfl, rfl⟩
    | some attempt => exact ⟨List.length_modify _ _ _, rfl, rfl⟩
  obtain ⟨hlength, hclient, hproxy⟩ := hkept
  unfold ClientConnection.nameVanished
  obtain ⟨hinits, hinit, hconnected, hhandling, hnone, htable, hcategories⟩ :=
    disconnect_spec { c.initCancel c.init with init := none } true (by
      change (c.initCancel c.init).proxy.isSome = (c.initCancel c.init).toDBusLogClient.connected ∧
        (c.initCancel c.init).toDBusLogClient.handling =
          (c.initCancel c.init).toDBusLogClient.connected
      rw [hproxy, hclient]
      exact h.linked)
  generalize ClientConnection.disconnect { c.initCancel c.init with init := none } true = d at *
  refine ⟨?_, fun k i hi => ?_, fun k hk => ?_, ?_, ?_, fun _ => ⟨htable, hcategories⟩⟩
  · exact h.count.trans (hlength.symm.trans (congrArg List.length hinits.symm))
  · rw [hinits] at hi
    exact (hcancelled k i hi).imp id .inl
  · cases hinit.symm.trans hk
  · refine iff_of_false (fun hc => ?_) ?_
    · exact absurd (hconnected.symm.trans hc) Bool.false_ne_true
    · rintro ⟨k, hk, _⟩
      cases hk
  · rw [hnone, hconnected, hhandling]
    exact ⟨rfl, rfl⟩

/-! ## Every step -/

theorem awaits_spec {attempt : Nat} {stage : InitStage} {ok : Bool}
    (h : c.awaits attempt stage ok = true) (hstage : ∀ ok, stage ≠ .freed ok) :
    ∃ i, c.inits[attempt]? = some i ∧ (∀ ok, i.stage ≠ .freed ok) ∧
      (ok = true → i.cancelled = false) := by
  obtain ⟨i, hi, hawaits⟩ := (Option.any_eq_true _ _).mp h
  obtain ⟨hsame, hok⟩ := Bool.and_eq_true_iff.mp hawaits
  refine ⟨i, hi, fun ok => ?_, fun htrue => ?_⟩
  · rw [of_decide_eq_true hsame]
    exact hstage ok
  · rw [htrue] at hok
    simpa using hok

/-- A step that succeeds is one of the current attempt. -/
theorem Attempting.current_of_ok (h : Attempting t c) {attempt : Nat} {i : DBusLogClientInit}
    (hi : c.inits[attempt]? = some i) (hopen : ∀ ok, i.stage ≠ .freed ok)
    (hok : i.cancelled = false) : c.init = some attempt := by
  obtain ⟨ok, hfreed⟩ | hcancelled | hcurrent := h.waiting attempt i hi
  · exact absurd hfreed (hopen ok)
  · exact absurd (hok.symm.trans hcancelled) Bool.false_ne_true
  · exact hcurrent

/-- What the invariant does not speak of. -/
theorem Attempting.snapshot (h : Attempting t c) (memory : List DBusLogCategory) (level : Level)
    (backlog : Int32) (version : Int32) : Attempting t { c with
      memory := memory
      defaultLevel := level
      backlog := backlog
      apiVersion := version } :=
  ⟨h.count, h.waiting, h.current, h.connected, h.linked, h.idle⟩

/-- A signal of the proxy. Without a connection there are no handlers. -/
theorem Attempting.signal (h : Attempting t c) (signal : BusSignal) :
    Attempting t { c with toDBusLogClient := c.toDBusLogClient.handle signal } := by
  obtain ⟨hconnected, hhandling⟩ := handle_frame c.toDBusLogClient signal
  refine ⟨h.count, h.waiting, h.current, ?_, ?_, fun hidle => ?_⟩
  · change (c.toDBusLogClient.handle signal).connected = true ↔ _
    rw [hconnected]
    exact h.connected
  · change c.proxy.isSome = (c.toDBusLogClient.handle signal).connected ∧
      (c.toDBusLogClient.handle signal).handling = (c.toDBusLogClient.handle signal).connected
    rw [hconnected, hhandling]
    exact h.linked
  · change (c.toDBusLogClient.handle signal).connected = false at hidle
    rw [hconnected] at hidle
    have hdeaf : c.toDBusLogClient.handle signal = c.toDBusLogClient := by
      unfold DBusLogClient.handle
      rw [if_neg]
      rw [h.linked.2, hidle]
      exact Bool.false_ne_true
    change (c.toDBusLogClient.handle signal).table.values = [] ∧
      (c.toDBusLogClient.handle signal).categories = []
    rw [hdeaf]
    exact h.idle hidle

/-- Step lemma. -/
theorem Attempting.step (h : Attempting t c) {e : ClientEvent}
    (hfresh : e = .nameAppeared → t.2 = none) (hs : c.step e = some c') :
    Attempting (tell t e) c' := by
  cases e with
  | nameAppeared =>
    cases hs
    exact h.nameAppeared (hfresh rfl)
  | nameVanished =>
    cases hs
    exact h.nameVanished
  | proxyCreated attempt ok =>
    obtain ⟨hawaits, he⟩ := Option.ite_none_right_eq_some.mp hs
    cases he
    -- an attempt that awaits something has not ended
    obtain ⟨i, hi, hopen, _⟩ := awaits_spec hawaits (by decide)
    unfold initProxyCreated
    split
    · exact h.setStage hi hopen (by decide)
    · exact h.initFree_error hi hopen
  | gotInterfaceVersion attempt version =>
    obtain ⟨hawaits, he⟩ := Option.ite_none_right_eq_some.mp hs
    cases he
    obtain ⟨i, hi, hopen, _⟩ := awaits_spec hawaits (by decide)
    cases version with
    | none => exact h.initFree_error hi hopen
    | some version =>
      have hversion := h.snapshot c.memory c.defaultLevel c.backlog version
      unfold initGetInterfaceVersionFinished
      dsimp only
      split
      · exact hversion.setStage hi hopen (by decide)
      · exact hversion.setStage hi hopen (by decide)
  | gotAll attempt result =>
    obtain ⟨hawaits, he⟩ := Option.ite_none_right_eq_some.mp hs
    cases he
    obtain ⟨i, hi, hopen, hok⟩ := awaits_spec hawaits (by decide)
    cases result with
    | none => exact h.initFree_error hi hopen
    | some result =>
      obtain ⟨level, entries⟩ := result
      -- a result is for an attempt that is not cancelled, and there is one of these at most
      have hcurrent := h.current_of_ok hi hopen (hok rfl)
      exact (h.snapshot _ level.toUInt32 c.backlog c.apiVersion).initFree_ok hi hcurrent _
  | gotAll2 attempt result =>
    obtain ⟨hawaits, he⟩ := Option.ite_none_right_eq_some.mp hs
    cases he
    obtain ⟨i, hi, hopen, hok⟩ := awaits_spec hawaits (by decide)
    cases result with
    | none => exact h.initFree_error hi hopen
    | some result =>
      obtain ⟨level, entries, backlog⟩ := result
      have hcurrent := h.current_of_ok hi hopen (hok rfl)
      exact (h.snapshot _ level.toUInt32 backlog c.apiVersion).initFree_ok hi hcurrent _
  | start =>
    cases hs
    exact h.undisturbed (start_undisturbed c .application)
  | cancel call =>
    obtain ⟨_, he⟩ := Option.ite_none_right_eq_some.mp hs
    cases he
    exact h.undisturbed ⟨rfl, rfl, rfl, rfl, rfl⟩
  | logOpened call result =>
    obtain ⟨_, he⟩ := Option.ite_none_right_eq_some.mp hs
    cases he
    exact h.undisturbed (startFinished_undisturbed c call result)
  | receiverClosed =>
    obtain ⟨_, he⟩ := Option.ite_none_right_eq_some.mp hs
    cases he
    exact h.undisturbed (stop_undisturbed c true)
  | signal signal =>
    cases hs
    exact h.signal signal

/-- Run lemma. -/
theorem Attempting.run {autostartFlag : Bool} {events : List ClientEvent}
    (halternating : Alternating events)
    (hrun : Runs.run ClientConnection.step (new autostartFlag) events = some c) :
    Attempting (told events) c := by
  induction events using List.reverseRecOn generalizing c with
  | nil =>
    cases hrun
    exact attempting_new autostartFlag
  | append_singleton events e ih =>
    obtain ⟨d, hd, hs⟩ := Runs.run_concat_iff.mp hrun
    have hbefore : Alternating events := by
      unfold Alternating at halternating ⊢
      rw [List.filterMap_append] at halternating
      exact halternating.left_of_append
    rw [told_append]
    refine (ih hbefore hd).step (fun he => ?_) hs
    subst he
    exact halternating.fresh

/-! ## Attempts that come too late -/

theorem initFree_stale {attempt : Nat} (h : c.init ≠ some attempt) :
    { c with inits := (c.initFree attempt none).inits } = c.initFree attempt none := by
  unfold initFree
  rw [if_neg h]
  rfl

/-- A step of another attempt than the latest one fails, and its end is the end of its context. -/
theorem Attempting.inert (h : Attempting t c) {e : ClientEvent} {k : Nat}
    (hattempt : e.attempt? = some k) (hother : t.2 ≠ some k) (hs : c.step e = some c') :
    { c with inits := c'.inits } = c' := by
  have hstale : c.init ≠ some k := fun hcurrent => hother (h.current k hcurrent)
  have hfails : ∀ {ok : Bool} {i : DBusLogClientInit}, c.inits[k]? = some i →
      (∀ ok, i.stage ≠ .freed ok) → (ok = true → i.cancelled = false) → ok = false := by
    intro ok i hi hopen hok
    cases ok with
    | false => rfl
    | true => exact absurd (h.current_of_ok hi hopen (hok rfl)) hstale
  cases e with
  | proxyCreated attempt ok =>
    cases hattempt
    obtain ⟨hawaits, he⟩ := Option.ite_none_right_eq_some.mp hs
    cases he
    obtain ⟨i, hi, hopen, hok⟩ := awaits_spec hawaits (by decide)
    cases hfails hi hopen hok
    exact initFree_stale hstale
  | gotInterfaceVersion attempt version =>
    cases hattempt
    obtain ⟨hawaits, he⟩ := Option.ite_none_right_eq_some.mp hs
    cases he
    obtain ⟨i, hi, hopen, hok⟩ := awaits_spec hawaits (by decide)
    cases version with
    | none => exact initFree_stale hstale
    | some version => cases hfails hi hopen hok
  | gotAll attempt result =>
    cases hattempt
    obtain ⟨hawaits, he⟩ := Option.ite_none_right_eq_some.mp hs
    cases he
    obtain ⟨i, hi, hopen, hok⟩ := awaits_spec hawaits (by decide)
    cases result with
    | none => exact initFree_stale hstale
    | some result => cases hfails hi hopen hok
  | gotAll2 attempt result =>
    cases hattempt
    obtain ⟨hawaits, he⟩ := Option.ite_none_right_eq_some.mp hs
    cases he
    obtain ⟨i, hi, hopen, hok⟩ := awaits_spec hawaits (by decide)
    cases result with
    | none => exact initFree_stale hstale
    | some result => cases hfails hi hopen hok
  | _ => cases hattempt

/-- Stale attempts are inert. In every run in which the name appears and vanishes by turns, the
client is connected if and only if the name is there and the attempt that has been started then has
completed all its steps; without a connection there is no proxy and there are no categories; and
the end of a step of any other attempt changes nothing but the context of that attempt. -/
theorem staleAttemptsInert (autostartFlag : Bool) (events : List ClientEvent)
    (c : ClientConnection) (halternating : Alternating events)
    (hrun : Runs.run step (new autostartFlag) events = some c) :
    (c.connected = true ↔ ∃ k, latestAttempt events = some k ∧ c.Succeeded k) ∧
    (c.connected = false → c.proxy = none ∧ c.table.values = [] ∧ c.categories = []) ∧
    ∀ e k c', e.attempt? = some k → latestAttempt events ≠ some k → c.step e = some c' →
      { c with inits := c'.inits } = c' := by
  have h := Attempting.run halternating hrun
  refine ⟨h.connected, fun hidle => ⟨?_, h.idle hidle⟩, fun e k c' hattempt hother hs => ?_⟩
  · have hnone := h.linked.1
    rw [hidle] at hnone
    cases hproxy : c.proxy with
    | none => rfl
    | some proxy =>
      rw [hproxy] at hnone
      cases hnone
  · exact h.inert hattempt hother hs

/-- The name appears, vanishes and appears again, and the end of the first attempt comes after the
second one has been completed. -/
def lateEnd : List ClientEvent :=
  [.nameAppeared, .proxyCreated 0 true, .nameVanished, .nameAppeared, .proxyCreated 1 true,
    .gotInterfaceVersion 1 (some 2), .gotAll2 1 (some (6, [("General", 1, 1, 0)], 100)),
    .gotInterfaceVersion 0 none]

theorem staleAttemptsInert_lateEnd : ∃ c, Runs.run step (new true) lateEnd = some c ∧
    c.connected = true ∧ c.Succeeded 1 := by
  obtain ⟨c, hc, hconnected⟩ := Option.map_eq_some_iff.mp (by decide +kernel :
    (Runs.run step (new true) lateEnd).map (·.connected) = some true)
  have halternating : Alternating lateEnd := by
    unfold Alternating
    decide
  obtain ⟨k, hlatest, hsucceeded⟩ :=
    (staleAttemptsInert true lateEnd c halternating hc).1.mp hconnected
  cases hlatest
  exact ⟨c, hc, hconnected, hsucceeded⟩

end ClientConnection

end DBusLog

import DBusLog.Client.Attempts

/-!
# Capturing on a connection

A call of `LogOpen` that has succeeded starts a receiver. Autostart's call is cancelled with the
connection, but a call of the application is not, and it may succeed when the connection through
which it has been made is gone.
-/

namespace DBusLog

namespace ClientConnection

/-- A client that is capturing is connected, and its receiver has come from a call that has gone
through the proxy of the connection. -/
def Capturing (c : ClientConnection) : Prop :=
  c.started = true → c.connected = true ∧ ∃ r k, c.receiver = some r ∧
    c.calls[r.call]? = some k ∧ c.proxy = some k.proxy

/-- The event is not the success of a call that has gone through another proxy. -/
def Timely (c : ClientConnection) (e : ClientEvent) : Prop :=
  ∀ call fd cookie k, e = .logOpened call (some ([fd], cookie)) → c.calls[call]? = some k →
    c.proxy = some k.proxy

variable {c c' : ClientConnection}

/-- There is a proxy only with a connection. -/
def Proxied (c : ClientConnection) : Prop := c.proxy.isSome = true → c.connected = true

/-- The proxies of the calls are what they were. -/
def CallsKept (c c' : ClientConnection) : Prop :=
  ∀ (j : Nat) (k : DBusLogClientCall), c.calls[j]? = some k →
    ∃ k', c'.calls[j]? = some k' ∧ k'.proxy = k.proxy

theorem CallsKept.refl (c : ClientConnection) : CallsKept c c := fun _ k hk => ⟨k, hk, rfl⟩

theorem CallsKept.trans {c'' : ClientConnection} (h : CallsKept c c') (h' : CallsKept c' c'') :
    CallsKept c c'' := by
  intro j k hk
  obtain ⟨k', hk', hproxy⟩ := h j k hk
  obtain ⟨k'', hk'', hproxy'⟩ := h' j k' hk'
  exact ⟨k'', hk'', hproxy'.trans hproxy⟩

/-- A call is changed, but not its proxy. -/
theorem callsKept_modify {f : DBusLogClientCall → DBusLogClientCall}
    (hf : ∀ k, (f k).proxy = k.proxy) {call : Nat} (hcalls : c'.calls = c.calls.modify call f) :
    CallsKept c c' := by
  intro j k hk
  rw [hcalls, List.getElem?_modify, hk]
  refine ⟨_, rfl, ?_⟩
  by_cases hj : call = j
  · simp only [if_pos hj]
    exact hf k
  · simp only [if_neg hj]

/-! ## The parts -/

theorem stop_calls (c : ClientConnection) (emitSignals : Bool) :
    CallsKept c (c.stop emitSignals) ∧ (c.stop emitSignals).started = false ∧
      (c.stop emitSignals).receiver = none := by
  have hafter : ∀ d : ClientConnection, CallsKept c d →
      let e := { d with receiver := none }
      let e := if e.started then
          let e := { e with started := false }
          if emitSignals then e.notify .logStartedChanged else e
        else e
      CallsKept c e ∧ e.started = false ∧ e.receiver = none := by
    intro d hd
    dsimp only
    by_cases hstarted : d.started = true
    · rw [if_pos hstarted]
      cases emitSignals with
      | true => exact ⟨hd, rfl, rfl⟩
      | false => exact ⟨hd, rfl, rfl⟩
    · rw [if_neg hstarted]
      exact ⟨hd, Bool.eq_false_of_not_eq_true hstarted, rfl⟩
  unfold stop
  cases c.autostart with
  | none => exact hafter c (.refl c)
  | some call =>
    have hcancelled : CallsKept c { c.callCancel call with autostart := none } :=
      callsKept_modify (f := fun k => { k with fn := none, cancelled := true }) (fun _ => rfl) rfl
    exact hafter _ hcancelled

theorem start_calls (c : ClientConnection) (fn : CallFunc) :
    CallsKept c (c.start fn).2 ∧ (c.start fn).2.started = c.started ∧
      (c.start fn).2.receiver = c.receiver := by
  unfold start
  split
  · refine ⟨fun j k hk => ⟨k, ?_, rfl⟩, rfl, rfl⟩
    exact (List.getElem?_append_left (List.getElem?_eq_some_iff.mp hk).1).trans hk
  · exact ⟨.refl c, rfl, rfl⟩

theorem callFn_calls (c : ClientConnection) (call : Nat) :
    CallsKept c ((c.callFn call).callFree call) ∧
      ((c.callFn call).callFree call).started = c.started ∧
      ((c.callFn call).callFree call).receiver = c.receiver := by
  have hfn : (c.callFn call).calls = c.calls ∧ (c.callFn call).started = c.started ∧
      (c.callFn call).receiver = c.receiver := by
    unfold callFn
    split
    · unfold autostartFinished
      split
      · exact ⟨rfl, rfl, rfl⟩
      · exact ⟨rfl, rfl, rfl⟩
    · exact ⟨rfl, rfl, rfl⟩
    · exact ⟨rfl, rfl, rfl⟩
  obtain ⟨hcalls, hstarted, hreceiver⟩ := hfn
  exact ⟨callsKept_modify (f := fun k => { k with pending := false }) (fun _ => rfl)
    (congrArg (List.modify · call _) hcalls), hstarted, hreceiver⟩

/-- The end of a call that has one descriptor to return. -/
theorem startFinished_ok (c : ClientConnection) (call fd : Nat) (cookie : UInt32) :
    CallsKept c (c.startFinished call (some ([fd], cookie))) ∧
      (c.startFinished call (some ([fd], cookie))).started = true ∧
      (c.startFinished call (some ([fd], cookie))).receiver = some ⟨fd, call⟩ := by
  obtain ⟨hstop, _, _⟩ := stop_calls c false
  have hstarted : CallsKept c (c.clientStarted call fd cookie) ∧
      (c.clientStarted call fd cookie).started = true ∧
      (c.clientStarted call fd cookie).receiver = some ⟨fd, call⟩ := by
    unfold clientStarted
    dsimp only
    split
    · exact ⟨hstop, rfl, rfl⟩
    · exact ⟨hstop, rfl, rfl⟩
  obtain ⟨hcalls, hon, hreceiver⟩ := hstarted
  obtain ⟨hcalls', hon', hreceiver'⟩ := callFn_calls (c.clientStarted call fd cookie) call
  exact ⟨hcalls.trans hcalls', hon'.trans hon, hreceiver'.trans hreceiver⟩

/-- The end of any other call. -/
theorem startFinished_idle (c : ClientConnection) (call : Nat)
    {result : Option (List Nat × UInt32)} (h : ∀ fd cookie, result ≠ some ([fd], cookie)) :
    CallsKept c (c.startFinished call result) ∧
      (c.startFinished call result).started = c.started ∧
      (c.startFinished call result).receiver = c.receiver := by
  unfold startFinished
  dsimp only
  split
  · next fd cookie => exact absurd rfl (h fd cookie)
  · exact callFn_calls c call
  · exact callFn_calls (c.notify .logStartError) call

/-! ## Every step -/

/-- Capturing goes on as it was. -/
structure Steady (c c' : ClientConnection) : Prop where
  connected : c'.connected = c.connected
  proxy : c'.proxy = c.proxy
  started : c'.started = c.started
  receiver : c'.receiver = c.receiver
  calls : CallsKept c c'

theorem Undisturbed.steady (h : Undisturbed c c')
    (hcalls : CallsKept c c' ∧ c'.started = c.started ∧ c'.receiver = c.receiver) :
    Steady c c' :=
  ⟨congrArg DBusLogClient.connected h.client, h.proxy, hcalls.2.1, hcalls.2.2, hcalls.1⟩

theorem Proxied.steady (h : Proxied c) (hsteady : Steady c c') : Proxied c' := by
  intro hproxy
  rw [hsteady.proxy] at hproxy
  rw [hsteady.connected]
  exact h hproxy

theorem Capturing.steady (h : Capturing c) (hsteady : Steady c c') : Capturing c' := by
  intro hstarted
  rw [hsteady.started] at hstarted
  obtain ⟨hconnected, r, k, hr, hk, hproxy⟩ := h hstarted
  obtain ⟨k', hk', hsame⟩ := hsteady.calls r.call k hk
  refine ⟨hsteady.connected.trans hconnected, r, k', hsteady.receiver.trans hr, hk', ?_⟩
  rw [hsteady.proxy, hproxy, hsame]

/-- The client is as it was, or it is not capturing any more. -/
def Settles (c c' : ClientConnection) : Prop :=
  Steady c c' ∨ c'.started = false ∧ (Proxied c → Proxied c')

theorem initFree_settles (c : ClientConnection) (attempt : Nat)
    (categories : Option (KeyedTable (Prod.fst : UInt32 × Nat → UInt32))) :
    Settles c (c.initFree attempt categories) := by
  unfold initFree
  by_cases hcurrent : c.init = some attempt
  · rw [if_pos hcurrent]
    cases categories with
    | none => exact .inl ⟨rfl, rfl, rfl, rfl, .refl c⟩
    | some table =>
      dsimp only
      generalize { c with
        init := none
        categories := DBusLogClient.sortedValues c.memory table
        table := table } = d
      obtain ⟨hclient, _, _, _⟩ := clientConnected_spec d attempt
      have hconnected : (d.clientConnected attempt).connected = true :=
        (congrArg DBusLogClient.connected hclient).trans (becomeConnected_frame _).1
      have hstarted : (d.clientConnected attempt).started = false := by
        have hstop := (stop_calls d true).2.1
        unfold clientConnected
        dsimp only
        split
        · exact (start_calls _ _).2.1.trans hstop
        · exact hstop
      exact .inr ⟨hstarted, fun _ _ => hconnected⟩
  · rw [if_neg hcurrent]
    exact .inl ⟨rfl, rfl, rfl, rfl, .refl c⟩

theorem nameVanished_settles (c : ClientConnection) : Settles c c.nameVanished := by
  unfold nameVanished
  generalize ({ c.initCancel c.init with init := none } : ClientConnection) = d
  have hstop := (stop_calls d true).2.1
  refine .inr ?_
  unfold disconnect
  generalize d.stop true = e at hstop
  dsimp only
  have hproxy : ∀ e' : ClientConnection, e'.proxy = none → Proxied e' := by
    intro e' hnone hsome
    rw [hnone] at hsome
    cases hsome
  by_cases hsome : e.proxy.isSome = true
  · rw [if_pos hsome]
    split
    · exact ⟨hstop, fun _ => hproxy _ rfl⟩
    · exact ⟨hstop, fun _ => hproxy _ rfl⟩
  · rw [if_neg hsome]
    have hnone : e.proxy = none := Option.not_isSome_iff_eq_none.mp hsome
    split
    · exact ⟨hstop, fun _ => hproxy _ hnone⟩
    · exact ⟨hstop, fun _ => hproxy _ hnone⟩

/-- A snapshot brings a table and some scalars. -/
theorem snapshot_settles (c : ClientConnection) (attempt : Nat) (memory : List DBusLogCategory)
    (level : Level) (backlog : Int32) (table : KeyedTable (Prod.fst : UInt32 × Nat → UInt32)) :
    Settles c (initFree { c with
      memory := memory
      defaultLevel := level
      backlog := backlog } attempt (some table)) := by
  obtain hsteady | hquiet := initFree_settles { c with
    memory := memory
    defaultLevel := level
    backlog := backlog } attempt (some table)
  · exact .inl ⟨hsteady.connected, hsteady.proxy, hsteady.started, hsteady.receiver,
      hsteady.calls⟩
  · exact .inr hquiet

/-- The steps other than the success of a call. -/
theorem step_settles {e : ClientEvent}
    (h : ∀ call fd cookie, e ≠ .logOpened call (some ([fd], cookie)))
    (hs : step c e = some c') : Settles c c' := by
  cases e with
  | nameAppeared =>
    cases hs
    unfold nameAppeared
    cases c.init with
    | none => exact .inl ⟨rfl, rfl, rfl, rfl, .refl c⟩
    | some attempt => exact .inl ⟨rfl, rfl, rfl, rfl, .refl c⟩
  | nameVanished =>
    cases hs
    exact nameVanished_settles c
  | proxyCreated attempt ok =>
    obtain ⟨_, he⟩ := Option.ite_none_right_eq_some.mp hs
    cases he
    unfold initProxyCreated
    split
    · exact .inl ⟨rfl, rfl, rfl, rfl, .refl c⟩
    · exact initFree_settles c attempt none
  | gotInterfaceVersion attempt version =>
    obtain ⟨_, he⟩ := Option.ite_none_right_eq_some.mp hs
    cases he
    cases version with
    | none => exact initFree_settles c attempt none
    | some version =>
      unfold initGetInterfaceVersionFinished
      dsimp only
      split
      · exact .inl ⟨rfl, rfl, rfl, rfl, .refl c⟩
      · exact .inl ⟨rfl, rfl, rfl, rfl, .refl c⟩
  | gotAll attempt result =>
    obtain ⟨_, he⟩ := Option.ite_none_right_eq_some.mp hs
    cases he
    cases result with
    | none => exact initFree_settles c attempt none
    | some result =>
      obtain ⟨level, entries⟩ := result
      exact snapshot_settles c attempt _ level.toUInt32 c.backlog _
  | gotAll2 attempt result =>
    obtain ⟨_, he⟩ := Option.ite_none_right_eq_some.mp hs
    cases he
    cases result with
    | none => exact initFree_settles c attempt none
    | some result =>
      obtain ⟨level, entries, backlog⟩ := result
      exact snapshot_settles c attempt _ level.toUInt32 backlog _
  | start =>
    cases hs
    exact .inl ((start_undisturbed c _).steady (start_calls c _))
  | cancel call =>
    obtain ⟨_, he⟩ := Option.ite_none_right_eq_some.mp hs
    cases he
    refine .inl ⟨rfl, rfl, rfl, rfl, ?_⟩
    exact callsKept_modify (f := fun k => { k with fn := none, cancelled := true }) (fun _ => rfl)
      rfl
  | logOpened call result =>
    obtain ⟨_, he⟩ := Option.ite_none_right_eq_some.mp hs
    cases he
    refine .inl ((startFinished_undisturbed c call result).steady (startFinished_idle c call ?_))
    -- any other result leaves the receiver alone
    intro fd cookie hok
    exact h call fd cookie (congrArg _ hok)
  | receiverClosed =>
    obtain ⟨_, he⟩ := Option.ite_none_right_eq_some.mp hs
    cases he
    have hstop := stop_undisturbed c true
    refine .inr ⟨(stop_calls c true).2.1, fun hproxied hsome => ?_⟩
    rw [hstop.proxy] at hsome
    exact (congrArg DBusLogClient.connected hstop.client).trans (hproxied hsome)
  | signal signal =>
    cases hs
    exact .inl ⟨(handle_frame _ signal).1, rfl, rfl, rfl, .refl c⟩

/-- After the success of a call the client is capturing as it should if and only if the call has
gone through the proxy of the connection. -/
theorem capturing_startFinished (h : Proxied c) {call fd : Nat} {cookie : UInt32}
    {k : DBusLogClientCall} (hk : c.calls[call]? = some k) :
    Capturing (c.startFinished call (some ([fd], cookie))) ↔ c.proxy = some k.proxy := by
  have hsame := startFinished_undisturbed c call (some ([fd], cookie))
  obtain ⟨hcalls, hstarted, hreceiver⟩ := startFinished_ok c call fd cookie
  obtain ⟨k', hk', hproxy'⟩ := hcalls call k hk
  constructor
  · intro hcapturing
    obtain ⟨_, r, k₀, hr, hk₀, hproxy⟩ := hcapturing hstarted
    cases hreceiver.symm.trans hr
    cases hk'.symm.trans hk₀
    rw [← hsame.proxy, hproxy, hproxy']
  · intro hproxy _
    refine ⟨?_, _, k', hreceiver, hk', ?_⟩
    · refine (congrArg DBusLogClient.connected hsame.client).trans (h ?_)
      rw [hproxy]
      rfl
    · rw [hsame.proxy, hproxy, hproxy']

/-- Step lemma. -/
theorem step_proxied (h : Proxied c) {e : ClientEvent} (hs : step c e = some c') : Proxied c' := by
  by_cases hok : ∃ call fd cookie, e = .logOpened call (some ([fd], cookie))
  · obtain ⟨call, fd, cookie, rfl⟩ := hok
    obtain ⟨_, he⟩ := Option.ite_none_right_eq_some.mp hs
    cases he
    have hsame := startFinished_undisturbed c call (some ([fd], cookie))
    intro hsome
    rw [hsame.proxy] at hsome
    exact (congrArg DBusLogClient.connected hsame.client).trans (h hsome)
  · obtain hsteady | ⟨_, hproxied⟩ :=
      step_settles (fun call fd cookie he => hok ⟨call, fd, cookie, he⟩) hs
    · exact h.steady hsteady
    · exact hproxied h

/-- Step lemma: what the success of a call has to meet, and no other step. -/
theorem step_capturing_iff (hproxied : Proxied c) (h : Capturing c) {e : ClientEvent}
    (hs : step c e = some c') : Capturing c' ↔ Timely c e := by
  by_cases hok : ∃ call fd cookie, e = .logOpened call (some ([fd], cookie))
  · obtain ⟨call, fd, cookie, rfl⟩ := hok
    obtain ⟨hmay, he⟩ := Option.ite_none_right_eq_some.mp hs
    cases he
    obtain ⟨k, hk, _⟩ := (Option.any_eq_true _ _).mp hmay
    rw [capturing_startFinished hproxied hk]
    constructor
    · intro hproxy call' fd' cookie' k' hsame hk'
      cases hsame
      cases hk.symm.trans hk'
      exact hproxy
    · intro htimely
      exact htimely call fd cookie k rfl hk
  · refine iff_of_true ?_ fun call fd cookie k he _ => absurd ⟨call, fd, cookie, he⟩ hok
    obtain hsteady | ⟨hquiet, _⟩ :=
      step_settles (fun call fd cookie he => hok ⟨call, fd, cookie, he⟩) hs
    · exact h.steady hsteady
    · intro hstarted
      exact absurd (hquiet.symm.trans hstarted) Bool.false_ne_true

/-- A client that is capturing is connected. In all states of a run a client that is capturing is
connected and reads from a descriptor of this connection, if and only if each call of `LogOpen` that
succeeds has gone through the proxy that the client still has. -/
theorem capturingConnected (autostartFlag : Bool) (events : List ClientEvent) :
    (∀ before after c, before ++ after = events →
      Runs.run step (new autostartFlag) before = some c → Capturing c) ↔
    ∀ before e after c c', before ++ e :: after = events →
      Runs.run step (new autostartFlag) before = some c → step c e = some c' → Timely c e := by
  have hstart : Proxied (new autostartFlag) ∧ Capturing (new autostartFlag) := by
    constructor
    · intro hsome
      cases hsome
    · intro hstarted
      cases hstarted
  have hproxied : ∀ before c, Runs.run step (new autostartFlag) before = some c → Proxied c :=
    fun before c hrun => Runs.invariant_of_forall (C := fun _ => True)
      (fun _ _ _ h _ hs => step_proxied h hs) (fun _ _ => trivial) hrun hstart.1
  constructor
  · intro h before e after c c' hsplit hrun hs
    have hcapturing := h before (e :: after) c hsplit hrun
    refine (step_capturing_iff (hproxied before c hrun) hcapturing hs).mp ?_
    refine h (before ++ [e]) after c' ?_ (Runs.run_concat_iff.mpr ⟨c, hrun, hs⟩)
    rw [← hsplit, List.append_assoc]
    rfl
  · intro h before
    induction before using List.reverseRecOn with
    | nil =>
      intro after c _ hrun
      cases hrun
      exact hstart.2
    | append_singleton before e ih =>
      intro after c' hsplit hrun
      obtain ⟨c, hc, hs⟩ := Runs.run_concat_iff.mp hrun
      rw [List.append_assoc] at hsplit
      have hcapturing := ih (e :: after) c hsplit hc
      exact (step_capturing_iff (hproxied before c hc) hcapturing hs).mpr
        (h before e after c c' hsplit hc hs)

/-- The application starts capturing, the name of the server vanishes, and the call succeeds. -/
def lateCall : List ClientEvent :=
  [.nameAppeared, .proxyCreated 0 true, .gotInterfaceVersion 0 (some 2),
    .gotAll2 0 (some (6, [], 100)), .start, .nameVanished, .logOpened 0 (some ([7], 1))]

theorem capturingConnected_lateCall : ∃ c, Runs.run step (new false) lateCall = some c ∧
    c.started = true ∧ c.connected = false ∧ ¬Capturing c := by
  obtain ⟨c, hc, he⟩ := Option.map_eq_some_iff.mp (by decide +kernel :
    (Runs.run step (new false) lateCall).map (fun c => (c.started, c.connected)) =
      some (true, false))
  obtain ⟨hstarted, hconnected⟩ := Prod.mk.inj he
  refine ⟨c, hc, hstarted, hconnected, fun hcapturing => ?_⟩
  exact absurd (hconnected.symm.trans (hcapturing hstarted).1) Bool.false_ne_true

end ClientConnection

end DBusLog

import DBusLog.Core.Gating
import DBusLog.Core.Projection

/-!
# The peers of a sender

A sender is left alone when all that the program does to the other senders is taken out of a run
and their pipes are stuck from then on: it sends the same bytes at the same steps, and it leaves
the core at the same moment. The two runs agree on the tables and the signals, and on the next
index for as long as the sender is registered.
-/

namespace DBusLog

/-- The context of a log call in which the pipes of all other senders are full. -/
def LogContext.only (ctx : LogContext) (i : Nat) : LogContext :=
  { ctx with answers := fun j => if j = i then ctx.answers j else [] }

/-- What is left of an operation when the other senders are taken out. -/
def CoreOp.heard (i : Nat) : CoreOp → Option CoreOp
  | .log ctx level cname message => some (.log (ctx.only i) level cname message)
  | .logv ctx level cname formatted => some (.logv (ctx.only i) level cname formatted)
  | .removeSender j => if j = i then some (.removeSender j) else none
  | .sender j a => if j = i then some (.sender j a) else none
  | op => some op

namespace DBusLogCore

/-! ## The tables in a run -/

/-- What an operation does to the tables. -/
def onTables (d : DBusLogCore) : CoreOp → DBusLogCore
  | .setDefaultLevel level => (d.setDefaultLevel level).2
  | .newCategory name level flags => (d.newCategory name level flags).2
  | .removeCategory name => (d.removeCategory name).2
  | .removeAllCategories => d.removeAllCategories
  | .setCategoryEnabled name enable => d.setCategoryEnabled name enable
  | .setCategoryLevel name level => (d.setCategoryLevel name level).2
  | .log _ _ _ _ | .logv _ _ _ _ | .newSender _ _ | .removeSender _ | .sender _ _ => d

section Tables

variable {c c' : DBusLogCore} {op : CoreOp}

theorem Follows.of_same (h : c'.settings = c.settings ∧ c'.signals = c.signals) :
    Follows c c' c.settings :=
  ⟨h.1, h.2.trans (List.append_nil _).symm⟩

theorem newCategory_follows (c : DBusLogCore) (name : String) (level : Level) (flags : UInt64) :
    Follows c (c.newCategory name level flags).2 (c.settings.newCategory name level flags).2 := by
  unfold newCategory
  rw [show c.settings.categories = c.categories from rfl,
    show c.settings.lastCid = c.lastCid from rfl]
  cases c.categories.lookup name with
  | none => exact ⟨rfl, rfl⟩
  | some cat => exact Follows.refl c

theorem removeCategory_follows (c : DBusLogCore) (name : String) :
    Follows c (c.removeCategory name).2 (c.settings.removeCategory name).2 := by
  unfold removeCategory
  rw [show c.settings.categories = c.categories from rfl]
  cases c.categories.lookup name with
  | none => exact Follows.refl c
  | some cat => exact ⟨rfl, rfl⟩

theorem removeAllCategories_follows (c : DBusLogCore) :
    Follows c c.removeAllCategories c.settings.removeAllCategories := by
  unfold removeAllCategories
  rw [show c.settings.categories = c.categories from rfl,
    show c.settings.removedHandlers = c.removedHandlers from rfl,
    show c.settings.getCategories = c.getCategories from rfl]
  split
  · split
    · rw [emitAll_eq, emitAll_eq]
      exact ⟨rfl, rfl⟩
    · exact ⟨rfl, (List.append_nil _).symm⟩
  · exact Follows.refl c

/-- A broadcast leaves the tables alone. -/
theorem hand_foldl_settings (ctx : LogContext) (msg : DBusLogMessage) (items : List Nat)
    (c : DBusLogCore) :
    (items.foldl (fun c i => c.hand ctx msg i) c).settings = c.settings ∧
      (items.foldl (fun c i => c.hand ctx msg i) c).signals = c.signals := by
  induction items generalizing c with
  | nil => exact ⟨rfl, rfl⟩
  | cons i items ih =>
    obtain ⟨hsettings, hsignals⟩ := ih (c.hand ctx msg i)
    have hone := runSender_settings { c with handed := c.handed ++ [(i, msg)] } i
    exact ⟨hsettings.trans (hone _).1, hsignals.trans (hone _).2⟩

theorem logMessage_settings (h : Sound [] c) (ctx : LogContext) (level : Level)
    (cname : Option String) (msg : DBusLogMessage) :
    (c.logMessage ctx level cname msg).2.settings = c.settings ∧
      (c.logMessage ctx level cname msg).2.signals = c.signals := by
  unfold logMessage
  cases c.shouldLog level cname with
  | mk accepted cat =>
    cases accepted with
    | false => exact ⟨rfl, rfl⟩
    | true =>
      change (c.send ctx cat { msg with level := level }).settings = _ ∧
        (c.send ctx cat { msg with level := level }).signals = _
      rw [send_eq h]
      exact hand_foldl_settings ctx _ c.registered c.holding

/-- What an operation makes of the tables, and which signals it emits, depends on the tables
alone. -/
theorem step_follows (h : Sound [] c) (hs : c.step op = some c') :
    Follows c c' (c.settings.onTables op) := by
  cases op with
  | log ctx level cname message =>
    cases hs
    exact .of_same (logMessage_settings h ctx level cname _)
  | logv ctx level cname formatted =>
    cases hs
    exact .of_same (logMessage_settings h ctx level cname _)
  | setDefaultLevel level =>
    cases hs
    exact (setDefaultLevel_follows c level).2
  | newCategory name level flags =>
    cases hs
    exact newCategory_follows c name level flags
  | removeCategory name =>
    cases hs
    exact removeCategory_follows c name
  | removeAllCategories =>
    cases hs
    exact removeAllCategories_follows c
  | setCategoryEnabled name enable =>
    cases hs
    exact setCategoryEnabled_follows c name enable
  | setCategoryLevel name level =>
    cases hs
    exact setCategoryLevel_follows c name level
  | newSender name pipe =>
    cases hs
    obtain ⟨hsettings, hsignals, _⟩ := newSender_settings c name pipe
    exact .of_same ⟨hsettings, hsignals⟩
  | removeSender j =>
    cases hs
    exact .of_same (removeSender_settings c j)
  | sender j a =>
    obtain ⟨_, _, _, _, _, rfl⟩ := step_callback hs
    exact .of_same (runSender_settings c j _)

/-- The index of the next message. -/
theorem step_next (h : Sound [] c) (hs : c.step op = some c') :
    c'.nextMsgIndex = c.nextMsgIndex + if (c.acceptedCall op).isSome then 1 else 0 := by
  obtain ⟨hnone, hsilent⟩ | ⟨ctx, call, hctx, hcall, hsenders, hbroadcast⟩ := step_cases h hs
  · rw [hnone, hsilent.nextMsgIndex]
    exact (UInt32.add_zero _).symm
  · rw [hcall]
    exact hbroadcast.tables.nextMsgIndex

end Tables

/-! ## Two cores that a sender cannot tell apart -/

structure Alike (i : Nat) (c u : DBusLogCore) : Prop where
  sound : Sound [] c
  sound' : Sound [] u
  connected : Connected c
  connected' : Connected u
  settings : u.settings = c.settings
  signals : u.signals = c.signals
  known : i < c.objects.length
  sender : u.senderAt i = c.senderAt i
  registered : i ∈ u.registered ↔ i ∈ c.registered
  next : i ∈ c.registered → u.nextMsgIndex = c.nextMsgIndex
  handedTo : u.handedTo i = c.handedTo i

section Alike

variable {c c' u u' : DBusLogCore} {i : Nat} {op op' : CoreOp}

theorem Alike.refl (h : Sound [] c) (hc : Connected c) (hi : i < c.objects.length) :
    Alike i c c :=
  ⟨h, h, hc, hc, rfl, rfl, hi, rfl, Iff.rfl, fun _ => rfl, rfl⟩

/-- While the sender is registered both cores take the same log calls. -/
theorem Alike.shouldLog (h : Alike i c u) (hi : i ∈ c.registered) (level : Level)
    (cname : Option String) : u.shouldLog level cname = c.shouldLog level cname := by
  have hc : c.registered.length ≠ 0 := (List.length_pos_iff.mpr (List.ne_nil_of_mem hi)).ne'
  have hu : u.registered.length ≠ 0 :=
    (List.length_pos_iff.mpr (List.ne_nil_of_mem (h.registered.mpr hi))).ne'
  unfold DBusLogCore.shouldLog
  rw [if_pos hc, if_pos hu, settings_categories h.settings, settings_defaultLevel h.settings]

theorem acceptedCall_log (c : DBusLogCore) (ctx : LogContext) (level : Level)
    (cname : Option String) (message : Option (List UInt8)) :
    c.acceptedCall (.log ctx level cname message) =
      if (c.shouldLog level cname).1 then
        some ⟨c.registered, { DBusLogMessage.new message with
          timestamp := ctx.time, category := c.categoryId cname, level := level }⟩
      else none := by
  rw [← logMessage_accepted c ctx level cname (.new message)]
  rfl

theorem acceptedCall_logv (c : DBusLogCore) (ctx : LogContext) (level : Level)
    (cname : Option String) (formatted : Option (List UInt8)) :
    c.acceptedCall (.logv ctx level cname formatted) =
      if (c.shouldLog level cname).1 then
        some ⟨c.registered, { DBusLogMessage.newVa formatted with
          timestamp := ctx.time, category := c.categoryId cname, level := level }⟩
      else none := by
  rw [← logMessage_accepted c ctx level cname (.newVa formatted)]
  rfl

theorem acceptedCall_senders {call : AcceptedCall} (h : c.acceptedCall op = some call) :
    call.senders = c.registered := by
  cases op with
  | log ctx level cname message =>
    rw [acceptedCall_log] at h
    obtain ⟨_, he⟩ := Option.ite_none_right_eq_some.mp h
    cases he
    rfl
  | logv ctx level cname formatted =>
    rw [acceptedCall_logv] at h
    obtain ⟨_, he⟩ := Option.ite_none_right_eq_some.mp h
    cases he
    rfl
  | _ => cases h

/-- While the sender is registered the two cores accept the same messages. -/
theorem Alike.accepted (h : Alike i c u) (hi : i ∈ c.registered)
    (hop : op.heard i = some op') :
    (u.acceptedCall op').map (·.message) = (c.acceptedCall op).map (·.message) := by
  have hcategories : u.categories = c.categories := settings_categories h.settings
  cases op with
  | log ctx level cname message =>
    cases hop
    rw [acceptedCall_log, acceptedCall_log, h.shouldLog hi]
    unfold categoryId
    rw [hcategories]
    split
    · rfl
    · rfl
  | logv ctx level cname formatted =>
    cases hop
    rw [acceptedCall_logv, acceptedCall_logv, h.shouldLog hi]
    unfold categoryId
    rw [hcategories]
    split
    · rfl
    · rfl
  | removeSender j =>
    obtain ⟨_, he⟩ := Option.ite_none_right_eq_some.mp hop
    cases he
    rfl
  | sender j a =>
    obtain ⟨_, he⟩ := Option.ite_none_right_eq_some.mp hop
    cases he
    rfl
  | _ =>
    cases hop
    rfl

theorem broadcastStep_eq (c : DBusLogCore) (op : CoreOp) (i : Nat) :
    c.broadcastStep i op =
      if i ∈ c.registered then
        ((c.acceptedCall op).map (·.message)).bind fun msg =>
          op.context?.map fun ctx => handStep ctx { msg with index := c.nextMsgIndex } i
      else none := by
  unfold broadcastStep
  cases hcall : c.acceptedCall op with
  | none => exact (ite_self none).symm
  | some call =>
    rw [Option.bind_some, acceptedCall_senders hcall]
    rfl

theorem heard_context (hop : op.heard i = some op') :
    op'.context? = op.context?.map (·.only i) := by
  cases op with
  | removeSender j =>
    obtain ⟨_, he⟩ := Option.ite_none_right_eq_some.mp hop
    cases he
    rfl
  | sender j a =>
    obtain ⟨_, he⟩ := Option.ite_none_right_eq_some.mp hop
    cases he
    rfl
  | _ =>
    cases hop
    rfl

/-- The sender does not look at the pipes of the others. -/
theorem handStep_only (ctx : LogContext) (msg : DBusLogMessage) (i : Nat) :
    handStep (ctx.only i) msg i = handStep ctx msg i := by
  simp [handStep, LogContext.only]

theorem Alike.broadcastStep (h : Alike i c u) (hop : op.heard i = some op') :
    u.broadcastStep i op' = c.broadcastStep i op := by
  rw [broadcastStep_eq, broadcastStep_eq]
  by_cases hi : i ∈ c.registered
  · rw [if_pos hi, if_pos (h.registered.mpr hi), h.accepted hi hop, h.next hi,
      heard_context hop]
    simp only [Option.map_map, Function.comp_def, handStep_only]
  · rw [if_neg hi, if_neg (mt h.registered.mp hi)]

/-- The sender takes the same steps. -/
theorem Alike.senderSteps (h : Alike i c u) (hop : op.heard i = some op') :
    u.senderSteps i op' = c.senderSteps i op := by
  have hbroadcast := congrArg Option.toList (h.broadcastStep hop)
  cases op with
  | sender j a =>
    obtain ⟨_, he⟩ := Option.ite_none_right_eq_some.mp hop
    cases he
    rfl
  | removeSender j =>
    obtain ⟨_, he⟩ := Option.ite_none_right_eq_some.mp hop
    cases he
    exact hbroadcast
  | _ =>
    cases hop
    exact hbroadcast

theorem heard_onTables (d : DBusLogCore) (hop : op.heard i = some op') :
    d.onTables op' = d.onTables op := by
  cases op with
  | removeSender j =>
    obtain ⟨_, he⟩ := Option.ite_none_right_eq_some.mp hop
    cases he
    rfl
  | sender j a =>
    obtain ⟨_, he⟩ := Option.ite_none_right_eq_some.mp hop
    cases he
    rfl
  | _ =>
    cases hop
    rfl

theorem heard_removes (hop : op.heard i = some op') :
    op' = .removeSender i ↔ op = .removeSender i := by
  cases op with
  | removeSender j =>
    obtain ⟨_, he⟩ := Option.ite_none_right_eq_some.mp hop
    cases he
    rfl
  | sender j a =>
    obtain ⟨_, he⟩ := Option.ite_none_right_eq_some.mp hop
    cases he
    rfl
  | _ =>
    cases hop
    simp

/-- What is left of an enabled operation is enabled. -/
theorem Alike.enabled (h : Alike i c u) (hop : op.heard i = some op')
    (hs : c.step op = some c') : ∃ u', u.step op' = some u' := by
  cases op with
  | sender j a =>
    obtain ⟨hj, he⟩ := Option.ite_none_right_eq_some.mp hop
    cases he
    subst hj
    obtain ⟨hmessage, hmap⟩ := Option.ite_none_right_eq_some.mp hs
    obtain ⟨s', hstep, _⟩ := Option.map_eq_some_iff.mp hmap
    refine ⟨u.runSender j fun _ => s', ?_⟩
    change (if _ then ((u.senderAt j).bind _).map _ else none) = _
    rw [if_pos hmessage, h.sender, hstep]
    rfl
  | removeSender j =>
    obtain ⟨_, he⟩ := Option.ite_none_right_eq_some.mp hop
    cases he
    exact ⟨_, rfl⟩
  | _ =>
    cases hop
    exact ⟨_, rfl⟩

/-- The step lemma for an operation of which something is left. -/
theorem Alike.step (h : Alike i c u) (hop : op.heard i = some op') (hs : c.step op = some c') :
    ∃ u', u.step op' = some u' ∧ Alike i c' u' := by
  obtain ⟨u', hs'⟩ := h.enabled hop hs
  obtain ⟨s, hsender⟩ := exists_senderAt h.known
  obtain ⟨t, ht, htc, hregc⟩ := step_advanced h.sound h.connected hsender hs
  obtain ⟨t', ht', htu, hregu⟩ :=
    step_advanced h.sound' h.connected' (h.sender.trans hsender) hs'
  rw [h.senderSteps hop] at ht'
  cases ht.symm.trans ht'
  have hfollows := step_follows h.sound hs
  have hfollows' := step_follows h.sound' hs'
  rw [heard_onTables _ hop, h.settings] at hfollows'
  have hregistered : i ∈ u'.registered ↔ i ∈ c'.registered := by
    rw [hregc, hregu, h.registered, ne_eq, ne_eq, heard_removes hop]
  refine ⟨u', hs', step_sound h.sound hs, step_sound h.sound' hs',
    step_connected h.sound h.connected hs, step_connected h.sound' h.connected' hs',
    hfollows'.settings.trans hfollows.settings.symm, ?_, lt_of_senderAt htc, htu.trans htc.symm,
    hregistered, fun hi => ?_, ?_⟩
  · rw [hfollows.signals, hfollows'.signals, h.signals]
  · have hold := (hregc.mp hi).1
    have haccepted := congrArg Option.isSome (h.accepted hold hop)
    simp only [Option.isSome_map] at haccepted
    rw [step_next h.sound hs, step_next h.sound' hs', haccepted, h.next hold]
  · rw [step_handedTo h.sound hs, step_handedTo h.sound' hs', h.senderSteps hop, h.handedTo]

/-- The step lemma for an operation on another sender. -/
theorem Alike.deaf (h : Alike i c u) (hop : op.heard i = none) (hs : c.step op = some c') :
    Alike i c' u := by
  obtain ⟨s, hsender⟩ := exists_senderAt h.known
  obtain ⟨t, ht, htc, hregistered⟩ := step_advanced h.sound h.connected hsender hs
  have hhanded := step_handedTo (i := i) h.sound hs
  have hnext := step_next h.sound hs
  have hfollows := step_follows h.sound hs
  have hquiet : c.senderSteps i op = [] ∧ c.acceptedCall op = none ∧
      op ≠ .removeSender i ∧ c.settings.onTables op = c.settings := by
    cases op with
    | removeSender j =>
      have hj : j ≠ i := by simpa [CoreOp.heard] using hop
      refine ⟨rfl, rfl, fun he => ?_, rfl⟩
      cases he
      exact hj rfl
    | sender j a =>
      have hj : j ≠ i := by simpa [CoreOp.heard] using hop
      refine ⟨if_neg hj, rfl, fun he => ?_, rfl⟩
      cases he
    | _ => cases hop
  obtain ⟨hsteps, hnone, hstays, htables⟩ := hquiet
  rw [hsteps] at ht hhanded
  cases ht
  rw [hnone] at hnext
  rw [htables] at hfollows
  have hsame : i ∈ c'.registered ↔ i ∈ c.registered := by
    rw [hregistered]
    exact ⟨fun hi => hi.1, fun hi => ⟨hi, h.connected.opened i hi s hsender, hstays⟩⟩
  refine ⟨step_sound h.sound hs, h.sound', step_connected h.sound h.connected hs, h.connected',
    h.settings.trans hfollows.settings.symm, ?_, lt_of_senderAt htc,
    h.sender.trans (hsender.trans htc.symm), h.registered.trans hsame.symm, fun hi => ?_, ?_⟩
  · rw [hfollows.signals, h.signals]
    exact (List.append_nil _).symm
  · rw [hnext, h.next (hsame.mp hi)]
    exact (UInt32.add_zero _).symm
  · rw [hhanded, h.handedTo]
    exact (List.append_nil _).symm

end Alike

/-! ## Runs -/

/-- Noninterference between the peers of a core. From the creation of a sender on, whatever is
done to the other senders, and whatever their pipes do, can be taken out of a run, also if they
are stuck for good: the sender ends up the same, down to the bytes that its pipe has taken, and
has been handed the same messages. It is still registered in the one run if it is in the other, and
the core has the same tables and has emitted the same signals. -/
theorem peersIndependent (backlog : Int32) (removedHandlers : Bool) (before ops : List CoreOp)
    (c₀ c : DBusLogCore) (name : String) (readfd writefd : Nat)
    (hbefore : (new backlog removedHandlers).run before = some c₀)
    (hrun : (c₀.newSender name (some (readfd, writefd))).2.run ops = some c) :
    ∃ c', (c₀.newSender name (some (readfd, writefd))).2.run
        (ops.filterMap (CoreOp.heard c₀.objects.length)) = some c' ∧
      c'.senderAt c₀.objects.length = c.senderAt c₀.objects.length ∧
      (c₀.objects.length ∈ c'.registered ↔ c₀.objects.length ∈ c.registered) ∧
      c'.handedTo c₀.objects.length = c.handedTo c₀.objects.length ∧
      c'.settings = c.settings ∧ c'.signals = c.signals := by
  obtain ⟨hsound, hconnected⟩ := run_connected hbefore
  have hnew := newSender_represents hsound hconnected name readfd writefd
  have hstart : Alike c₀.objects.length (c₀.newSender name (some (readfd, writefd))).2
      (c₀.newSender name (some (readfd, writefd))).2 :=
    .refl hnew.sound hnew.connected (lt_of_senderAt hnew.sender)
  have hunwind : ∀ c op c' u, Alike c₀.objects.length c u → True → c.step op = some c' →
      ∃ u', u.run (op.heard c₀.objects.length).toList = some u' ∧
        Alike c₀.objects.length c' u' := by
    intro c op c' u h _ hs
    cases hop : op.heard c₀.objects.length with
    | none => exact ⟨u, rfl, h.deaf hop hs⟩
    | some op' =>
      obtain ⟨u', hs', h'⟩ := h.step hop hs
      exact ⟨u', Runs.run_cons_iff.mpr ⟨u', hs', rfl⟩, h'⟩
  obtain ⟨c', hrun', h⟩ := Runs.run_filterMap hunwind
    (Runs.meets_of_forall (C := fun _ => True) (fun _ _ => trivial) _) hrun hstart
  exact ⟨c', hrun', h.sender, h.registered, h.handedTo, h.settings, h.signals⟩

/-- A peer that comes and goes, and one whose pipe fails in a broadcast. -/
theorem peersIndependent_run :
    let ctx : LogContext := ⟨false, 7, fun i => if i = 0 then [.error] else [.accept 22]⟩
    let ops : List CoreOp := [.newSender "third" (some (7, 8)),
      .log ctx Level.error none (some [104]), .sender 2 (.watch 1 true [.accept 1]),
      .removeSender 2, .log ctx Level.error none none]
    ∃ c₀ c c', (new 0 true).run [.newSender "first" (some (3, 4))] = some c₀ ∧
      (c₀.newSender "second" (some (5, 6))).2.run ops = some c ∧ c.registered = [1] ∧
      (c₀.newSender "second" (some (5, 6))).2.run (ops.filterMap (CoreOp.heard 1)) = some c' ∧
      c'.registered = [0, 1, 2] ∧ c'.senderAt 1 = c.senderAt 1 := by
  intro ctx ops
  obtain ⟨c, hc, he⟩ := Option.map_eq_some_iff.mp (by decide :
    ((((new 0 true).newSender "first" (some (3, 4))).2.newSender "second"
      (some (5, 6))).2.run ops).map (·.registered) = some [1])
  obtain ⟨c', hc', hsender, _⟩ := peersIndependent 0 true [.newSender "first" (some (3, 4))]
    ops _ c "second" 5 6 rfl hc
  obtain ⟨c₂, hc₂, he'⟩ := Option.map_eq_some_iff.mp (by decide :
    ((((new 0 true).newSender "first" (some (3, 4))).2.newSender "second"
      (some (5, 6))).2.run (ops.filterMap (CoreOp.heard 1))).map (·.registered) = some [0, 1, 2])
  cases hc'.symm.trans hc₂
  exact ⟨_, c, c', rfl, hc, he, hc', he', hsender⟩

end DBusLogCore

end DBusLog

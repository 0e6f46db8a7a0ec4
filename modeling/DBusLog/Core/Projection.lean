import DBusLog.Core.Handlers
import DBusLog.Core.SkipCounts
import DBusLog.Lib.Projections

/-!
# Every sender of a core works on its own

What happens to one sender in a run of a core is a run of that sender alone: a send for each
accepted log call that is made while it is registered, and its own callbacks. The other senders
have no part in it, so they can do what they like without its noticing.
-/

namespace DBusLog

namespace DBusLogCore

/-- The call of `dbus_log_sender_send` that the sender `i` gets from an operation. -/
def broadcastStep (i : Nat) (c : DBusLogCore) (op : CoreOp) : Option SenderStep :=
  (c.acceptedCall op).bind fun call =>
    if i ∈ call.senders then
      op.context?.map fun ctx => handStep ctx (call.indexed c.nextMsgIndex) i
    else none

/-- What an operation makes the sender `i` do. -/
def senderSteps (i : Nat) (c : DBusLogCore) (op : CoreOp) : List SenderStep :=
  match op with
  | .sender j a => if j = i then [a] else []
  | op => (c.broadcastStep i op).toList

/-- What a run makes the sender `i` do. -/
def projectSender (i : Nat) (c : DBusLogCore) (ops : List CoreOp) : List SenderStep :=
  Runs.projection (senderSteps i) step c ops

section Steps

variable {c c' : DBusLogCore} {op : CoreOp} {i : Nat} {s : DBusLogSender}

/-! ## The handlers in a run -/

/-- A step that changes tables only keeps the handlers. -/
theorem Connected.tables (h : Connected c) (he : ∃ signals categories lastCid defaultLevel,
    c' = { c with
      signals := signals
      categories := categories
      lastCid := lastCid
      defaultLevel := defaultLevel }) : Connected c' := by
  obtain ⟨_, _, _, _, rfl⟩ := he
  exact h.of_eq rfl rfl rfl

theorem removeSender_connected (h : Sound [] c) (hc : Connected c) (j : Nat) :
    Connected (c.removeSender j).2 := by
  obtain ⟨_, hregistered, hsenders⟩ := removeSender_left h j
  refine ⟨removeSender_linked h hc.toLinked j, fun k hk t ht => ?_⟩
  rw [hregistered] at hk
  exact hc.opened k (List.mem_of_mem_erase hk) t ((hsenders k).symm.trans ht)

/-- The senders in the array stay open and linked. -/
theorem step_connected (h : Sound [] c) (hc : Connected c) (hs : c.step op = some c') :
    Connected c' := by
  cases op with
  | log ctx level cname message =>
    cases hs
    have hzero : (DBusLogMessage.new message).category = 0 := by cases message <;> rfl
    exact (logMessage_carried h hc ctx level cname hzero).connected
  | logv ctx level cname formatted =>
    cases hs
    have hzero : (DBusLogMessage.newVa formatted).category = 0 := by cases formatted <;> rfl
    exact (logMessage_carried h hc ctx level cname hzero).connected
  | setDefaultLevel level =>
    cases hs
    unfold setDefaultLevel
    split
    · simp only
      split
      · exact hc.tables ⟨_, _, _, _, rfl⟩
      · exact hc
    · exact hc
  | newCategory name level flags =>
    cases hs
    unfold newCategory
    split
    · exact hc
    · exact hc.tables ⟨_, _, _, _, rfl⟩
  | removeCategory name =>
    cases hs
    unfold removeCategory
    split
    · exact hc.tables ⟨_, _, _, _, rfl⟩
    · exact hc
  | removeAllCategories =>
    cases hs
    unfold removeAllCategories
    split
    · split
      · obtain ⟨signals, he⟩ := emitAll_frame c.getCategories { c with categories := .empty }
        exact hc.tables ⟨signals, _, _, _, he⟩
      · exact hc.tables ⟨_, _, _, _, rfl⟩
    · exact hc
  | setCategoryEnabled name enable =>
    cases hs
    unfold setCategoryEnabled
    split
    · split
      split
      · exact hc.tables ⟨_, _, _, _, rfl⟩
      · exact hc
    · exact hc
  | setCategoryLevel name level =>
    cases hs
    unfold setCategoryLevel
    split
    · split
      · simp only
        split
        · exact hc.tables ⟨_, _, _, _, rfl⟩
        · exact hc
      · exact hc
    · exact hc
  | newSender name pipe =>
    cases hs
    cases pipe with
    | none => exact hc
    | some pipe => exact (newSender_joined h name pipe.1 pipe.2).2.connected h hc
  | removeSender j =>
    cases hs
    exact removeSender_connected h hc j
  | sender j a =>
    obtain ⟨t, t', hsender, hstep, hj, rfl⟩ := step_callback hs
    refine runSender_connected h hc hj fun u hu => ?_
    cases hsender.symm.trans hu
    exact (DBusLogSender.step_later hstep).onward

/-! ## One step -/

/-- What is to hold of the sender `i` after an operation has made it take `steps`. -/
def Advanced (i : Nat) (s : DBusLogSender) (steps : List SenderStep) (stays : Prop)
    (c c' : DBusLogCore) : Prop :=
  ∃ s', s.run steps = some s' ∧ c'.senderAt i = some s' ∧
    (i ∈ c'.registered ↔ i ∈ c.registered ∧ s'.io.isSome ∧ stays)

/-- A call into the sender. It leaves the array exactly if its channel has been shut down. -/
theorem SenderCall.stays_iff {f : DBusLogSender → DBusLogSender} (h : SenderCall [] i f c c')
    (hc' : Connected c') (hsender : c.senderAt i = some s)
    (hf : DBusLogSender.Onward s (f s)) :
    i ∈ c'.registered ↔ i ∈ c.registered ∧ (f s).io.isSome := by
  have hsender' : c'.senderAt i = some (f s) := by
    rw [h.senders i, if_pos rfl, hsender]
    rfl
  constructor
  · intro hi
    exact ⟨h.sublist.subset hi, hc'.opened i hi _ hsender'⟩
  · rintro ⟨hi, hio⟩
    obtain ⟨_, hsignals⟩ | ⟨_, hgone, _, _, _⟩ := hf.channel
    · rw [h.stays s hsender hsignals.le]
      exact hi
    · rw [hgone] at hio
      cases hio

/-- An operation that is about another sender, or about none. -/
theorem Silent.advanced {target : Option Nat} (h : Silent target c c') (hc' : Connected c')
    (hsender : c.senderAt i = some s) (htarget : some i ≠ target) {stays : Prop} (hstays : stays) :
    Advanced i s [] stays c c' := by
  have hi := lt_of_senderAt hsender
  have hsender' := (h.senders i hi htarget).trans hsender
  refine ⟨s, rfl, hsender', fun hmem => ?_, fun hmem => h.stays i hmem.1 htarget⟩
  refine ⟨(h.registered i hmem).resolve_right (Nat.not_le.mpr hi), ?_, hstays⟩
  exact hc'.opened i hmem s hsender'

/-- The broadcast of an accepted call. -/
theorem Broadcast.advanced {ctx : LogContext} {msg : DBusLogMessage}
    (h : Broadcast [] ctx msg c.registered { c with nextMsgIndex := c.nextMsgIndex + 1 } c')
    (hc' : Connected c') (hsender : c.senderAt i = some s) {stays : Prop} (hstays : stays) :
    Advanced i s (if i ∈ c.registered then [handStep ctx msg i] else []) stays c c' := by
  have hsenders := h.senders i
  change _ = if _ then (c.senderAt i).map _ else c.senderAt i at hsenders
  rw [hsender] at hsenders
  by_cases hmem : i ∈ c.registered
  · rw [if_pos hmem, Option.map_some] at hsenders
    rw [if_pos hmem]
    refine ⟨_, Runs.run_cons_iff.mpr ⟨_, step_handStep ctx msg i s, rfl⟩, hsenders, ?_, ?_⟩
    · intro hi
      exact ⟨hmem, hc'.opened i hi _ hsenders, hstays⟩
    · rintro ⟨_, hio, _⟩
      refine h.stays i hmem fun _ t ht => ?_
      cases hsender.symm.trans ht
      obtain ⟨_, hsignals⟩ | ⟨_, hgone, _, _, _⟩ := (handCall_onward ctx msg i s).channel
      · exact hsignals.le
      · rw [hgone] at hio
        cases hio
  · rw [if_neg hmem] at hsenders
    rw [if_neg hmem]
    exact ⟨s, rfl, hsenders, fun hi => absurd (h.sublist.subset hi) hmem,
      fun hi => absurd hi.1 hmem⟩

/-- An operation that is not accepted as a log call passes nothing to a sender. -/
theorem broadcastStep_none (hnone : c.acceptedCall op = none) : c.broadcastStep i op = none := by
  unfold broadcastStep
  rw [hnone]
  rfl

theorem senderSteps_silent (hnone : c.acceptedCall op = none) (htarget : some i ≠ op.target) :
    c.senderSteps i op = [] := by
  have hstep := broadcastStep_none (i := i) hnone
  cases op with
  | sender j a => exact if_neg fun heq => htarget (congrArg some heq.symm)
  | _ => exact congrArg Option.toList hstep

theorem senderSteps_accepted {ctx : LogContext} {call : AcceptedCall}
    (hctx : op.context? = some ctx) (hcall : c.acceptedCall op = some call)
    (hsenders : call.senders = c.registered) : c.senderSteps i op =
      if i ∈ c.registered then [handStep ctx (call.indexed c.nextMsgIndex) i] else [] := by
  have hstep : c.broadcastStep i op =
      if i ∈ c.registered then some (handStep ctx (call.indexed c.nextMsgIndex) i) else none := by
    unfold broadcastStep
    rw [hcall, Option.bind_some, hsenders, hctx]
    rfl
  cases op with
  | sender j a => cases hctx
  | _ =>
    refine (congrArg Option.toList hstep).trans ?_
    split
    · rfl
    · rfl

/-- The step lemma: an operation makes the sender take its part of it, and the sender leaves the
array when its channel is shut down or when it is removed. -/
theorem step_advanced (h : Sound [] c) (hc : Connected c) (hsender : c.senderAt i = some s)
    (hs : c.step op = some c') :
    Advanced i s (c.senderSteps i op) (op ≠ .removeSender i) c c' := by
  have hc' := step_connected h hc hs
  obtain ⟨hnone, hsilent⟩ | ⟨ctx, call, hctx, hcall, hsenders, hbroadcast⟩ := step_cases h hs
  · by_cases htarget : some i = op.target
    · cases op with
      | removeSender j =>
        cases htarget
        cases hs
        -- a sender that is removed is not called
        obtain ⟨_, hregistered, hsame⟩ := removeSender_left h i
        refine ⟨s, rfl, (hsame i).trans hsender, fun hi => ?_, fun hi => absurd rfl hi.2.2⟩
        rw [hregistered] at hi
        exact absurd hi h.nodup.not_mem_erase
      | sender j a =>
        cases htarget
        obtain ⟨t, t', ht, hstep, hi, rfl⟩ := step_callback hs
        cases hsender.symm.trans ht
        have hcall := runSender_call h hi fun _ => t'
        have hstays := hcall.stays_iff hc' hsender (DBusLogSender.step_later hstep).onward
        refine ⟨t', ?_, ?_, ?_⟩
        · rw [senderSteps, if_pos rfl]
          exact Runs.run_cons_iff.mpr ⟨t', hstep, rfl⟩
        · rw [hcall.senders i, if_pos rfl, hsender]
          rfl
        · simpa using hstays
      | _ => cases htarget
    · rw [senderSteps_silent hnone htarget]
      refine hsilent.advanced hc' hsender htarget ?_
      rintro rfl
      exact htarget rfl
  · rw [senderSteps_accepted hctx hcall hsenders]
    refine hbroadcast.advanced hc' hsender ?_
    rintro rfl
    cases hctx

/-! ## What has been handed to one sender -/

/-- A broadcast hands its message to a sender once, or not at all. -/
theorem handed_broadcast {items : List Nat} (h : items.Nodup) (msg : DBusLogMessage) :
    ((items.map fun j => (j, msg)).filter (·.1 = i)).map Prod.snd =
      if i ∈ items then [msg] else [] := by
  induction items with
  | nil => rfl
  | cons j items ih =>
    obtain ⟨hj, hrest⟩ := List.nodup_cons.mp h
    rw [List.map_cons, List.filter_cons]
    by_cases heq : j = i
    · subst heq
      rw [if_pos (by simp), List.map_cons, ih hrest, if_neg hj, if_pos List.mem_cons_self]
    · rw [if_neg (by simpa using heq), ih hrest]
      have hmem : i ∈ j :: items ↔ i ∈ items := by simp [Ne.symm heq]
      simp only [hmem]

theorem handStep_message (ctx : LogContext) (msg : DBusLogMessage) (i : Nat) :
    (handStep ctx msg i).message? = some msg := by
  unfold handStep
  split
  · rfl
  · rfl

/-- Only the messages of the sender's own steps are handed to it. -/
theorem step_handedTo (h : Sound [] c) (hs : c.step op = some c') :
    c'.handedTo i = c.handedTo i ++ (c.senderSteps i op).filterMap SenderStep.message? := by
  unfold handedTo
  obtain ⟨hnone, hsilent⟩ | ⟨ctx, call, hctx, hcall, hsenders, hbroadcast⟩ := step_cases h hs
  · rw [hsilent.handed]
    suffices hsteps : (c.senderSteps i op).filterMap SenderStep.message? = [] by
      rw [hsteps, List.append_nil]
    have hbroadcast := broadcastStep_none (i := i) hnone
    cases op with
    | sender j a =>
      obtain ⟨hmessage, _⟩ := Option.ite_none_right_eq_some.mp hs
      rw [senderSteps]
      split
      · simp [hmessage]
      · rfl
    | _ =>
      rw [senderSteps, hbroadcast]
      · rfl
      · intro _ _ he
        cases he
  · rw [senderSteps_accepted hctx hcall hsenders, hbroadcast.handed, List.filter_append,
      List.map_append, handed_broadcast h.nodup]
    split
    · rw [List.filterMap_cons, handStep_message]
      rfl
    · rfl

end Steps

/-! ## Runs -/

/-- The sender `s` is the one behind the handle `i`, and registered unless its channel has been
shut down or one of the operations `before` has removed it. -/
structure Represents (i : Nat) (before : List CoreOp) (c : DBusLogCore) (s : DBusLogSender) :
    Prop where
  sound : Sound [] c
  connected : Connected c
  sender : c.senderAt i = some s
  registered : i ∈ c.registered ↔ s.io.isSome ∧ .removeSender i ∉ before

/-- A sender without a channel does not get one. -/
theorem run_opened {s t : DBusLogSender} {steps : List SenderStep}
    (hrun : s.run steps = some t) (ht : t.io.isSome) : s.io.isSome := by
  have honward : DBusLogSender.Onward s t :=
    Runs.invariant_of_forall (C := fun _ => True) (P := DBusLogSender.Onward s)
      (fun _ _ _ h _ hstep => h.trans (DBusLogSender.step_later hstep).onward) (fun _ _ => trivial)
      hrun (.refl s)
  obtain ⟨hio, _⟩ | ⟨hwas, _, _, _, _⟩ := honward.channel
  · rwa [hio] at ht
  · exact hwas

theorem Represents.step {i : Nat} {before : List CoreOp} {c c' : DBusLogCore} {s : DBusLogSender}
    {op : CoreOp} (h : Represents i before c s) (hs : c.step op = some c') :
    ∃ s', s.run (c.senderSteps i op) = some s' ∧ Represents i (before ++ [op]) c' s' := by
  obtain ⟨s', hrun, hsender, hregistered⟩ := step_advanced h.sound h.connected h.sender hs
  refine ⟨s', hrun, step_sound h.sound hs, step_connected h.sound h.connected hs, hsender, ?_⟩
  rw [hregistered, h.registered, List.mem_append, List.mem_singleton]
  constructor
  · rintro ⟨⟨_, hbefore⟩, hio, hop⟩
    exact ⟨hio, fun hmem => hmem.elim hbefore fun heq => hop heq.symm⟩
  · rintro ⟨hio, hmem⟩
    exact ⟨⟨run_opened hrun hio, fun h => hmem (.inl h)⟩, hio, fun heq => hmem (.inr heq.symm)⟩

theorem run_handedTo {i : Nat} {c c' : DBusLogCore} {ops : List CoreOp} (h : Sound [] c)
    (hrun : c.run ops = some c') :
    c'.handedTo i = c.handedTo i ++ (c.projectSender i ops).filterMap SenderStep.message? := by
  induction ops generalizing c with
  | nil =>
    cases hrun
    exact (List.append_nil _).symm
  | cons op ops ih =>
    obtain ⟨c₁, hs, hrun⟩ := Runs.run_cons_iff.mp hrun
    have hfirst := step_handedTo (i := i) h hs
    have hlater := ih (step_sound h hs) hrun
    unfold projectSender at hlater ⊢
    rw [Runs.projection_cons hs, hlater, hfirst, List.filterMap_append, List.append_assoc]

/-- The handlers of a core in any state that it can reach. -/
theorem run_connected {backlog : Int32} {removedHandlers : Bool} {ops : List CoreOp}
    {c : DBusLogCore} (hrun : (new backlog removedHandlers).run ops = some c) :
    Sound [] c ∧ Connected c :=
  Runs.invariant_of_forall (C := fun _ => True) (P := fun c => Sound [] c ∧ Connected c)
    (fun _ _ _ h _ hs => ⟨step_sound h.1 hs, step_connected h.1 h.2 hs⟩) (fun _ _ => trivial) hrun
    ⟨new_sound backlog removedHandlers, new_connected backlog removedHandlers⟩

theorem newSender_represents {c : DBusLogCore} (h : Sound [] c) (hc : Connected c) (name : String)
    (readfd writefd : Nat) :
    Represents c.objects.length [] (c.newSender name (some (readfd, writefd))).2
      (.new name c.backlog readfd writefd) := by
  obtain ⟨_, hj⟩ := newSender_joined h name readfd writefd
  refine ⟨hj.sound, hj.connected h hc, hj.senderAt_new, fun _ => ⟨rfl, List.not_mem_nil⟩, ?_⟩
  intro _
  rw [hj.registered]
  exact List.mem_append_right _ List.mem_cons_self

/-- Nothing has been handed to a sender that is yet to come. -/
theorem handedTo_fresh {backlog : Int32} {removedHandlers : Bool} {ops : List CoreOp}
    {c : DBusLogCore} (hrun : (new backlog removedHandlers).run ops = some c) :
    c.handedTo c.objects.length = [] := by
  have hindices := (run_accounted (new_accounted backlog removedHandlers) hrun).fresh _ le_rfl
  unfold handedTo
  rw [List.map_eq_nil_iff, List.filter_eq_nil_iff]
  intro h hmem
  have hnone := List.filterMap_eq_nil_iff.mp hindices h hmem
  rw [decide_eq_true_eq]
  intro heq
  rw [if_pos heq] at hnone
  cases hnone

/-- Whatever a program does with a core, a sender of it is the sender that runs alone through its
part of the operations: a send for each message that the core has handed to it, in their order,
and its own callbacks. It is registered until its channel is shut down or it is removed. -/
theorem senderRefinement (backlog : Int32) (removedHandlers : Bool) (before ops : List CoreOp)
    (c₀ c : DBusLogCore) (name : String) (readfd writefd : Nat)
    (hbefore : (new backlog removedHandlers).run before = some c₀)
    (hrun : (c₀.newSender name (some (readfd, writefd))).2.run ops = some c) :
    let steps := projectSender c₀.objects.length (c₀.newSender name (some (readfd, writefd))).2 ops
    ∃ s, (DBusLogSender.new name c₀.backlog readfd writefd).run steps = some s ∧
      c.senderAt c₀.objects.length = some s ∧
      steps.filterMap SenderStep.message? = c.handedTo c₀.objects.length ∧
      (c₀.objects.length ∈ c.registered ↔
        s.io.isSome ∧ .removeSender c₀.objects.length ∉ ops) := by
  obtain ⟨hsound, hconnected⟩ := run_connected hbefore
  have hnew := newSender_represents hsound hconnected name readfd writefd
  obtain ⟨s, hsteps, hlast⟩ := Runs.run_projection (C := fun _ _ => True)
    (R := Represents c₀.objects.length) (fun _ _ _ _ _ h _ hs => h.step hs)
    (Runs.meets_of_forall (C := fun _ => True) (fun _ _ => trivial) _) hrun hnew
  refine ⟨s, hsteps, hlast.sender, ?_, hlast.registered⟩
  have hsilent := newSender_silent hsound name (some (readfd, writefd))
  rw [run_handedTo hsilent.sound hrun]
  unfold handedTo
  rw [hsilent.handed]
  change _ = handedTo c₀ c₀.objects.length ++ _
  rw [handedTo_fresh hbefore, List.nil_append]

/-- A sender that comes between two others, the first of which fails in the broadcast. It is
removed before the second call. -/
theorem senderRefinement_run :
    let ctx : LogContext := ⟨false, 7, fun i => if i = 0 then [.error] else [.accept 22]⟩
    let ops : List CoreOp := [.newSender "third" (some (7, 8)),
      .log ctx Level.error none (some [104]), .sender 1 (.watch 1 true [.accept 1]),
      .removeSender 1, .log ctx Level.error none none]
    ∃ c₀ c s, (new 0 true).run [.newSender "first" (some (3, 4))] = some c₀ ∧
      (c₀.newSender "second" (some (5, 6))).2.run ops = some c ∧ c.registered = [2] ∧
      (DBusLogSender.new "second" c₀.backlog 5 6).run
        (projectSender 1 (c₀.newSender "second" (some (5, 6))).2 ops) = some s ∧
      c.senderAt 1 = some s ∧ (c.handedTo 1).map (·.text) = [[104]] := by
  intro ctx ops
  obtain ⟨c, hc, he⟩ := Option.map_eq_some_iff.mp (by decide :
    ((((new 0 true).newSender "first" (some (3, 4))).2.newSender "second"
      (some (5, 6))).2.run ops).map (fun c => (c.registered, (c.handedTo 1).map (·.text))) =
        some ([2], [[104]]))
  simp only [Prod.mk.injEq] at he
  obtain ⟨s, hsteps, hsender, _, _⟩ := senderRefinement 0 true [.newSender "first" (some (3, 4))]
    ops _ c "second" 5 6 rfl hc
  exact ⟨_, c, s, rfl, hc, he.1, hsteps, hsender, he.2⟩

end DBusLogCore

end DBusLog

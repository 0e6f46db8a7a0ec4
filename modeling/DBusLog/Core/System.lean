import DBusLog.Core.Operations

/-!
# Runs of a core

The calls that a program makes on a core and on its senders, one after another, and the log calls
that a run has accepted.
-/

namespace DBusLog

/-- One call, or one callback of the main loop for a sender. -/
inductive CoreOp
  | log (ctx : LogContext) (level : Level) (cname : Option String)
      (message : Option (List UInt8))
  | logv (ctx : LogContext) (level : Level) (cname : Option String)
      (formatted : Option (List UInt8))
  | setDefaultLevel (level : Level)
  | newCategory (name : String) (level : Level) (flags : UInt64)
  | removeCategory (name : String)
  | removeAllCategories
  | setCategoryEnabled (name : String) (enable : Bool)
  | setCategoryLevel (name : String) (level : Level)
  | newSender (name : String) (pipe : Option (Nat × Nat))
  | removeSender (sender : Nat)
  | sender (sender : Nat) (a : SenderStep)

/-- A log call that has returned TRUE: the senders registered when it began, and its message but
for the index. -/
structure AcceptedCall where
  senders : List Nat
  message : DBusLogMessage
  deriving DecidableEq

/-- The message of an accepted call with its index. -/
def AcceptedCall.indexed (call : AcceptedCall) (index : UInt32) : DBusLogMessage :=
  { call.message with index := index }

/-- The sender that an operation is about. -/
def CoreOp.target : CoreOp → Option Nat
  | .removeSender i => some i
  | .sender i _ => some i
  | _ => none

/-- Where and when a log call is made. -/
def CoreOp.context? : CoreOp → Option LogContext
  | .log ctx _ _ _ | .logv ctx _ _ _ => some ctx
  | _ => none

namespace DBusLogCore

/-- The id of the category registered under a name, or 0. -/
def categoryId (c : DBusLogCore) (cname : Option String) : UInt32 :=
  ((cname.bind c.categories.lookup).map (·.id)).getD 0

/-- A step; `none` when it is not enabled. Only the core itself passes messages to a sender. -/
def step (c : DBusLogCore) : CoreOp → Option DBusLogCore
  | .log ctx level cname message => some (c.log ctx level cname message).2
  | .logv ctx level cname formatted => some (c.logv ctx level cname formatted).2
  | .setDefaultLevel level => some (c.setDefaultLevel level).2
  | .newCategory name level flags => some (c.newCategory name level flags).2
  | .removeCategory name => some (c.removeCategory name).2
  | .removeAllCategories => some c.removeAllCategories
  | .setCategoryEnabled name enable => some (c.setCategoryEnabled name enable)
  | .setCategoryLevel name level => some (c.setCategoryLevel name level).2
  | .newSender name pipe => some (c.newSender name pipe).2
  | .removeSender sender => some (c.removeSender sender).2
  | .sender sender a =>
    if a.message? = none then
      ((c.senderAt sender).bind fun s => s.step a).map fun s => c.runSender sender fun _ => s
    else none

abbrev run (c : DBusLogCore) (ops : List CoreOp) : Option DBusLogCore := Runs.run step c ops

/-- The call that an operation makes, if the core accepts it. -/
def acceptedCall (c : DBusLogCore) : CoreOp → Option AcceptedCall
  | .log ctx level cname message =>
    if (c.log ctx level cname message).1 then
      some ⟨c.registered, { DBusLogMessage.new message with
        timestamp := ctx.time, category := c.categoryId cname, level := level }⟩
    else none
  | .logv ctx level cname formatted =>
    if (c.logv ctx level cname formatted).1 then
      some ⟨c.registered, { DBusLogMessage.newVa formatted with
        timestamp := ctx.time, category := c.categoryId cname, level := level }⟩
    else none
  | _ => none

/-- The accepted calls, after an operation. -/
def recordCall (c : DBusLogCore) (op : CoreOp) (calls : List AcceptedCall) : List AcceptedCall :=
  calls ++ (c.acceptedCall op).toList

/-- The accepted calls of a run. -/
def acceptedCalls (c : DBusLogCore) (ops : List CoreOp) : List AcceptedCall :=
  Runs.history recordCall step c ops []

/-! ## One step -/

/-- A step that hands nothing to any sender. It leaves alone all senders but its target. -/
structure Silent (target : Option Nat) (c c' : DBusLogCore) : Prop where
  sound : Sound [] c'
  handed : c'.handed = c.handed
  nextMsgIndex : c'.nextMsgIndex = c.nextMsgIndex
  backlog : c'.backlog = c.backlog
  objects : c.objects.length ≤ c'.objects.length
  registered : ∀ i ∈ c'.registered, i ∈ c.registered ∨ c.objects.length ≤ i
  stays : ∀ i ∈ c.registered, some i ≠ target → i ∈ c'.registered
  senders : ∀ i < c.objects.length, some i ≠ target → c'.senderAt i = c.senderAt i

section Silent

variable {c : DBusLogCore}

theorem SenderCall.silent {c' : DBusLogCore} {i : Nat} {f : DBusLogSender → DBusLogSender}
    (h : SenderCall [] i f c c') : Silent (some i) c c' where
  sound := h.sound
  handed := h.handed
  nextMsgIndex := h.nextMsgIndex
  backlog := h.backlog
  objects := h.objects.ge
  registered _ hj := .inl (h.sublist.subset hj)
  stays j hj hne := h.others j hj fun heq => hne (congrArg some heq)
  senders j _ hne := (h.senders j).trans (if_neg fun heq => hne (congrArg some heq))

theorem removeSender_silent (h : Sound [] c) (i : Nat) :
    Silent (some i) c (c.removeSender i).2 := by
  obtain ⟨hleft, hregistered, hsenders⟩ := removeSender_left h i
  refine ⟨hleft.sound, hleft.handed, hleft.nextMsgIndex, hleft.backlog, hleft.objects.ge,
    fun j hj => .inl (hleft.sublist.subset hj), fun j hj hne => ?_, fun j _ _ => hsenders j⟩
  rw [hregistered]
  exact (List.mem_erase_of_ne fun heq => hne (congrArg some heq)).mpr hj

/-- A step that changes tables only. -/
theorem Sound.silent (h : Sound [] c) {c' : DBusLogCore}
    (he : ∃ signals categories lastCid defaultLevel, c' = { c with
      signals := signals
      categories := categories
      lastCid := lastCid
      defaultLevel := defaultLevel }) : Silent none c c' := by
  obtain ⟨_, _, _, _, rfl⟩ := he
  exact ⟨⟨h.intact, h.counted, h.nodup, h.known⟩, rfl, rfl, rfl, le_rfl, fun _ hi => .inl hi,
    fun _ hi _ => hi, fun _ _ _ => rfl⟩

theorem newSender_silent (h : Sound [] c) (name : String) (pipe : Option (Nat × Nat)) :
    Silent none c (c.newSender name pipe).2 := by
  obtain _ | ⟨readfd, writefd⟩ := pipe
  · exact h.silent ⟨_, _, _, _, rfl⟩
  · unfold newSender
    simp only [h.touch List.mem_cons_self]
    -- the object is there before the array has it
    have hgrown : Sound [] { c with
        objects := c.objects ++ [SenderObject.mk (.new name c.backlog readfd writefd)
          [c.lastHandlerId + 1]]
        lastHandlerId := c.lastHandlerId + 1
        senderSignalIds := c.senderSignalIds.insert (c.objects.length, c.lastHandlerId + 1) } := by
      refine ⟨h.intact, h.counted, h.nodup, fun i hi => ?_⟩
      rw [List.length_append]
      exact Nat.lt_add_right _ (h.known i hi)
    have hfresh : c.objects.length ∉ c.registered := fun hmem => lt_irrefl _ (h.known _ hmem)
    have hswap := hgrown.swapSenders (c.registered ++ [c.objects.length])
      (List.Nodup.append h.nodup (List.nodup_singleton _)
        (List.disjoint_singleton.mpr hfresh)) fun i hi => by
      rw [List.length_append]
      rcases List.mem_append.mp hi with hi | hi
      · exact Nat.lt_add_right _ (h.known i hi)
      · rw [List.mem_singleton.mp hi]
        exact Nat.lt_succ_self _
    refine ⟨hswap, rfl, rfl, rfl, ?_, fun i hi => ?_, fun i hi _ => ?_, fun i hi _ => ?_⟩
    · change c.objects.length ≤ (c.objects ++ _).length
      rw [List.length_append]
      exact Nat.le_add_right _ _
    · change i ∈ (swapSenders _ _).registered at hi
      rw [swapSenders_registered] at hi
      rcases List.mem_append.mp hi with hi | hi
      · exact .inl hi
      · exact .inr (List.mem_singleton.mp hi).ge
    · rw [swapSenders_registered]
      exact List.mem_append_left _ hi
    · change ((c.objects ++ _)[i]?).map (·.sender) = (c.objects[i]?).map (·.sender)
      rw [List.getElem?_append_left hi]

theorem emitAll_frame (cats : List DBusLogCategory) (c : DBusLogCore) :
    ∃ signals, cats.foldl (fun c cat => c.emit (.categoryRemoved cat)) c =
      { c with signals := signals } := by
  induction cats generalizing c with
  | nil => exact ⟨c.signals, rfl⟩
  | cons cat cats ih =>
    obtain ⟨signals, he⟩ := ih (c.emit (.categoryRemoved cat))
    exact ⟨signals, he⟩

end Silent

/-! ## One log call -/

/-- The category that a broadcast gets is the one registered under the name. -/
theorem shouldLog_category (c : DBusLogCore) (level : Level) (cname : Option String)
    (h : (c.shouldLog level cname).1 = true) :
    (c.shouldLog level cname).2 = cname.bind c.categories.lookup := by
  unfold shouldLog at h ⊢
  by_cases hlen : c.registered.length ≠ 0
  · rw [if_pos hlen] at h ⊢
    cases hcat : cname.bind c.categories.lookup with
    | none => rfl
    | some cat =>
      simp only
      split <;> rfl
  · rw [if_neg hlen] at h
    cases h

/-- A log call is a broadcast, or it changes nothing. -/
theorem logMessage_cases {c : DBusLogCore} (h : Sound [] c) (ctx : LogContext) (level : Level)
    (cname : Option String) {msg : DBusLogMessage} (hcategory : msg.category = 0) :
    (c.logMessage ctx level cname msg = (false, c)) ∨
    ((c.logMessage ctx level cname msg).1 = true ∧
      Broadcast [] ctx { msg with
          timestamp := ctx.time
          index := c.nextMsgIndex
          category := c.categoryId cname
          level := level }
        c.registered { c with nextMsgIndex := c.nextMsgIndex + 1 }
        (c.logMessage ctx level cname msg).2) := by
  unfold logMessage
  cases hs : c.shouldLog level cname with
  | mk accepted cat =>
    cases accepted with
    | false => exact .inl rfl
    | true =>
      have hcat := shouldLog_category c level cname (by rw [hs])
      rw [hs] at hcat
      have hstamp : c.stamp ctx cat { msg with level := level } = { msg with
          timestamp := ctx.time
          index := c.nextMsgIndex
          category := c.categoryId cname
          level := level } := by
        unfold stamp categoryId
        rw [← hcat]
        simp only [hcategory]
      refine .inr ⟨rfl, ?_⟩
      rw [← hstamp]
      exact send_broadcast h ctx cat { msg with level := level }

/-! ## Every step -/

theorem newCategory_silent {c : DBusLogCore} (h : Sound [] c) (name : String) (level : Level)
    (flags : UInt64) : Silent none c (c.newCategory name level flags).2 := by
  refine h.silent ?_
  unfold newCategory
  split
  · exact ⟨_, _, _, _, rfl⟩
  · exact ⟨_, _, _, _, rfl⟩

theorem removeAllCategories_silent {c : DBusLogCore} (h : Sound [] c) :
    Silent none c c.removeAllCategories := by
  refine h.silent ?_
  unfold removeAllCategories
  split
  · split
    · obtain ⟨signals, he⟩ := emitAll_frame c.getCategories { c with categories := .empty }
      exact ⟨signals, _, _, _, he⟩
    · exact ⟨_, _, _, _, rfl⟩
  · exact ⟨_, _, _, _, rfl⟩

theorem setCategoryEnabled_silent {c : DBusLogCore} (h : Sound [] c) (name : String)
    (enable : Bool) : Silent none c (c.setCategoryEnabled name enable) := by
  refine h.silent ?_
  unfold setCategoryEnabled
  split
  · split
    split
    · exact ⟨_, _, _, _, rfl⟩
    · exact ⟨_, _, _, _, rfl⟩
  · exact ⟨_, _, _, _, rfl⟩

/-- A callback of the main loop for a sender. -/
theorem step_callback {c c' : DBusLogCore} {i : Nat} {a : SenderStep}
    (hs : c.step (.sender i a) = some c') :
    ∃ s s', c.senderAt i = some s ∧ s.step a = some s' ∧ i < c.objects.length ∧
      c' = c.runSender i fun _ => s' := by
  obtain ⟨_, hmap⟩ := Option.ite_none_right_eq_some.mp hs
  obtain ⟨s', hstep, rfl⟩ := Option.map_eq_some_iff.mp hmap
  obtain ⟨s, hsender, hstep⟩ := Option.bind_eq_some_iff.mp hstep
  exact ⟨s, s', hsender, hstep, lt_of_senderAt hsender, rfl⟩

/-- A step is a broadcast of an accepted call, or it hands nothing to any sender. -/
theorem step_cases {c c' : DBusLogCore} {op : CoreOp} (h : Sound [] c)
    (hs : c.step op = some c') :
    (c.acceptedCall op = none ∧ Silent op.target c c') ∨
    (∃ ctx call, op.context? = some ctx ∧ c.acceptedCall op = some call ∧
      call.senders = c.registered ∧
      Broadcast [] ctx (call.indexed c.nextMsgIndex) c.registered
        { c with nextMsgIndex := c.nextMsgIndex + 1 } c') := by
  have hsame : Silent none c c := h.silent ⟨_, _, _, _, rfl⟩
  cases op with
  | log ctx level cname message =>
    cases hs
    have hzero : (DBusLogMessage.new message).category = 0 := by cases message <;> rfl
    obtain hrejected | ⟨haccepted, hcall⟩ := logMessage_cases h ctx level cname hzero
    · refine .inl ⟨?_, ?_⟩
      · exact if_neg (by simp [log, hrejected])
      · unfold log
        rw [hrejected]
        exact hsame
    · exact .inr ⟨ctx, _, rfl, if_pos haccepted, rfl, hcall⟩
  | logv ctx level cname formatted =>
    cases hs
    have hzero : (DBusLogMessage.newVa formatted).category = 0 := by cases formatted <;> rfl
    obtain hrejected | ⟨haccepted, hcall⟩ := logMessage_cases h ctx level cname hzero
    · refine .inl ⟨?_, ?_⟩
      · exact if_neg (by simp [logv, hrejected])
      · unfold logv
        rw [hrejected]
        exact hsame
    · exact .inr ⟨ctx, _, rfl, if_pos haccepted, rfl, hcall⟩
  | setDefaultLevel level =>
    cases hs
    refine .inl ⟨rfl, h.silent ?_⟩
    unfold setDefaultLevel
    split
    · simp only
      split
      · exact ⟨_, _, _, _, rfl⟩
      · exact ⟨_, _, _, _, rfl⟩
    · exact ⟨_, _, _, _, rfl⟩
  | newCategory name level flags =>
    cases hs
    exact .inl ⟨rfl, newCategory_silent h name level flags⟩
  | removeCategory name =>
    cases hs
    refine .inl ⟨rfl, h.silent ?_⟩
    unfold removeCategory
    split
    · exact ⟨_, _, _, _, rfl⟩
    · exact ⟨_, _, _, _, rfl⟩
  | removeAllCategories =>
    cases hs
    exact .inl ⟨rfl, removeAllCategories_silent h⟩
  | setCategoryEnabled name enable =>
    cases hs
    exact .inl ⟨rfl, setCategoryEnabled_silent h name enable⟩
  | setCategoryLevel name level =>
    cases hs
    refine .inl ⟨rfl, h.silent ?_⟩
    unfold setCategoryLevel
    split
    · split
      · simp only
        split
        · exact ⟨_, _, _, _, rfl⟩
        · exact ⟨_, _, _, _, rfl⟩
      · exact ⟨_, _, _, _, rfl⟩
    · exact ⟨_, _, _, _, rfl⟩
  | newSender name pipe =>
    cases hs
    exact .inl ⟨rfl, newSender_silent h name pipe⟩
  | removeSender sender =>
    cases hs
    exact .inl ⟨rfl, removeSender_silent h sender⟩
  | sender i a =>
    obtain ⟨_, hmap⟩ := Option.ite_none_right_eq_some.mp hs
    obtain ⟨s, hstep, rfl⟩ := Option.map_eq_some_iff.mp hmap
    obtain ⟨s₀, hs₀, _⟩ := Option.bind_eq_some_iff.mp hstep
    obtain ⟨object, hobject, _⟩ := Option.map_eq_some_iff.mp hs₀
    obtain ⟨hi, _⟩ := List.getElem?_eq_some_iff.mp hobject
    exact .inl ⟨rfl, (runSender_call h hi _).silent⟩

theorem new_sound (backlog : Int32) (removedHandlers : Bool) :
    Sound [] (new backlog removedHandlers) where
  intact := rfl
  counted := by
    have hempty : RefHeap.Counted ([] : RefHeap (List Nat)) [] :=
      ⟨fun _ h => (nomatch h), fun _ _ h => (nomatch h)⟩
    exact hempty.alloc []
  nodup := List.nodup_nil
  known := fun _ h => (nomatch h)

/-- The memory of a core is in order after every step. -/
theorem step_sound {c c' : DBusLogCore} {op : CoreOp} (h : Sound [] c)
    (hs : c.step op = some c') : Sound [] c' := by
  obtain ⟨_, hsilent⟩ | ⟨_, _, _, _, _, hcall⟩ := step_cases h hs
  · exact hsilent.sound
  · exact hcall.sound

end DBusLogCore

end DBusLog

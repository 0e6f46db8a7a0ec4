import DBusLog.Sender.Interleaving

/-!
# Calls that are not interrupted

The two models of a sender agree: when workers send only while the main thread is outside of the
sender, what the halves of `write` do one after the other is what the atomic calls do. Each half
is given its own channel answers, and a call gets those that its halves have used, in order.
-/

namespace DBusLog

namespace DBusLogSender

/-- The sender with other channel answers to come. -/
def answering (s : DBusLogSender) (answers : List WriteAnswer) : DBusLogSender :=
  { s with answers := answers }

section Answering

variable {s t : DBusLogSender} {answers : List WriteAnswer}

@[simp] theorem answering_answering (s : DBusLogSender) (xs ys : List WriteAnswer) :
    (s.answering xs).answering ys = s.answering ys := rfl

@[simp] theorem answering_self (s : DBusLogSender) : s.answering s.answers = s := rfl

/-! ## The answers do not matter outside of the I/O -/

theorem sendLocked_answering (s : DBusLogSender) (answers : List WriteAnswer)
    (msg : DBusLogMessage) : (s.answering answers).sendLocked msg =
      ((s.sendLocked msg).1, (s.sendLocked msg).2.answering answers) := by
  obtain ⟨hdone, he⟩ | ⟨hdone, hidle, he⟩ | ⟨hdone, hidle, he⟩ := sendLocked_cases s msg
  · rw [he]
    exact if_pos hdone
  · rw [he]
    exact (if_neg (by simp [answering, hdone])).trans (if_pos hidle)
  · rw [he]
    exact (if_neg (by simp [answering, hdone])).trans (if_neg hidle)

theorem closeLocked_answering (s : DBusLogSender) (answers : List WriteAnswer) :
    (s.answering answers).closeLocked =
      (s.closeLocked.1, s.closeLocked.2.answering answers) := by
  obtain ⟨hdone, he⟩ | ⟨hdone, hidle, hb, he⟩ | ⟨hdone, hbusy, he⟩ := closeLocked_cases s
  · rw [he]
    exact if_pos hdone
  · rw [he]
    exact (if_neg (by simp [answering, hdone])).trans (if_pos ⟨hidle, hb⟩)
  · rw [he]
    exact (if_neg (by simp [answering, hdone])).trans (if_neg hbusy)

theorem sendFromWorker_answering (s : DBusLogSender) (answers : List WriteAnswer)
    (msg : DBusLogMessage) : (s.answering answers).sendFromWorker msg =
      (s.sendFromWorker msg).answering answers := by
  unfold sendFromWorker
  rw [sendLocked_answering]
  obtain ⟨more, t⟩ := s.sendLocked msg
  cases more with
  | true => rfl
  | false => rfl

theorem nextPacket_answering (s : DBusLogSender) (answers : List WriteAnswer) :
    (s.answering answers).nextPacket = (s.nextPacket.1, s.nextPacket.2.answering answers) := by
  obtain ⟨m, rest, hb, he⟩ | ⟨hb, hbye, he⟩ | ⟨hb, hbye, he⟩ := nextPacket_cases s
  · rw [he]
    unfold nextPacket answering
    simp [BoundedRing.get, hb]
    rfl
  · rw [he]
    unfold nextPacket answering
    simp [BoundedRing.get, hb, hbye]
    rfl
  · rw [he]
    unfold nextPacket answering
    simp [BoundedRing.get, hb, hbye]

/-! ## The answers that get a packet out -/

/-- A part of the I/O uses some answers and leaves the others alone. -/
def Uses (f : DBusLogSender → WriteOutcome × DBusLogSender) (s t : DBusLogSender) : Prop :=
  ∃ used, s.answers = used ++ t.answers ∧
    ∀ rest, f (s.answering (used ++ rest)) = (.sent, t.answering rest)

theorem writeUpTo_uses {limit : Nat} {buf : List UInt8} (hlimit : s.packetWritten < limit)
    (h : s.writeUpTo limit buf = (.sent, t)) : Uses (fun s => s.writeUpTo limit buf) s t := by
  unfold writeUpTo writeChars at h
  cases hio : s.io with
  | none =>
    simp [hio, hlimit] at h
  | some fd =>
    cases hanswers : s.answers with
    | nil => simp [hio, hanswers, hlimit] at h
    | cons answer answers =>
      cases answer with
      | error => simp [hio, hanswers] at h
      | accept n =>
        simp only [hio, hanswers, Prod.mk.injEq] at h
        obtain ⟨hsent, rfl⟩ := h
        refine ⟨[.accept n], hanswers, fun rest => ?_⟩
        unfold writeUpTo writeChars
        simp only [answering, hio, List.cons_append, List.nil_append, Prod.mk.injEq]
        exact ⟨hsent, trivial⟩

theorem Uses.refl {f : DBusLogSender → WriteOutcome × DBusLogSender}
    (h : ∀ answers, f (s.answering answers) = (.sent, s.answering answers)) : Uses f s s :=
  ⟨[], rfl, fun rest => h rest⟩

theorem writeFixedPart_uses (h : s.writeFixedPart = (.sent, t)) : Uses writeFixedPart s t := by
  unfold writeFixedPart at h
  split at h
  · next hlt =>
    obtain ⟨used, hused, hrest⟩ := writeUpTo_uses hlt h
    exact ⟨used, hused, fun rest => (if_pos hlt).trans (hrest rest)⟩
  · next hlt =>
    cases h
    exact .refl fun answers => if_neg hlt

theorem writeMessageData_uses (h : s.writeMessageData = (.sent, t)) :
    Uses writeMessageData s t := by
  unfold writeMessageData at h
  split at h
  · next hlt =>
    obtain ⟨used, hused, hrest⟩ := writeUpTo_uses hlt h
    exact ⟨used, hused, fun rest => (if_pos hlt).trans (hrest rest)⟩
  · next hlt =>
    cases h
    exact .refl fun answers => if_neg hlt

theorem writePacket_uses (h : s.writePacket = (.sent, t)) : Uses writePacket s t := by
  unfold writePacket at h
  split at h
  · next hlt =>
    split at h
    · next u hfixed =>
      obtain ⟨used, hused, hrest⟩ := writeFixedPart_uses hfixed
      obtain ⟨used', hused', hrest'⟩ := writeMessageData_uses h
      refine ⟨used ++ used', by rw [hused, hused', List.append_assoc], fun rest => ?_⟩
      have hfirst := hrest (used' ++ rest)
      rw [← List.append_assoc] at hfirst
      refine (if_pos hlt).trans ?_
      rw [hfirst]
      exact hrest' rest
    · cases h
    · cases h
  · next hlt =>
    cases h
    exact .refl fun answers => if_neg hlt

end Answering

end DBusLogSender

namespace Thread

open DBusLogSender

instance : DecidablePred Action.InWrite
  | .io _ | .locked => isTrue trivial
  | .workerSend _ | .send _ | .ping | .close _ | .shutdown _ | .callback | .watch _ _ => isFalse id

/-- The calls among the actions. -/
def calls (actions : List Action) : List Action := actions.filter fun a => ¬Action.InWrite a

/-- A call, what is done inside of it, and what comes after it. -/
theorem calls_call {a : Action} {inner rest : List Action} (ha : ¬Action.InWrite a)
    (hinner : ∀ b ∈ inner, Action.InWrite b) :
    calls (a :: (inner ++ rest)) = a :: calls rest := by
  have hnone : calls inner = [] := List.filter_eq_nil_iff.mpr fun b hb => by simp [hinner b hb]
  unfold calls at hnone ⊢
  rw [List.filter_cons_of_pos (by simp [ha]), List.filter_append, hnone, List.nil_append]

/-- A worker sends only while the main thread is outside of the sender. -/
def Uninterrupted (c : Thread) : Action → Prop
  | .workerSend _ => c.control = .idle
  | _ => True

instance (c : Thread) : DecidablePred (Uninterrupted c)
  | .workerSend _ => inferInstanceAs (Decidable (c.control = .idle))
  | .send _ | .ping | .close _ | .shutdown _ | .callback | .watch _ _ | .io _ | .locked =>
    isTrue trivial

/-! ## The answers of a call -/

section Answering

variable {s t : DBusLogSender} {callers : List Caller}

theorem addWatch_answering (s : DBusLogSender) (answers : List WriteAnswer) :
    (s.answering answers).addWatch = s.addWatch.answering answers := by
  unfold addWatch answering
  cases s.io with
  | none => rfl
  | some fd => rfl

theorem returnFrom_answering (more : Bool) (s : DBusLogSender) (callers : List Caller)
    (answers : List WriteAnswer) : returnFrom more (s.answering answers) callers =
      (returnFrom more s callers).answering answers := by
  induction callers generalizing more s with
  | nil => rfl
  | cons caller callers ih =>
    cases caller with
    | scheduleWrite =>
      rw [returnFrom, returnFrom, ← ih]
      cases more with
      | true => exact congrArg (returnFrom true · callers) (addWatch_answering s answers)
      | false => rfl
    | watch id =>
      rw [returnFrom, returnFrom, ← ih]
      cases more with
      | true => rfl
      | false => rfl

/-- `schedule_write` goes on where `write` returns to it. -/
theorem returnFrom_scheduleWrite (hc : s.io.isSome ∧ s.writeWatchId = 0) :
    returnFrom s.write.1 s.write.2 (.scheduleWrite :: callers) =
      returnFrom true s.scheduleWrite callers := by
  rw [returnFrom, scheduleWrite_eq, if_pos hc]

/-! ## From the halves to the call -/

/-- The actions begin with the rest of a call, which returns with the sender `t`. -/
def Returns (c : Thread) (actions : List Action) (t : DBusLogSender) : Prop :=
  ∃ inner rest, actions = inner ++ rest ∧ (∀ a ∈ inner, Action.InWrite a) ∧
    run c inner = some ⟨t, .idle⟩

theorem Returns.now (actions : List Action) : Returns ⟨s, .idle⟩ actions s :=
  ⟨[], actions, rfl, fun _ ha => absurd ha List.not_mem_nil, rfl⟩

theorem Returns.cons {c c' : Thread} {a : Action} {actions : List Action}
    (ha : Action.InWrite a) (hs : step c a = some c') (h : Returns c' actions t) :
    Returns c (a :: actions) t := by
  obtain ⟨inner, rest, rfl, hinner, hrun⟩ := h
  exact ⟨a :: inner, rest, rfl, List.forall_mem_cons.mpr ⟨ha, hinner⟩,
    Runs.run_cons_iff.mpr ⟨c', hs, hrun⟩⟩

/-- The only actions inside a call are the halves of `write`. -/
theorem step_writing {c : Thread} {a : Action} (hc : Uninterrupted ⟨s, .writing callers⟩ a)
    (hs : step ⟨s, .writing callers⟩ a = some c) :
    ∃ answers, a = .io answers ∧ c = io (s.answering answers) callers := by
  cases a with
  | io answers =>
    cases hs
    exact ⟨answers, rfl, rfl⟩
  | workerSend msg => cases hc
  | _ => cases hs

theorem step_between {c : Thread} {a : Action} {finished : Option DBusLogMessage}
    (hc : Uninterrupted ⟨s, .between callers finished⟩ a)
    (hs : step ⟨s, .between callers finished⟩ a = some c) : a = .locked ∧ c = locked s callers := by
  cases a with
  | locked =>
    cases hs
    exact ⟨rfl, rfl⟩
  | workerSend msg => cases hc
  | _ => cases hs

/-- `schedule_write` returns, if the `write` that it may call does. -/
theorem enter_returns {actions : List Action}
    (hwrite : s.io.isSome ∧ s.writeWatchId = 0 → ∃ answers,
      Returns ⟨s, .writing (.scheduleWrite :: callers)⟩ actions
        (returnFrom (s.answering answers).write.1 (s.answering answers).write.2
          (.scheduleWrite :: callers))) :
    ∃ answers, Returns (enterScheduleWrite s callers) actions
      (returnFrom true (s.answering answers).scheduleWrite callers) := by
  unfold enterScheduleWrite
  by_cases hc : s.io.isSome ∧ s.writeWatchId = 0
  · obtain ⟨answers, h⟩ := hwrite hc
    rw [if_pos hc]
    refine ⟨answers, ?_⟩
    rwa [returnFrom_scheduleWrite (s := s.answering answers) hc] at h
  · rw [if_neg hc]
    refine ⟨s.answers, ?_⟩
    rw [answering_self, scheduleWrite_eq, if_neg hc]
    exact .now actions

/-- The halves of `write` do what `write` does with the answers that they have used. -/
theorem write_returns {n : Nat} {actions : List Action} {s t : DBusLogSender}
    {callers : List Caller} (hn : actions.length ≤ n)
    (hok : Runs.Meets step Uninterrupted ⟨s, .writing callers⟩ actions)
    (hrun : run ⟨s, .writing callers⟩ actions = some ⟨t, .idle⟩) :
    ∃ answers, Returns ⟨s, .writing callers⟩ actions
      (returnFrom (s.answering answers).write.1 (s.answering answers).write.2 callers) := by
  induction n generalizing actions s callers with
  | zero =>
    rw [List.length_eq_zero_iff.mp (Nat.le_zero.mp hn)] at hrun
    cases hrun
  | succ n ih =>
    cases actions with
    | nil => cases hrun
    | cons a actions =>
      obtain ⟨c, hs, hrun⟩ := Runs.run_cons_iff.mp hrun
      obtain ⟨answers, rfl, rfl⟩ := step_writing hok.1 hs
      have hok := hok.2 _ hs
      cases hp : (s.answering answers).writePacket with
      | mk outcome u =>
        cases outcome with
        | wait =>
          refine ⟨answers, .cons trivial hs ?_⟩
          rw [write_wait hp, io, hp]
          exact .now actions
        | failed =>
          refine ⟨answers, .cons trivial hs ?_⟩
          rw [write_failed hp, io, hp]
          exact .now actions
        | sent =>
          rw [io, hp] at hok hrun
          cases actions with
          | nil => cases hrun
          | cons b actions =>
            obtain ⟨c, hs', hrun⟩ := Runs.run_cons_iff.mp hrun
            obtain ⟨rfl, rfl⟩ := step_between hok.1 hs'
            have hok := hok.2 _ hs'
            cases hnext : u.nextPacket with
            | mk more v =>
              cases more with
              | false =>
                refine ⟨answers, .cons trivial hs ?_⟩
                rw [write_stop hp hnext, io, hp]
                refine .cons trivial hs' ?_
                rw [locked, hnext]
                exact .now actions
              | true =>
                rw [locked, hnext] at hok hrun
                have hnested : ∃ rest, Returns (enterScheduleWrite v callers) actions
                    (returnFrom true (v.answering rest).scheduleWrite callers) := by
                  refine enter_returns fun hc => ?_
                  have henter : enterScheduleWrite v callers =
                      ⟨v, .writing (.scheduleWrite :: callers)⟩ := if_pos hc
                  simp only [henter] at hok hrun
                  exact ih (by simp at hn; omega) hok hrun
                obtain ⟨rest, hreturns⟩ := hnested
                -- the first half has used its answers, the nested calls use the rest
                obtain ⟨used, _, huses⟩ := writePacket_uses hp
                have hfirst : (s.answering (used ++ rest)).writePacket =
                    (.sent, u.answering rest) := huses rest
                have hwrite : (s.answering (used ++ rest)).write =
                    (true, (v.answering rest).scheduleWrite) :=
                  write_next hfirst (by rw [nextPacket_answering, hnext])
                refine ⟨used ++ rest, .cons trivial hs ?_⟩
                rw [hwrite, io, hp]
                refine .cons trivial hs' ?_
                rw [locked, hnext]
                exact hreturns

theorem schedule_returns {actions : List Action}
    (hok : Runs.Meets step Uninterrupted (enterScheduleWrite s []) actions)
    (hrun : run (enterScheduleWrite s []) actions = some ⟨t, .idle⟩) :
    ∃ answers, Returns (enterScheduleWrite s []) actions (s.answering answers).scheduleWrite := by
  show ∃ answers, Returns (enterScheduleWrite s []) actions
    (returnFrom true (s.answering answers).scheduleWrite [])
  refine enter_returns fun hc => ?_
  have henter : enterScheduleWrite s [] = ⟨s, .writing [.scheduleWrite]⟩ := if_pos hc
  rw [henter] at hok hrun
  exact write_returns le_rfl hok hrun

/-- A call with a locked section, behind that section. -/
theorem enterLocked_returns {actions : List Action} {r : Bool × DBusLogSender}
    {before : List WriteAnswer}
    (hok : Runs.Meets step Uninterrupted (enterLocked (r.1, r.2.answering before)) actions)
    (hrun : run (enterLocked (r.1, r.2.answering before)) actions = some ⟨t, .idle⟩) :
    ∃ answers after, Returns (enterLocked (r.1, r.2.answering before)) actions
      ((if r.1 then (r.2.answering answers).scheduleWrite
        else r.2.answering answers).answering after) := by
  obtain ⟨more, u⟩ := r
  cases more with
  | true =>
    obtain ⟨answers, h⟩ := schedule_returns hok hrun
    exact ⟨answers, _, h⟩
  | false => exact ⟨[], before, .now actions⟩

theorem send_eq (s : DBusLogSender) (answers : List WriteAnswer) (msg : DBusLogMessage) :
    (s.answering answers).send msg =
      if (s.sendLocked msg).1 then ((s.sendLocked msg).2.answering answers).scheduleWrite
      else (s.sendLocked msg).2.answering answers := by
  unfold send
  rw [sendLocked_answering]
  obtain ⟨more, u⟩ := s.sendLocked msg
  cases more with
  | true => rfl
  | false => rfl

theorem close_eq (s : DBusLogSender) (answers : List WriteAnswer) (bye : Bool) :
    (s.answering answers).close bye =
      if s.closeLocked.1 then (s.closeLocked.2.answering answers).scheduleWrite
      else s.closeLocked.2.answering answers := by
  unfold close
  rw [closeLocked_answering]
  obtain ⟨more, u⟩ := s.closeLocked
  cases more with
  | true => rfl
  | false => rfl

theorem returnFrom_watch (s : DBusLogSender) (id : Nat) :
    returnFrom s.write.1 s.write.2 [.watch id] = s.writeCallback id true := by
  unfold writeCallback
  rw [if_pos rfl]
  obtain ⟨more, u⟩ := s.write
  cases more with
  | true => rfl
  | false => rfl

/-- Every call that returns is an atomic call with the answers that it has used. -/
theorem call_returns {before : List WriteAnswer} {a : Action} {actions : List Action} {c : Thread}
    (hs : step ⟨s.answering before, .idle⟩ a = some c)
    (hok : Runs.Meets step Uninterrupted c actions)
    (hrun : run c actions = some ⟨t, .idle⟩) :
    ¬Action.InWrite a ∧ ∃ b u after, Action.of b = a ∧ s.step b = some u ∧
      Returns c actions (u.answering after) := by
  cases a with
  | workerSend msg =>
    cases hs
    refine ⟨nofun, .workerSend msg, _, before, rfl, rfl, ?_⟩
    simp only [sendFromWorker_answering]
    exact .now actions
  | send msg =>
    cases hs
    rw [sendLocked_answering] at hok hrun ⊢
    obtain ⟨answers, after, h⟩ := enterLocked_returns hok hrun
    rw [← send_eq] at h
    exact ⟨nofun, .send msg answers, _, after, rfl, rfl, h⟩
  | ping =>
    obtain ⟨hidle, he⟩ := Option.ite_none_right_eq_some.mp hs
    cases he
    by_cases hc : s.canPing = true
    · have hgo : (if (s.answering before).canPing then
          enterScheduleWrite ((s.answering before).fillHeader 0 .ping) []
          else (⟨s.answering before, .idle⟩ : Thread)) =
            enterScheduleWrite ((s.fillHeader 0 .ping).answering before) [] := if_pos hc
      rw [hgo] at hok hrun ⊢
      obtain ⟨answers, h⟩ := schedule_returns hok hrun
      exact ⟨nofun, .ping answers, _, _, rfl, (if_pos hidle).trans (congrArg some
        (congrArg Prod.snd (if_pos hc))), h⟩
    · have hstay : (if (s.answering before).canPing then
          enterScheduleWrite ((s.answering before).fillHeader 0 .ping) []
          else (⟨s.answering before, .idle⟩ : Thread)) = ⟨s.answering before, .idle⟩ := if_neg hc
      rw [hstay]
      exact ⟨nofun, .ping [], s.answering [], before, rfl, (if_pos hidle).trans (congrArg some
        (congrArg Prod.snd (if_neg hc))), .now actions⟩
  | close bye =>
    cases hs
    rw [closeLocked_answering] at hok hrun ⊢
    obtain ⟨answers, after, h⟩ := enterLocked_returns hok hrun
    rw [← close_eq] at h
    exact ⟨nofun, .close bye answers, _, after, rfl, rfl, h⟩
  | shutdown flush =>
    cases hs
    exact ⟨nofun, .shutdown flush, _, before, rfl, rfl, .now actions⟩
  | callback =>
    obtain ⟨hpending, he⟩ := Option.ite_none_right_eq_some.mp hs
    cases he
    obtain ⟨answers, h⟩ := schedule_returns hok hrun
    exact ⟨nofun, .callback answers, _, _, rfl, if_pos hpending, h⟩
  | watch id out =>
    obtain ⟨hid, he⟩ := Option.ite_none_right_eq_some.mp hs
    cases he
    cases out with
    | true =>
      obtain ⟨answers, h⟩ := write_returns le_rfl hok hrun
      rw [returnFrom_watch] at h
      exact ⟨nofun, .watch id true answers, _, _, rfl, if_pos hid, h⟩
    | false => exact ⟨nofun, .watch id false [], _, before, rfl, if_pos hid, .now actions⟩
  | io answers => cases hs
  | locked => cases hs

/-- A run of the halves between idle states is a run of atomic calls. -/
theorem run_sequential {n : Nat} {actions : List Action} {s : DBusLogSender}
    (before : List WriteAnswer) (hn : actions.length ≤ n)
    (hok : Runs.Meets step Uninterrupted ⟨s.answering before, .idle⟩ actions)
    (hrun : run ⟨s.answering before, .idle⟩ actions = some ⟨t, .idle⟩) :
    ∃ steps u after, steps.map Action.of = calls actions ∧
      s.run steps = some u ∧ t = u.answering after := by
  induction n generalizing actions s before with
  | zero =>
    rw [List.length_eq_zero_iff.mp (Nat.le_zero.mp hn)] at hrun ⊢
    cases hrun
    exact ⟨[], s, before, rfl, rfl, rfl⟩
  | succ n ih =>
    cases actions with
    | nil =>
      cases hrun
      exact ⟨[], s, before, rfl, rfl, rfl⟩
    | cons a actions =>
      obtain ⟨c, hs, hlater⟩ := Runs.run_cons_iff.mp hrun
      have hokLater := hok.2 c hs
      obtain ⟨hcall, b, u, after, rfl, hb, inner, rest, rfl, hinner, hreturn⟩ :=
        call_returns hs hokLater hlater
      -- the other calls start where this one returns
      obtain ⟨c', hc', hrest⟩ := Runs.run_append_iff.mp hlater
      cases hreturn.symm.trans hc'
      have hlength : rest.length ≤ n := by
        simp at hn
        omega
      obtain ⟨steps, v, after', hsteps, hv, ht⟩ :=
        ih after hlength (Runs.meets_append hokLater hreturn) hrest
      refine ⟨b :: steps, v, after', ?_, Runs.run_cons_iff.mpr ⟨u, hb, hv⟩, ht⟩
      rw [List.map_cons, hsteps, calls_call hcall hinner]

/-! ## From the call to the halves -/

/-- The thread with other channel answers to come. -/
def answering (c : Thread) (answers : List WriteAnswer) : Thread :=
  { c with sender := c.sender.answering answers }

theorem enterScheduleWrite_answering (s : DBusLogSender) (callers : List Caller)
    (answers : List WriteAnswer) : enterScheduleWrite (s.answering answers) callers =
      (enterScheduleWrite s callers).answering answers := by
  unfold enterScheduleWrite
  by_cases hc : s.io.isSome ∧ s.writeWatchId = 0
  · rw [if_pos hc]
    exact if_pos hc
  · rw [if_neg hc, returnFrom_answering]
    exact if_neg hc

theorem enterLocked_answering (r : Bool × DBusLogSender) (answers : List WriteAnswer) :
    enterLocked (r.1, r.2.answering answers) = (enterLocked r).answering answers := by
  obtain ⟨more, u⟩ := r
  cases more with
  | true => exact enterScheduleWrite_answering u [] answers
  | false => rfl

theorem finish_answering (s : DBusLogSender) (answers : List WriteAnswer) :
    (s.answering answers).finish = s.finish.answering answers := by
  unfold finish
  by_cases hdone : s.done = true
  · simp only [if_pos hdone]
    exact if_pos hdone
  · simp only [if_neg hdone]
    exact if_neg hdone

theorem locked_answering (s : DBusLogSender) (callers : List Caller)
    (answers : List WriteAnswer) :
    locked (s.answering answers) callers = (locked s callers).answering answers := by
  unfold locked
  rw [nextPacket_answering]
  cases s.nextPacket with
  | mk more u =>
    cases more with
    | true => exact enterScheduleWrite_answering u callers answers
    | false =>
      simp only
      rw [finish_answering, returnFrom_answering]
      rfl

/-- What answers are left over from a call does not matter to the next one. -/
theorem step_answering {c c' : Thread} {a : Action} (hs : step c a = some c')
    (answers : List WriteAnswer) :
    ∃ after, step (c.answering answers) a = some (c'.answering after) := by
  obtain ⟨s, control⟩ := c
  cases a with
  | workerSend msg =>
    have he : c' = ⟨s.sendFromWorker msg, control⟩ := by
      cases control <;> exact (Option.some.inj hs).symm
    refine ⟨answers, ?_⟩
    have hsend := congrArg (fun u => some (Thread.mk u control))
      (sendFromWorker_answering s answers msg)
    rw [he]
    cases control <;> exact hsend
  | io given =>
    cases control with
    | writing callers =>
      cases hs
      exact ⟨_, rfl⟩
    | _ => cases hs
  | locked =>
    cases control with
    | between callers finished =>
      cases hs
      exact ⟨answers, congrArg some (locked_answering s callers answers)⟩
    | _ => cases hs
  | send msg =>
    cases control with
    | idle =>
      cases hs
      refine ⟨answers, ?_⟩
      change some (enterLocked ((s.answering answers).sendLocked msg)) = _
      rw [sendLocked_answering, enterLocked_answering]
    | _ => cases hs
  | ping =>
    cases control with
    | idle =>
      obtain ⟨hidle, he⟩ := Option.ite_none_right_eq_some.mp hs
      cases he
      refine ⟨answers, (if_pos hidle).trans (congrArg some ?_)⟩
      by_cases hc : s.canPing = true
      · rw [if_pos hc, ← enterScheduleWrite_answering]
        exact if_pos hc
      · rw [if_neg hc]
        exact if_neg hc
    | _ => cases hs
  | close bye =>
    cases control with
    | idle =>
      cases hs
      refine ⟨answers, ?_⟩
      change some (enterLocked (s.answering answers).closeLocked) = _
      rw [closeLocked_answering, enterLocked_answering]
    | _ => cases hs
  | shutdown flush =>
    cases control with
    | idle =>
      cases hs
      exact ⟨answers, rfl⟩
    | _ => cases hs
  | callback =>
    cases control with
    | idle =>
      obtain ⟨hpending, he⟩ := Option.ite_none_right_eq_some.mp hs
      cases he
      refine ⟨answers, (if_pos hpending).trans (congrArg some ?_)⟩
      exact enterScheduleWrite_answering { s with pending := s.pending - 1 } [] answers
    | _ => cases hs
  | watch id out =>
    cases control with
    | idle =>
      obtain ⟨hid, he⟩ := Option.ite_none_right_eq_some.mp hs
      cases he
      refine ⟨answers, (if_pos hid).trans (congrArg some ?_)⟩
      cases out with
      | true => rfl
      | false => rfl
    | _ => cases hs

theorem run_answering {c c' : Thread} {actions : List Action} (hrun : run c actions = some c')
    (answers : List WriteAnswer) :
    ∃ after, run (c.answering answers) actions = some (c'.answering after) := by
  induction actions generalizing c answers with
  | nil =>
    cases hrun
    exact ⟨answers, rfl⟩
  | cons a actions ih =>
    obtain ⟨d, hs, hrun⟩ := Runs.run_cons_iff.mp hrun
    obtain ⟨middle, hs'⟩ := step_answering hs answers
    obtain ⟨after, hrun'⟩ := ih hrun middle
    exact ⟨after, Runs.run_cons_iff.mpr ⟨_, hs', hrun'⟩⟩

/-- The halves of `write` are no sends of workers. -/
theorem inner_uninterrupted {inner : List Action} (h : ∀ a ∈ inner, Action.InWrite a)
    (c : Thread) : Runs.Meets step Uninterrupted c inner := by
  refine Runs.meets_of_split fun before a after d hsplit _ => ?_
  have ha := h a (by rw [← hsplit]; simp)
  cases a with
  | io answers => trivial
  | locked => trivial
  | _ => cases ha

/-- A run of atomic calls is a run of the halves in which no worker interrupts a call. -/
theorem run_halves {s : DBusLogSender} {steps : List SenderStep} (hrun : s.run steps = some t)
    (before : List WriteAnswer) : ∃ actions after,
      Runs.Meets step Uninterrupted ⟨s.answering before, .idle⟩ actions ∧
      calls actions = steps.map Action.of ∧
      run ⟨s.answering before, .idle⟩ actions = some ⟨t.answering after, .idle⟩ := by
  induction steps generalizing s before with
  | nil =>
    cases hrun
    exact ⟨[], before, trivial, rfl, rfl⟩
  | cons b steps ih =>
    obtain ⟨u, hb, hrun⟩ := Runs.run_cons_iff.mp hrun
    obtain ⟨inner, hinner, hcall⟩ := step_refines hb
    obtain ⟨middle, hcall⟩ := run_answering hcall before
    have hstart : answering ⟨withAnswers s b, .idle⟩ before = ⟨s.answering before, .idle⟩ := by
      cases b <;> rfl
    rw [hstart] at hcall
    obtain ⟨c, hs, hfinish⟩ := Runs.run_cons_iff.mp hcall
    obtain ⟨actions, after, hok, hactions, hlast⟩ := ih hrun middle
    refine ⟨Action.of b :: (inner ++ actions), after, ⟨?_, fun c' hs' => ?_⟩, ?_, ?_⟩
    · cases b with
      | workerSend msg => rfl
      | _ => trivial
    · cases hs.symm.trans hs'
      refine Runs.meets_append_of (inner_uninterrupted hinner c) fun d hd => ?_
      cases hfinish.symm.trans hd
      exact hok
    · rw [calls_call (by cases b <;> exact id) hinner, hactions]
      rfl
    · exact Runs.run_cons_iff.mpr ⟨c, hs, Runs.run_append_iff.mpr ⟨_, hfinish, hlast⟩⟩

end Answering

/-- Atomicity. The states in which a sender can be found between calls are the same in the two
models, for each sequence of calls: those that the atomic calls lead to, and those that the halves
of `write` lead to when workers send only while the main thread is outside of the sender. -/
theorem atomicity (name : String) (backlog : Int32) (readfd writefd : Nat) (made : List Action)
    (s : DBusLogSender) :
    (∃ actions answers, Runs.Meets step Uninterrupted (new name backlog readfd writefd) actions ∧
      calls actions = made ∧
      run (new name backlog readfd writefd) actions = some ⟨s.answering answers, .idle⟩) ↔
    ∃ steps answers, steps.map Action.of = made ∧
      (DBusLogSender.new name backlog readfd writefd).run steps = some (s.answering answers) := by
  constructor
  · rintro ⟨actions, answers, hok, rfl, hrun⟩
    obtain ⟨steps, u, after, hsteps, hu, hs⟩ :=
      run_sequential (s := DBusLogSender.new name backlog readfd writefd) [] le_rfl hok hrun
    refine ⟨steps, u.answers, hsteps, hu.trans (congrArg some ?_)⟩
    calc
      u = (u.answering after).answering u.answers := rfl
      _ = s.answering u.answers := by rw [← hs, answering_answering]
  · rintro ⟨steps, answers, rfl, hrun⟩
    obtain ⟨actions, after, hok, hactions, hlast⟩ := run_halves hrun []
    exact ⟨actions, after, hok, hactions, hlast⟩

end Thread

end DBusLog

import DBusLog.Core.System
import Mathlib.Data.List.Nodup

/-!
# Every accepted call reaches every registered sender once

The calls of `dbus_log_sender_send` that a run has made are those of its accepted log calls, in
their order, with the place of each call as the index of its message. A sender is registered once
and leaves once, so the indices that it has been given are consecutive.
-/

namespace DBusLog

namespace DBusLogCore

/-- What the accepted calls hand out, the first of them under the given index. -/
def deliveries : Nat → List AcceptedCall → List (Nat × DBusLogMessage)
  | _, [] => []
  | k, call :: calls =>
    (call.senders.map fun i => (i, call.indexed (UInt32.ofNat k))) ++ deliveries (k + 1) calls

/-- The indices handed to a sender. -/
def indicesOf (sender : Nat) (handed : List (Nat × DBusLogMessage)) : List UInt32 :=
  handed.filterMap fun h => if h.1 = sender then some h.2.index else none

/-- The numbers from `first` on, modulo 2^32. -/
def consecutive (first count : Nat) : List UInt32 := (List.range' first count).map UInt32.ofNat

theorem deliveries_concat (k : Nat) (calls : List AcceptedCall) (call : AcceptedCall) :
    deliveries k (calls ++ [call]) = deliveries k calls ++
      call.senders.map fun i => (i, call.indexed (UInt32.ofNat (k + calls.length))) := by
  induction calls generalizing k with
  | nil => simp [deliveries]
  | cons first calls ih =>
    simp only [List.cons_append, deliveries, ih, List.append_assoc, List.length_cons]
    rw [show k + 1 + calls.length = k + (calls.length + 1) by omega]

theorem indicesOf_append (sender : Nat) (xs ys : List (Nat × DBusLogMessage)) :
    indicesOf sender (xs ++ ys) = indicesOf sender xs ++ indicesOf sender ys :=
  List.filterMap_append

/-- One broadcast gives a sender the index once, or not at all. -/
theorem indicesOf_broadcast (sender : Nat) {items : List Nat} (h : items.Nodup)
    (msg : DBusLogMessage) :
    indicesOf sender (items.map fun i => (i, msg)) = if sender ∈ items then [msg.index] else [] := by
  induction items with
  | nil => rfl
  | cons i items ih =>
    obtain ⟨hi, hrest⟩ := List.nodup_cons.mp h
    unfold indicesOf at ih ⊢
    rw [List.map_cons, List.filterMap_cons]
    by_cases heq : i = sender
    · subst heq
      rw [ih hrest, if_neg hi, if_pos List.mem_cons_self]
      simp
    · have hmem : sender ∈ i :: items ↔ sender ∈ items :=
        List.mem_cons.trans (or_iff_right (Ne.symm heq))
      simp only [if_neg heq, ih hrest, hmem]

theorem consecutive_succ (first count : Nat) :
    consecutive first (count + 1) = consecutive first count ++ [UInt32.ofNat (first + count)] := by
  unfold consecutive
  rw [List.range'_concat, List.map_append, Nat.one_mul]
  rfl

/-- The account of a run. -/
structure Accounted (c : DBusLogCore) (calls : List AcceptedCall) : Prop where
  sound : Sound [] c
  handed : c.handed = deliveries 0 calls
  next : c.nextMsgIndex = UInt32.ofNat calls.length
  nodup : ∀ call ∈ calls, call.senders.Nodup
  fresh : ∀ i, c.objects.length ≤ i → indicesOf i c.handed = []
  indices : ∀ i, ∃ first count, indicesOf i c.handed = consecutive first count ∧
    (i ∈ c.registered → first + count = calls.length)

theorem new_accounted (backlog : Int32) (removedHandlers : Bool) :
    Accounted (new backlog removedHandlers) [] where
  sound := new_sound backlog removedHandlers
  handed := rfl
  next := rfl
  nodup := fun _ h => (nomatch h)
  fresh := fun _ _ => rfl
  indices := fun _ => ⟨0, 0, rfl, fun _ => rfl⟩

/-- A step that hands nothing to any sender. A new sender starts with no index. -/
theorem Accounted.silent {c c' : DBusLogCore} {calls : List AcceptedCall} {target : Option Nat}
    (h : Accounted c calls) (hs : Silent target c c') : Accounted c' calls where
  sound := hs.sound
  handed := hs.handed.trans h.handed
  next := hs.nextMsgIndex.trans h.next
  nodup := h.nodup
  fresh i hi := by
    rw [hs.handed]
    exact h.fresh i (hs.objects.trans hi)
  indices i := by
    rw [hs.handed]
    by_cases hnew : c.objects.length ≤ i
    · refine ⟨calls.length, 0, ?_, fun _ => rfl⟩
      rw [h.fresh i hnew]
      rfl
    · obtain ⟨first, count, hindices, hlast⟩ := h.indices i
      exact ⟨first, count, hindices, fun hi =>
        (hs.registered i hi).elim hlast fun hle => absurd hle hnew⟩

/-- A broadcast gives the next index to the senders that were registered. -/
theorem Accounted.broadcast {c c' : DBusLogCore} {calls : List AcceptedCall}
    {call : AcceptedCall} {ctx : LogContext} (h : Accounted c calls)
    (hsenders : call.senders = c.registered)
    (hs : Broadcast [] ctx (call.indexed c.nextMsgIndex) c.registered
      { c with nextMsgIndex := c.nextMsgIndex + 1 } c') :
    Accounted c' (calls ++ [call]) := by
  have hhanded : c'.handed = c.handed ++
      call.senders.map fun i => (i, call.indexed (UInt32.ofNat calls.length)) := by
    rw [hs.handed, hsenders, h.next]
  have hadded : ∀ i, indicesOf i c'.handed = indicesOf i c.handed ++
      if i ∈ c.registered then [UInt32.ofNat calls.length] else [] := by
    intro i
    rw [hhanded, indicesOf_append, hsenders, indicesOf_broadcast i h.sound.nodup]
    rfl
  refine ⟨hs.sound, ?_, ?_, ?_, fun i hi => ?_, fun i => ?_⟩
  · rw [hhanded, h.handed, deliveries_concat, Nat.zero_add]
  · rw [hs.tables.nextMsgIndex, List.length_append, List.length_singleton, UInt32.ofNat_add]
    change c.nextMsgIndex + 1 = _
    rw [h.next]
    rfl
  · intro other hmem
    rcases List.mem_append.mp hmem with hmem | hmem
    · exact h.nodup other hmem
    · rw [List.mem_singleton.mp hmem, hsenders]
      exact h.sound.nodup
  · -- a sender that is yet to come has got nothing
    have hlen : c.objects.length ≤ i := hs.objects ▸ hi
    have hnot : i ∉ c.registered := fun hmem => absurd (h.sound.known i hmem) (Nat.not_lt.mpr hlen)
    rw [hadded, h.fresh i hlen, if_neg hnot]
    rfl
  · obtain ⟨first, count, hindices, hlast⟩ := h.indices i
    rw [hadded, hindices]
    by_cases hmem : i ∈ c.registered
    · -- its indices go on without a gap
      refine ⟨first, count + 1, ?_, fun _ => ?_⟩
      · rw [if_pos hmem, consecutive_succ, hlast hmem]
      · rw [List.length_append, List.length_singleton, ← hlast hmem, Nat.add_assoc]
    · -- a sender that is gone does not come back
      refine ⟨first, count, ?_, fun hi => absurd (hs.sublist.subset hi) hmem⟩
      rw [if_neg hmem, List.append_nil]

/-- The account is kept by every step. -/
theorem Accounted.step {c c' : DBusLogCore} {op : CoreOp} {calls : List AcceptedCall}
    (h : Accounted c calls) (hs : c.step op = some c') :
    Accounted c' (c.recordCall op calls) := by
  unfold recordCall
  obtain ⟨hnone, hsilent⟩ | ⟨ctx, call, _, hcall, hsenders, hbroadcast⟩ := step_cases h.sound hs
  · rw [hnone, Option.toList_none, List.append_nil]
    exact h.silent hsilent
  · rw [hcall]
    exact h.broadcast hsenders hbroadcast

/-- The account of a whole run. -/
theorem run_accounted {c c' : DBusLogCore} {ops : List CoreOp} {calls : List AcceptedCall}
    (h : Accounted c calls) (hrun : c.run ops = some c') :
    Accounted c' (Runs.history recordCall DBusLogCore.step c ops calls) :=
  Runs.history_invariant (C := fun _ _ => True) (fun _ _ _ _ hp _ hs => hp.step hs)
    (Runs.meets_of_forall (C := fun _ => True) (fun _ _ => trivial) c) hrun h

/-- Whatever a program does with a core, the senders have been handed exactly the accepted log
calls: the k-th under the index k modulo 2^32, once to every sender registered when it began, in
the order of the calls. So what one sender has been handed has consecutive indices. -/
theorem broadcast_exactlyOnce (backlog : Int32) (removedHandlers : Bool) (ops : List CoreOp)
    (c : DBusLogCore) (hrun : (new backlog removedHandlers).run ops = some c) :
    c.faulted = false ∧
    c.handed = deliveries 0 ((new backlog removedHandlers).acceptedCalls ops) ∧
    (∀ call ∈ (new backlog removedHandlers).acceptedCalls ops, call.senders.Nodup) ∧
    c.nextMsgIndex = UInt32.ofNat ((new backlog removedHandlers).acceptedCalls ops).length ∧
    ∀ sender, ∃ first count, indicesOf sender c.handed = consecutive first count := by
  have h := run_accounted (new_accounted backlog removedHandlers) hrun
  refine ⟨h.sound.intact, h.handed, h.nodup, h.next, fun sender => ?_⟩
  obtain ⟨first, count, hindices, _⟩ := h.indices sender
  exact ⟨first, count, hindices⟩

/-- Two senders, of which the first one fails and leaves in the middle of the first broadcast. A
call at a level that the category does not let through is rejected in between. -/
theorem broadcast_exactlyOnce_failure :
    let ctx : LogContext := ⟨false, 7, fun i => if i = 0 then [.error] else [.accept 22]⟩
    let ops : List CoreOp := [.newSender "first" (some (3, 4)), .newSender "second" (some (5, 6)),
      .newCategory "net" Level.warning CategoryFlag.enabled,
      .log ctx Level.error (some "net") (some [104]), .log ctx Level.info (some "net") none,
      .logv ctx Level.info none (some [105])]
    ∃ c, (new 0 true).run ops = some c ∧ c.registered = [1] ∧
      c.handed.map (fun h => (h.1, h.2.index, h.2.category)) = [(0, 0, 1), (1, 0, 1), (1, 1, 0)] ∧
      c.handed = deliveries 0 ((new 0 true).acceptedCalls ops) ∧
      ∃ first count, indicesOf 1 c.handed = consecutive first count := by
  intro ctx ops
  obtain ⟨c, hc, he⟩ := Option.map_eq_some_iff.mp (by decide :
    ((new 0 true).run ops).map (fun c => (c.registered,
      c.handed.map fun h => (h.1, h.2.index, h.2.category))) =
      some ([1], [(0, 0, 1), (1, 0, 1), (1, 1, 0)]))
  obtain ⟨_, hhanded, _, _, hindices⟩ := broadcast_exactlyOnce 0 true ops c hc
  simp only [Prod.mk.injEq] at he
  exact ⟨c, hc, he.1, he.2, hhanded, hindices 1⟩

end DBusLogCore

end DBusLog

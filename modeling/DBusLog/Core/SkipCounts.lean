import DBusLog.Core.Broadcast
import DBusLog.Core.Loss
import DBusLog.Receiver.Boundaries

/-!
# One SKIP for one gap

What a sender has been handed is numbered through. Two of these messages that a receiver gets one
after the other are announced with a SKIP for those that it has not got, and the count is right
exactly for the gaps that are countable from the expected index.
-/

namespace DBusLog

open Feed

/-- The messages between two that a receiver gets one after the other: how the second is announced. -/
theorem feed_gap {before : List DBusLogMessage} {m m' : DBusLogMessage} {ps : List WirePacket}
    (hbye : .bye ∉ ps) (hfits : ∀ msg ∈ WirePacket.messages ps, msg.Fits)
    (hmessages : WirePacket.messages ps = before ++ [m, m']) :
    ∃ q, feed (.running .new) (WirePacket.encodeAll ps) = .running q ∧ q.packetRead = 0 ∧
      q.events = ReceiverEvent.announceAll none (before ++ [m]) ++
        (ReceiverEvent.skip? (some m.index) m'.index).toList ++ [.message m'.received] := by
  obtain ⟨q, last, hq, hboundary⟩ := feed_packets new_atBoundary hbye hfits
  refine ⟨q, hq, hboundary.read, ?_⟩
  rw [hboundary.events, List.nil_append, hmessages, ReceiverEvent.announceAll_append,
    List.append_assoc]
  congr 1
  exact List.append_nil _

namespace DBusLogCore

/-- The messages that the core has handed to a sender, in order. -/
def handedTo (c : DBusLogCore) (sender : Nat) : List DBusLogMessage :=
  (c.handed.filter fun h => h.1 = sender).map (·.2)

/-- The message of a call of `stuckLog`. -/
def stuckMessage (index : UInt32) : DBusLogMessage :=
  { DBusLogMessage.new (some [65]) with timestamp := 1, index := index, level := Level.info }

theorem handedTo_index (c : DBusLogCore) (sender : Nat) :
    (c.handedTo sender).map (·.index) = indicesOf sender c.handed := by
  unfold handedTo indicesOf
  induction c.handed with
  | nil => rfl
  | cons h handed ih =>
    by_cases he : h.1 = sender
    · rw [List.filter_cons_of_pos (by simpa using he), List.filterMap_cons]
      simp only [List.map_cons, if_pos he, ih]
    · rw [List.filter_cons_of_neg (by simpa using he), List.filterMap_cons]
      simp only [if_neg he, ih]

/-- The messages of a sender are numbered through. -/
theorem Accounted.numbered {c : DBusLogCore} {calls : List AcceptedCall} (h : Accounted c calls)
    (sender : Nat) : ∃ first, ∀ a m, (c.handedTo sender)[a]? = some m →
      m.index = UInt32.ofNat (first + a) := by
  obtain ⟨first, count, hindices, _⟩ := h.indices sender
  refine ⟨first, fun a m hm => ?_⟩
  have hindex : ((c.handedTo sender).map (·.index))[a]? = some m.index := by
    rw [List.getElem?_map, hm]
    rfl
  rw [handedTo_index, hindices, consecutive, List.getElem?_map] at hindex
  obtain ⟨j, hj, hmj⟩ := Option.map_eq_some_iff.mp hindex
  obtain ⟨hlt, hj⟩ := List.getElem?_eq_some_iff.mp hj
  rw [List.getElem_range', Nat.one_mul] at hj
  rw [← hmj, ← hj]

/-- In every run, and for any two messages that a sender has been handed with `k` others in
between: when a receiver gets one right after the other, however the stream is cut, the signals in
between are the SKIP for `k` messages exactly when the gap is countable. -/
theorem skipCounts (backlog : Int32) (removedHandlers : Bool) (ops : List CoreOp)
    (c : DBusLogCore) (hrun : (new backlog removedHandlers).run ops = some c)
    (sender a k : Nat) {m m' : DBusLogMessage} (hm : (c.handedTo sender)[a]? = some m)
    (hm' : (c.handedTo sender)[a + k + 1]? = some m') (hk : k < 2 ^ 32 - 1) (fd : Nat)
    (doClose : Bool) (chunks : List (List UInt8)) {ps : List WirePacket} {rest : List UInt8}
    {before : List DBusLogMessage} (hchunks : chunks.flatten = WirePacket.encodeAll ps ++ rest)
    (hbye : .bye ∉ ps) (hfits : ∀ msg ∈ WirePacket.messages ps, msg.Fits)
    (hmessages : WirePacket.messages ps = before ++ [m, m']) :
    ∃ n skip, (DBusLogReceiver.driven fd doClose chunks n).events =
        ReceiverEvent.announceAll none (before ++ [m]) ++ skip ++ [.message m'.received] ∧
      (skip = ReceiverEvent.skips k ↔ ReceiverEvent.Countable (m.index + 1) k) := by
  obtain ⟨first, hindex⟩ := (run_accounted (new_accounted backlog removedHandlers) hrun).numbered
    sender
  obtain ⟨q, hq, hzero, hevents⟩ := feed_gap hbye hfits hmessages
  have hpre : WirePacket.encodeAll ps <+:
      DBusLogReceiver.pendingBytes (DBusLogReceiver.new fd doClose (chunks.map .data)).input := by
    refine ⟨rest, ?_⟩
    rw [← hchunks]
    exact (DBusLogReceiver.new_pending fd doClose chunks).symm
  rw [← DBusLogReceiver.new_packetState fd doClose (chunks.map .data)] at hq
  -- after some dispatches the receiver is behind the last of the messages
  obtain ⟨n, htook⟩ := (DBusLogReceiver.new_waiting fd doClose chunks).rests hpre hq hzero
  refine ⟨n, _, Eq.trans ?_ hevents, ?_⟩
  · obtain ⟨_, hrunning⟩ | ⟨p, hstopped, _⟩ | ⟨p, hfaulted, _⟩ := htook.led
    · cases hq.symm.trans hrunning
      rfl
    · cases hq.symm.trans hstopped
    · cases hq.symm.trans hfaulted
  · rw [hindex a m hm, hindex _ m' hm', show first + (a + k + 1) = first + a + k + 1 by omega]
    exact ReceiverEvent.skip?_iff (first + a) (by omega)

/-- Three calls of which the receiver gets the first and the third. -/
theorem skipCounts_oneLost :
    ∃ n skip, (DBusLogReceiver.driven 3 true
        [WirePacket.encodeAll [.message (stuckMessage 0), .ping, .message (stuckMessage 2)]] n).events
          = ReceiverEvent.announceAll none ([] ++ [stuckMessage 0]) ++ skip ++
            [.message (stuckMessage 2).received] ∧
      (skip = ReceiverEvent.skips 1 ↔
        ReceiverEvent.Countable ((stuckMessage 0).index + 1) 1) := by
  obtain ⟨c, hc, he⟩ := Option.map_eq_some_iff.mp (by decide :
    ((new 2 true).run [.newSender "peer" (some (3, 4)), stuckLog, stuckLog, stuckLog]).map
      (fun c => ((c.handedTo 0)[0]?, (c.handedTo 0)[0 + 1 + 1]?)) =
      some (some (stuckMessage 0), some (stuckMessage 2)))
  simp only [Prod.mk.injEq] at he
  exact skipCounts 2 true _ c hc 0 0 1 he.1 he.2 (by decide) 3 true _
    (by decide : _ = WirePacket.encodeAll [.message (stuckMessage 0), .ping,
      .message (stuckMessage 2)] ++ []) (by decide) (by decide) (by decide)

/-- After 2^32 - 3 calls a new sender is handed the messages of four more. The third one, which has
the largest index, is dropped, so that one message is missing before the one with the index 0, and
the receiver counts 2^32 - 1. -/
theorem skipCounts_acrossWrap :
    ∃ c₀ c s, (new 2 true).run ([.newSender "old" (some (3, 4)), stuckLog,
        .sender 0 (.close true [])] ++ List.replicate (2 ^ 32 - 4) stuckLog) = some c₀ ∧
      c₀.nextMsgIndex = UInt32.ofNat (2 ^ 32 - 3) ∧
      (c₀.newSender "peer" (some (5, 6))).2.run
        ([stuckLog, stuckLog, stuckLog, stuckLog] ++
          [takeMessage 1, takeMessage 1, takeMessage 1]) = some c ∧
      ((c₀.newSender "peer" (some (5, 6))).2.acceptedCalls
        [stuckLog, stuckLog, stuckLog, stuckLog]).length = 4 ∧
      c.senderAt 1 = some s ∧
      let r := DBusLogReceiver.driven 3 true [s.accepted] 100
      (r.events.filterMap ReceiverEvent.message?).map (·.index) =
          [UInt32.ofNat (2 ^ 32 - 3), UInt32.ofNat (2 ^ 32 - 2), 0] ∧
        r.events.map ReceiverEvent.skipCount = [0, 0, 2 ^ 32 - 1, 0] := by
  obtain ⟨c, hc, he⟩ := Option.map_eq_some_iff.mp (by decide +kernel :
    (((agedCore (1 + UInt32.ofNat (2 ^ 32 - 4)) (agedHanded (2 ^ 32 - 4) 1 firstHanded)).newSender
      "peer" (some (5, 6))).2.run
      ([stuckLog, stuckLog, stuckLog, stuckLog] ++
        [takeMessage 1, takeMessage 1, takeMessage 1])).map
      (fun c => (c.senderAt 1).map fun s =>
        let r := DBusLogReceiver.driven 3 true [s.accepted] 100
        ((r.events.filterMap ReceiverEvent.message?).map (·.index),
          r.events.map ReceiverEvent.skipCount)) =
      some (some ([UInt32.ofNat (2 ^ 32 - 3), UInt32.ofNat (2 ^ 32 - 2), 0],
        [0, 0, 2 ^ 32 - 1, 0])))
  obtain ⟨s, hs, he⟩ := Option.map_eq_some_iff.mp he
  simp only [Prod.mk.injEq] at he
  exact ⟨_, c, s, agedCore_reached _, by decide +kernel, hc, by decide +kernel, hs, he⟩

end DBusLogCore

end DBusLog

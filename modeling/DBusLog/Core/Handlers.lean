import DBusLog.Core.System
import DBusLog.Sender.Lifetime

/-!
# The handlers of a core

A core is connected to the CLOSED signal of each sender in its array, and of no other sender. So a
sender whose channel is shut down leaves the array at once, and those in the array are open.
-/

namespace DBusLog

namespace DBusLogCore

/-- The table of handlers is about the senders in the array, and each has its one handler. -/
structure Linked (c : DBusLogCore) : Prop where
  keys : ∀ i, i ∈ c.registered ↔ ∃ id, (i, id) ∈ c.senderSignalIds.values
  handlers : ∀ i id, (i, id) ∈ c.senderSignalIds.values →
    id ≠ 0 ∧ (c.objects[i]?).map (·.closedHandlers) = some [id]

/-- The senders in the array are open and linked. -/
structure Connected (c : DBusLogCore) : Prop extends Linked c where
  opened : ∀ i ∈ c.registered, ∀ s, c.senderAt i = some s → s.io.isSome

section Handlers

variable {held : List Nat} {c c' : DBusLogCore} {i j : Nat}

/-- The handlers of a core hang on three of its fields. -/
theorem Linked.of_eq (h : Linked c) (hregistered : c'.registered = c.registered)
    (hids : c'.senderSignalIds = c.senderSignalIds)
    (hobjects : ∀ j : Nat,
      (c'.objects[j]?).map (·.closedHandlers) = (c.objects[j]?).map (·.closedHandlers)) :
    Linked c' where
  keys j := by
    rw [hregistered, hids]
    exact h.keys j
  handlers j id hmem := by
    rw [hids] at hmem
    rw [hobjects]
    exact h.handlers j id hmem

theorem Connected.of_eq (h : Connected c) (hregistered : c'.registered = c.registered)
    (hids : c'.senderSignalIds = c.senderSignalIds) (hobjects : c'.objects = c.objects) :
    Connected c' where
  toLinked := h.toLinked.of_eq hregistered hids fun j => by rw [hobjects]
  opened j hj s hs := by
    rw [hregistered] at hj
    unfold senderAt at hs
    rw [hobjects] at hs
    exact h.opened j hj s hs

theorem removeHandler_closedHandlers (id : Nat) (hne : j ≠ i) :
    (((c.removeHandler i id).objects)[j]?).map (·.closedHandlers) =
      (c.objects[j]?).map (·.closedHandlers) := by
  unfold removeHandler
  by_cases hid : id = 0
  · rw [if_pos hid]
  · rw [if_neg hid]
    change ((c.objects.modify i _)[j]?).map _ = _
    rw [List.getElem?_modify]
    cases c.objects[j]? with
    | none => rfl
    | some object => simp [Ne.symm hne]

/-- A sender leaves the array together with its handler. -/
theorem removeSender_linked (h : Sound held c) (hl : Linked c) (i : Nat) :
    Linked (c.removeSender i).2 := by
  have hregistered := (removeSender_left h i).2.1
  cases hidx : c.registered.idxOf? i with
  | none =>
    have hsame : (c.removeSender i).2 = c := by
      unfold removeSender
      simp only [h.touch List.mem_cons_self, hidx]
    rw [hsame]
    exact hl
  | some index =>
    have hids : (c.removeSender i).2.senderSignalIds = c.senderSignalIds.erase i := by
      unfold removeSender
      simp only [h.touch List.mem_cons_self, hidx]
      unfold removeHandler
      split <;> rfl
    have hobjects : ∀ j : Nat, j ≠ i →
        (((c.removeSender i).2.objects)[j]?).map (·.closedHandlers) =
          (c.objects[j]?).map (·.closedHandlers) := by
      intro j hne
      unfold removeSender
      simp only [h.touch List.mem_cons_self, hidx]
      exact removeHandler_closedHandlers _ hne
    refine ⟨fun j => ?_, fun j id hmem => ?_⟩
    · rw [hregistered, hids, h.nodup.mem_erase_iff, hl.keys j]
      constructor
      · rintro ⟨hne, id, hmem⟩
        exact ⟨id, (KeyedTable.mem_erase_iff _).mpr ⟨hmem, hne⟩⟩
      · rintro ⟨id, hmem⟩
        obtain ⟨hold, hne⟩ := (KeyedTable.mem_erase_iff _).mp hmem
        exact ⟨hne, id, hold⟩
    · rw [hids] at hmem
      obtain ⟨hold, hne⟩ := (KeyedTable.mem_erase_iff _).mp hmem
      rw [hobjects j hne]
      exact hl.handlers j id hold

/-- A call into a sender. If it shuts the channel down, the sender leaves the array. -/
theorem runSender_connected (h : Sound held c) (hc : Connected c) (hi : i < c.objects.length)
    {f : DBusLogSender → DBusLogSender}
    (hf : ∀ s, c.senderAt i = some s → DBusLogSender.Onward s (f s)) :
    Connected (c.runSender i f) := by
  have hcall := runSender_call h hi f
  have hobject : c.objects[i]? = some c.objects[i] := List.getElem?_eq_getElem hi
  have hsender : c.senderAt i = some c.objects[i].sender := by
    unfold senderAt
    rw [hobject]
    rfl
  have honward := hf _ hsender
  have hset : Linked { c with
      objects := c.objects.set i { c.objects[i] with sender := f c.objects[i].sender } } := by
    refine hc.toLinked.of_eq rfl rfl fun j => ?_
    change ((c.objects.set i _)[j]?).map _ = _
    by_cases hj : j = i
    · subst hj
      rw [List.getElem?_set_self hi, hobject]
      rfl
    · rw [List.getElem?_set_ne (Ne.symm hj)]
  have hsound : Sound held { c with
      objects := c.objects.set i { c.objects[i] with sender := f c.objects[i].sender } } :=
    ⟨h.intact, h.counted, h.nodup, fun j hj => by
      rw [List.length_set]
      exact h.known j hj⟩
  refine ⟨?_, fun j hj s hs => ?_⟩
  · unfold runSender
    rw [hobject]
    dsimp only
    split
    · exact removeSender_linked hsound hset i
    · exact hset
  · have hold := hcall.sublist.subset hj
    rw [hcall.senders j] at hs
    by_cases hji : j = i
    · subst hji
      rw [if_pos rfl, hsender] at hs
      cases hs
      obtain ⟨hio, _⟩ | ⟨_, _, _, _, hsignals⟩ := honward.channel
      · rw [hio]
        exact hc.opened j hold _ hsender
      · -- the channel is gone, and with it the sender
        exfalso
        obtain ⟨id, hid⟩ := (hc.keys j).mp hold
        have hhandlers : c.objects[j].closedHandlers = [id] := by
          have hsome := (hc.handlers j id hid).2
          rw [hobject] at hsome
          exact Option.some.inj hsome
        have hne : c.objects[j].closedHandlers ≠ [] := by
          rw [hhandlers]
          exact List.cons_ne_nil id []
        unfold runSender at hj
        rw [hobject] at hj
        dsimp only at hj
        rw [if_pos ⟨by omega, hne⟩, (removeSender_left hsound j).2.1] at hj
        exact h.nodup.not_mem_erase hj
    · rw [if_neg hji] at hs
      exact hc.opened j hold s hs

/-! ## What the senders of a core live through -/

/-- The senders of `c` have moved on; some may have left the array, and none is new. -/
structure Carried (c c' : DBusLogCore) : Prop where
  sound : Sound [] c'
  connected : Connected c'
  objects : c'.objects.length = c.objects.length
  registered : ∀ i ∈ c'.registered, i ∈ c.registered
  senders : ∀ i s, c.senderAt i = some s →
    ∃ s', c'.senderAt i = some s' ∧ DBusLogSender.Onward s s'

theorem Carried.refl (h : Sound [] c) (hc : Connected c) : Carried c c :=
  ⟨h, hc, rfl, fun _ hi => hi, fun _ s hs => ⟨s, hs, DBusLogSender.Onward.refl s⟩⟩

theorem runSender_carried (h : Sound [] c) (hc : Connected c) (hi : i < c.objects.length)
    {f : DBusLogSender → DBusLogSender}
    (hf : ∀ s, c.senderAt i = some s → DBusLogSender.Onward s (f s)) :
    Carried c (c.runSender i f) := by
  have hcall := runSender_call h hi f
  refine ⟨hcall.sound, runSender_connected h hc hi hf, hcall.objects, hcall.sublist.subset,
    fun j s hs => ?_⟩
  rw [hcall.senders j]
  by_cases hj : j = i
  · subst hj
    rw [if_pos rfl, hs]
    exact ⟨f s, rfl, hf s hs⟩
  · rw [if_neg hj]
    exact ⟨s, hs, DBusLogSender.Onward.refl s⟩

theorem handCall_onward (ctx : LogContext) (msg : DBusLogMessage) (sender : Nat)
    (s : DBusLogSender) : DBusLogSender.Onward s (handCall ctx msg sender s) := by
  unfold handCall
  split
  · exact (DBusLogSender.sendFromWorker_later s msg).toOnward
  · exact (DBusLogSender.send_later _ msg).onward

/-- The handlers after the loop of a broadcast. -/
theorem hand_foldl_connected (ctx : LogContext) (msg : DBusLogMessage) {items : List Nat}
    (h : Sound held c) (hc : Connected c) (hknown : ∀ i ∈ items, i < c.objects.length) :
    Connected (items.foldl (fun c i => c.hand ctx msg i) c) := by
  induction items generalizing c with
  | nil => exact hc
  | cons i items ih =>
    have hi := hknown i List.mem_cons_self
    have hcall := hand_call h hi ctx msg
    refine ih hcall.sound ?_ fun j hj => ?_
    · exact runSender_connected (c := { c with handed := c.handed ++ [(i, msg)] })
        ⟨h.intact, h.counted, h.nodup, h.known⟩ (hc.of_eq rfl rfl rfl) hi
        fun s _ => handCall_onward ctx msg i s
    · rw [hcall.objects]
      exact hknown j (List.mem_cons_of_mem i hj)

theorem logMessage_carried (h : Sound [] c) (hc : Connected c) (ctx : LogContext) (level : Level)
    (cname : Option String) {msg : DBusLogMessage} (hcategory : msg.category = 0) :
    Carried c (c.logMessage ctx level cname msg).2 := by
  obtain hsame | ⟨_, hcall⟩ := logMessage_cases h ctx level cname hcategory
  · rw [hsame]
    exact Carried.refl h hc
  · refine ⟨hcall.sound, ?_, hcall.objects, hcall.sublist.subset, fun j s hs => ?_⟩
    · unfold logMessage
      cases c.shouldLog level cname with
      | mk accepted cat =>
        cases accepted with
        | false => exact hc
        | true =>
          change Connected (c.send ctx cat { msg with level := level })
          rw [send_eq h]
          refine (hand_foldl_connected ctx _ h.holding ?_ h.known).of_eq
            (letGo_registered _ _) rfl rfl
          exact hc.of_eq (holding_registered c) rfl rfl
    · rw [hcall.senders j]
      split
      · change ∃ s', (c.senderAt j).map _ = some s' ∧ _
        rw [hs]
        exact ⟨_, rfl, handCall_onward ctx _ j s⟩
      · exact ⟨s, hs, DBusLogSender.Onward.refl s⟩

/-- A sender has been created and registered. -/
structure Joined (name : String) (readfd writefd : Nat) (c c' : DBusLogCore) : Prop where
  sound : Sound [] c'
  objects : c'.objects = c.objects ++
    [SenderObject.mk (.new name c.backlog readfd writefd) [c.lastHandlerId + 1]]
  registered : c'.registered = c.registered ++ [c.objects.length]
  senderSignalIds :
    c'.senderSignalIds = c.senderSignalIds.insert (c.objects.length, c.lastHandlerId + 1)

section Joined

variable {name : String} {readfd writefd : Nat}

theorem newSender_joined (h : Sound [] c) (name : String) (readfd writefd : Nat) :
    (c.newSender name (some (readfd, writefd))).1 = some c.objects.length ∧
      Joined name readfd writefd c (c.newSender name (some (readfd, writefd))).2 := by
  refine ⟨rfl, (newSender_silent h name _).sound, ?_, ?_, ?_⟩
  · unfold newSender
    simp only [h.touch List.mem_cons_self]
    rfl
  · unfold newSender
    simp only [h.touch List.mem_cons_self]
    exact swapSenders_registered _
  · unfold newSender
    simp only [h.touch List.mem_cons_self]
    rfl

theorem Joined.senderAt_new (hj : Joined name readfd writefd c c') :
    c'.senderAt c.objects.length = some (.new name c.backlog readfd writefd) := by
  unfold senderAt
  rw [hj.objects, List.getElem?_concat_length]
  rfl

theorem Joined.senderAt_old (hj : Joined name readfd writefd c c') (hi : i < c.objects.length) :
    c'.senderAt i = c.senderAt i := by
  unfold senderAt
  rw [hj.objects, List.getElem?_append_left hi]

theorem Joined.connected (hj : Joined name readfd writefd c c') (h : Sound [] c)
    (hc : Connected c) : Connected c' := by
  have hfresh : c.objects.length ∉ c.registered := fun hmem => lt_irrefl _ (h.known _ hmem)
  refine ⟨⟨fun j => ?_, fun j id hmem => ?_⟩, fun j hin s hs => ?_⟩
  · rw [hj.registered, hj.senderSignalIds, List.mem_append, hc.keys j, List.mem_singleton]
    constructor
    · rintro (⟨id, hmem⟩ | rfl)
      · refine ⟨id, (KeyedTable.mem_insert_iff _).mpr (.inr ⟨hmem, ?_⟩)⟩
        rintro (rfl : j = c.objects.length)
        exact hfresh ((hc.keys _).mpr ⟨id, hmem⟩)
      · exact ⟨_, (KeyedTable.mem_insert_iff _).mpr (.inl rfl)⟩
    · rintro ⟨id, hmem⟩
      obtain hnew | ⟨hold, _⟩ := (KeyedTable.mem_insert_iff _).mp hmem
      · cases hnew
        exact .inr rfl
      · exact .inl ⟨id, hold⟩
  · rw [hj.senderSignalIds] at hmem
    rw [hj.objects]
    obtain hnew | ⟨hold, _⟩ := (KeyedTable.mem_insert_iff _).mp hmem
    · cases hnew
      rw [List.getElem?_concat_length]
      exact ⟨Nat.succ_ne_zero _, rfl⟩
    · rw [List.getElem?_append_left (h.known j ((hc.keys j).mpr ⟨id, hold⟩))]
      exact hc.handlers j id hold
  · rw [hj.registered] at hin
    obtain hold | hnew := List.mem_append.mp hin
    · rw [hj.senderAt_old (h.known j hold)] at hs
      exact hc.opened j hold s hs
    · rw [List.mem_singleton.mp hnew, hj.senderAt_new] at hs
      cases hs
      rfl

end Joined

theorem new_connected (backlog : Int32) (removedHandlers : Bool) :
    Connected (new backlog removedHandlers) where
  keys i := by
    constructor
    · intro hi
      cases hi
    · rintro ⟨id, hid⟩
      cases hid
  handlers _ _ hmem := by cases hmem
  opened _ hi := by cases hi

end Handlers

end DBusLogCore

end DBusLog

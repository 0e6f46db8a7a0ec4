import DBusLog.Core.Model

/-!
# What the operations of a core do

`Sound held` says that the array of senders and the arrays in `held` are the ones in use, each
with the count of its references, and that every registered sender exists. A call into a sender
changes that sender, and may make it leave; a broadcast makes one such call for every sender that
is registered when it begins.
-/

namespace DBusLog

namespace DBusLogCore

/-- The sender behind a handle. -/
def senderAt (c : DBusLogCore) (sender : Nat) : Option DBusLogSender :=
  (c.objects[sender]?).map (·.sender)

theorem exists_senderAt {c : DBusLogCore} {i : Nat} (hi : i < c.objects.length) :
    ∃ s, c.senderAt i = some s := by
  unfold senderAt
  rw [List.getElem?_eq_getElem hi]
  exact ⟨_, rfl⟩

theorem lt_of_senderAt {c : DBusLogCore} {i : Nat} {s : DBusLogSender}
    (hs : c.senderAt i = some s) : i < c.objects.length := by
  obtain ⟨object, hobject, _⟩ := Option.map_eq_some_iff.mp hs
  exact (List.getElem?_eq_some_iff.mp hobject).1

/-- The memory of a core is in order. `held` are the arrays that a broadcast holds on to. -/
structure Sound (held : List Nat) (c : DBusLogCore) : Prop where
  intact : c.faulted = false
  counted : RefHeap.Counted c.arrays (c.senders :: held)
  nodup : c.registered.Nodup
  known : ∀ i ∈ c.registered, i < c.objects.length

theorem Sound.touch {held : List Nat} {c : DBusLogCore} (h : Sound held c) {array : Nat}
    (ha : array ∈ c.senders :: held) : c.touch array = c :=
  if_pos (h.counted.alive ha)

/-- What stays when only senders come, go, or change. -/
structure SameTables (c c' : DBusLogCore) : Prop where
  handed : c'.handed = c.handed
  signals : c'.signals = c.signals
  backlog : c'.backlog = c.backlog
  categories : c'.categories = c.categories
  lastCid : c'.lastCid = c.lastCid
  nextMsgIndex : c'.nextMsgIndex = c.nextMsgIndex
  defaultLevel : c'.defaultLevel = c.defaultLevel

theorem SameTables.refl (c : DBusLogCore) : SameTables c c := ⟨rfl, rfl, rfl, rfl, rfl, rfl, rfl⟩

theorem SameTables.trans {c c' c'' : DBusLogCore} (h : SameTables c c') (h' : SameTables c' c'') :
    SameTables c c'' where
  handed := h'.handed.trans h.handed
  signals := h'.signals.trans h.signals
  backlog := h'.backlog.trans h.backlog
  categories := h'.categories.trans h.categories
  lastCid := h'.lastCid.trans h.lastCid
  nextMsgIndex := h'.nextMsgIndex.trans h.nextMsgIndex
  defaultLevel := h'.defaultLevel.trans h.defaultLevel

/-! ## The array of senders -/

section Swap

variable {held : List Nat} {c : DBusLogCore}

theorem swapSenders_registered (items : List Nat) : (c.swapSenders items).registered = items := by
  unfold registered arrayItems swapSenders
  simp

/-- The arrays that were there before can still be read. -/
theorem swapSenders_read {array : Nat} (h : array < c.arrays.length) (items : List Nat) :
    (c.swapSenders items).arrays.read array = c.arrays.read array := by
  unfold swapSenders
  rw [RefHeap.read_unref, RefHeap.read_alloc_of_lt h]

theorem Sound.swapSenders (h : Sound held c) (items : List Nat) (hnodup : items.Nodup)
    (hknown : ∀ i ∈ items, i < c.objects.length) : Sound held (c.swapSenders items) where
  intact := h.intact
  counted := by
    have hnew := h.counted.alloc items
    exact (hnew.perm (List.Perm.swap _ _ held)).unref
  nodup := by
    rw [swapSenders_registered]
    exact hnodup
  known := by
    rw [swapSenders_registered]
    exact hknown

end Swap

/-- Senders have left the core, and the arrays that were in use can still be read. -/
structure Left (held : List Nat) (c c' : DBusLogCore) : Prop extends SameTables c c' where
  sound : Sound held c'
  sublist : c'.registered.Sublist c.registered
  objects : c'.objects.length = c.objects.length
  arrays : ∀ array < c.arrays.length, c'.arrays.read array = c.arrays.read array
  length : c.arrays.length ≤ c'.arrays.length

theorem Left.refl {held : List Nat} {c : DBusLogCore} (h : Sound held c) : Left held c c :=
  { SameTables.refl c with
    sound := h
    sublist := List.Sublist.refl _
    objects := rfl
    arrays := fun _ _ => rfl
    length := le_rfl }

theorem Left.trans {held : List Nat} {c c' c'' : DBusLogCore} (h : Left held c c')
    (h' : Left held c' c'') : Left held c c'' :=
  { h.toSameTables.trans h'.toSameTables with
    sound := h'.sound
    sublist := h'.sublist.trans h.sublist
    objects := h'.objects.trans h.objects
    arrays := fun array ha =>
      (h'.arrays array (ha.trans_le h.length)).trans (h.arrays array ha)
    length := h.length.trans h'.length }

theorem Left.arrayItems {held : List Nat} {c c' : DBusLogCore} (h : Left held c c')
    (hc : Sound held c) {array : Nat} (ha : array ∈ held) :
    c'.arrayItems array = c.arrayItems array := by
  unfold DBusLogCore.arrayItems
  rw [h.arrays array (hc.counted.valid array (List.mem_cons_of_mem _ ha))]

theorem removeHandler_frame (c : DBusLogCore) (sender id : Nat) :
    ∃ objects, c.removeHandler sender id = { c with objects := objects } ∧
      objects.length = c.objects.length ∧
      ∀ j : Nat, (objects[j]?).map (·.sender) = (c.objects[j]?).map (·.sender) := by
  unfold removeHandler
  by_cases hid : id = 0
  · exact ⟨c.objects, if_pos hid, rfl, fun _ => rfl⟩
  · refine ⟨_, if_neg hid, List.length_modify _ _ _, fun j => ?_⟩
    rw [List.getElem?_modify]
    cases c.objects[j]? with
    | none => rfl
    | some object => by_cases hj : sender = j <;> simp [hj]

/-- Removing a sender takes it out of the array, and does nothing for a stranger. -/
theorem removeSender_left {held : List Nat} {c : DBusLogCore} (h : Sound held c) (i : Nat) :
    Left held c (c.removeSender i).2 ∧
      (c.removeSender i).2.registered = c.registered.erase i ∧
      ∀ j, (c.removeSender i).2.senderAt j = c.senderAt j := by
  unfold removeSender
  simp only [h.touch List.mem_cons_self]
  have herase := List.erase_eq_eraseIdx (l := c.registered) i
  cases hidx : c.registered.idxOf? i with
  | none =>
    rw [hidx] at herase
    exact ⟨Left.refl h, herase.symm, fun _ => rfl⟩
  | some index =>
    rw [hidx] at herase
    have hitems : c.registered.take index ++ c.registered.drop (index + 1) =
        c.registered.erase i :=
      (List.eraseIdx_eq_take_drop_succ _ _).symm.trans herase.symm
    simp only [hitems]
    obtain ⟨objects, hframe, hlength, hsenders⟩ := removeHandler_frame c i
      (((c.senderSignalIds.lookup i).map Prod.snd).getD 0)
    rw [hframe]
    have hsound : Sound held { c with
        objects := objects
        senderSignalIds := c.senderSignalIds.erase i } :=
      ⟨h.intact, h.counted, h.nodup, fun j hj => hlength ▸ h.known j hj⟩
    have hswap := hsound.swapSenders _ (List.Nodup.erase i h.nodup)
      (fun j hj => hlength ▸ h.known j (List.mem_of_mem_erase hj))
    refine ⟨?_, swapSenders_registered _, hsenders⟩
    exact {
      handed := rfl
      signals := rfl
      backlog := rfl
      categories := rfl
      lastCid := rfl
      nextMsgIndex := rfl
      defaultLevel := rfl
      sound := hswap
      sublist := by
        rw [swapSenders_registered]
        exact List.erase_sublist
      objects := hlength
      arrays := fun array ha => swapSenders_read ha _
      length := by
        change c.arrays.length ≤ ((c.arrays.alloc _).unref _).length
        rw [RefHeap.length_unref, RefHeap.length_alloc]
        exact Nat.le_succ _ }

/-! ## Calls into senders -/

/-- The core after a call of `f` on the sender `i`. -/
structure SenderCall (held : List Nat) (i : Nat) (f : DBusLogSender → DBusLogSender)
    (c c' : DBusLogCore) : Prop extends Left held c c' where
  senders : ∀ j, c'.senderAt j = if j = i then (c.senderAt j).map f else c.senderAt j
  others : ∀ j ∈ c.registered, j ≠ i → j ∈ c'.registered
  stays : ∀ s, c.senderAt i = some s → (f s).closedSignals ≤ s.closedSignals →
    c'.registered = c.registered

theorem runSender_call {held : List Nat} {c : DBusLogCore} (h : Sound held c) {i : Nat}
    (hi : i < c.objects.length) (f : DBusLogSender → DBusLogSender) :
    SenderCall held i f c (c.runSender i f) := by
  have hobject : c.objects[i]? = some c.objects[i] := List.getElem?_eq_getElem hi
  unfold runSender
  rw [hobject]
  generalize c.objects[i] = object at hobject
  have hset : Sound held
      { c with objects := c.objects.set i { object with sender := f object.sender } } :=
    ⟨h.intact, h.counted, h.nodup, fun j hj => by
      rw [List.length_set]
      exact h.known j hj⟩
  have hleft : Left held c
      { c with objects := c.objects.set i { object with sender := f object.sender } } := {
    handed := rfl
    signals := rfl
    backlog := rfl
    categories := rfl
    lastCid := rfl
    nextMsgIndex := rfl
    defaultLevel := rfl
    sound := hset
    sublist := List.Sublist.refl _
    objects := List.length_set
    arrays := fun _ _ => rfl
    length := le_rfl }
  have hsenders : ∀ j, senderAt
      { c with objects := c.objects.set i { object with sender := f object.sender } } j =
      if j = i then (c.senderAt j).map f else c.senderAt j := by
    intro j
    unfold senderAt
    by_cases hj : j = i
    · subst hj
      rw [if_pos rfl, List.getElem?_set_self hi, hobject]
      rfl
    · rw [if_neg hj, List.getElem?_set_ne (Ne.symm hj)]
  have hsender : c.senderAt i = some object.sender := by
    unfold senderAt
    rw [hobject]
    rfl
  dsimp only
  -- the CLOSED signal takes the sender out of the array
  by_cases hclosed : object.sender.closedSignals < (f object.sender).closedSignals ∧
      object.closedHandlers ≠ []
  · rw [if_pos hclosed]
    obtain ⟨hremoved, hregistered, hsame⟩ := removeSender_left hset i
    refine { hleft.trans hremoved with
      senders := fun j => (hsame j).trans (hsenders j)
      others := fun j hj hne => ?_
      stays := fun s hs hle => ?_ }
    · rw [hregistered]
      exact (List.mem_erase_of_ne hne).mpr hj
    · rw [hsender] at hs
      cases hs
      exact absurd hclosed.1 (Nat.not_lt.mpr hle)
  · rw [if_neg hclosed]
    exact { hleft with
      senders := hsenders
      others := fun _ hj _ => hj
      stays := fun _ _ _ => rfl }

/-! ## The broadcast -/

/-- What a broadcast does to a sender. -/
def handStep (ctx : LogContext) (msg : DBusLogMessage) (sender : Nat) : SenderStep :=
  if ctx.worker then .workerSend msg else .send msg (ctx.answers sender)

/-- The call of `dbus_log_sender_send` that a broadcast makes. -/
def handCall (ctx : LogContext) (msg : DBusLogMessage) (sender : Nat) (s : DBusLogSender) :
    DBusLogSender :=
  if ctx.worker then s.sendFromWorker msg
  else { s with answers := ctx.answers sender }.send msg

theorem step_handStep (ctx : LogContext) (msg : DBusLogMessage) (sender : Nat)
    (s : DBusLogSender) : s.step (handStep ctx msg sender) = some (handCall ctx msg sender s) := by
  unfold handStep handCall
  by_cases hw : ctx.worker = true
  · rw [if_pos hw, if_pos hw]
    rfl
  · rw [if_neg hw, if_neg hw]
    rfl

/-- The core after a broadcast has gone through the senders `items`. -/
structure Broadcast (held : List Nat) (ctx : LogContext) (msg : DBusLogMessage)
    (items : List Nat) (c c' : DBusLogCore) : Prop where
  sound : Sound held c'
  handed : c'.handed = c.handed ++ items.map fun i => (i, msg)
  sublist : c'.registered.Sublist c.registered
  objects : c'.objects.length = c.objects.length
  tables : SameTables { c with handed := c'.handed } c'
  senders : ∀ j, c'.senderAt j =
    if j ∈ items then (c.senderAt j).map (handCall ctx msg j) else c.senderAt j
  stays : ∀ j ∈ c.registered,
    (j ∈ items → ∀ s, c.senderAt j = some s →
      (handCall ctx msg j s).closedSignals ≤ s.closedSignals) → j ∈ c'.registered

theorem hand_call {held : List Nat} {c : DBusLogCore} (h : Sound held c) {i : Nat}
    (hi : i < c.objects.length) (ctx : LogContext) (msg : DBusLogMessage) :
    SenderCall held i (handCall ctx msg i) { c with handed := c.handed ++ [(i, msg)] }
      (c.hand ctx msg i) :=
  runSender_call (c := { c with handed := c.handed ++ [(i, msg)] })
    ⟨h.intact, h.counted, h.nodup, h.known⟩ hi _

theorem hand_foldl (ctx : LogContext) (msg : DBusLogMessage) {held items : List Nat}
    {c : DBusLogCore} (h : Sound held c) (hnodup : items.Nodup)
    (hknown : ∀ i ∈ items, i < c.objects.length) :
    Broadcast held ctx msg items c (items.foldl (fun c i => c.hand ctx msg i) c) := by
  induction items generalizing c with
  | nil =>
    exact ⟨h, (List.append_nil _).symm, List.Sublist.refl _, rfl, SameTables.refl _,
      fun j => (if_neg List.not_mem_nil).symm, fun _ hj _ => hj⟩
  | cons i items ih =>
    obtain ⟨hi, hrest⟩ := List.nodup_cons.mp hnodup
    have hcall := hand_call h (hknown i List.mem_cons_self) ctx msg
    have hlater := ih hcall.sound hrest fun j hj => by
      rw [hcall.objects]
      exact hknown j (List.mem_cons_of_mem i hj)
    rw [List.foldl_cons]
    refine ⟨hlater.sound, ?_, hlater.sublist.trans hcall.sublist,
      hlater.objects.trans hcall.objects, ?_, fun j => ?_, fun j hj hstay => ?_⟩
    · rw [hlater.handed, hcall.handed, List.map_cons]
      simp only [List.append_assoc, List.singleton_append]
    · have htables := hlater.tables
      exact ⟨rfl, htables.signals.trans hcall.signals, htables.backlog.trans hcall.backlog,
        htables.categories.trans hcall.categories, htables.lastCid.trans hcall.lastCid,
        htables.nextMsgIndex.trans hcall.nextMsgIndex,
        htables.defaultLevel.trans hcall.defaultLevel⟩
    · rw [hlater.senders j, hcall.senders j]
      by_cases hji : j = i
      · subst hji
        rw [if_neg hi, if_pos rfl, if_pos List.mem_cons_self]
        rfl
      · by_cases hmem : j ∈ items
        · rw [if_pos hmem, if_neg hji, if_pos (List.mem_cons_of_mem i hmem)]
          rfl
        · rw [if_neg hmem, if_neg hji,
            if_neg (fun h => (List.mem_cons.mp h).elim hji hmem)]
          rfl
    · -- it stays through the first call, and then through the others
      have hafter : j ∈ (c.hand ctx msg i).registered := by
        by_cases hji : j = i
        · subst hji
          obtain ⟨s, hs⟩ : ∃ s, c.senderAt j = some s :=
            ⟨_, by rw [senderAt, List.getElem?_eq_getElem (hknown j List.mem_cons_self)]; rfl⟩
          rw [hcall.stays s hs (hstay List.mem_cons_self s hs)]
          exact hj
        · exact hcall.others j hj hji
      refine hlater.stays j hafter fun hmem s hs => ?_
      have hji : j ≠ i := fun heq => hi (heq ▸ hmem)
      rw [hcall.senders j, if_neg hji] at hs
      exact hstay (List.mem_cons_of_mem i hmem) s hs

/-- The loop over an array that is held goes through its senders. -/
theorem sendLoop_eq {held : List Nat} {ctx : LogContext} {msg : DBusLogMessage} {array : Nat}
    (ha : array ∈ held) {items rest : List Nat} {fuel i : Nat} {c : DBusLogCore}
    (h : Sound held c) (hitems : c.arrayItems array = items) (hrest : items.drop i = rest)
    (hknown : ∀ j ∈ rest, j < c.objects.length) (hfuel : rest.length < fuel) :
    sendLoop ctx msg array fuel i c = rest.foldl (fun c j => c.hand ctx msg j) c := by
  induction rest generalizing fuel i c with
  | nil =>
    obtain ⟨fuel, rfl⟩ := Nat.exists_eq_succ_of_ne_zero (Nat.ne_of_gt hfuel)
    have hnone : items[i]? = none := List.getElem?_eq_none (List.drop_eq_nil_iff.mp hrest)
    rw [sendLoop, h.touch (List.mem_cons_of_mem _ ha), hitems, hnone]
    rfl
  | cons j rest ih =>
    obtain ⟨fuel, rfl⟩ := Nat.exists_eq_succ_of_ne_zero (Nat.ne_of_gt (Nat.zero_lt_of_lt hfuel))
    have hhead : items[i]? = some j := by
      rw [← List.head?_drop, hrest]
      rfl
    have htail : items.drop (i + 1) = rest := by
      rw [← List.tail_drop, hrest]
      rfl
    -- a call may replace the array of the core, but not the one that is held
    have hcall := hand_call h (hknown j List.mem_cons_self) ctx msg
    rw [sendLoop, h.touch (List.mem_cons_of_mem _ ha), hitems]
    simp only [hhead, List.foldl_cons]
    refine ih hcall.sound ?_ htail (fun k hk => ?_) (Nat.lt_of_succ_lt_succ hfuel)
    · exact (hcall.toLeft.arrayItems ⟨h.intact, h.counted, h.nodup, h.known⟩ ha).trans hitems
    · rw [hcall.objects]
      exact hknown k (List.mem_cons_of_mem j hk)

/-- The message that a broadcast hands out. -/
def stamp (c : DBusLogCore) (ctx : LogContext) (category : Option DBusLogCategory)
    (msg : DBusLogMessage) : DBusLogMessage :=
  { msg with
    timestamp := ctx.time
    index := c.nextMsgIndex
    category := (category.map (·.id)).getD msg.category }

/-- The core while a broadcast holds on to the array of senders. -/
def holding (c : DBusLogCore) : DBusLogCore :=
  { c with
    arrays := c.arrays.ref c.senders
    nextMsgIndex := c.nextMsgIndex + 1 }

/-- The broadcast lets go of its array. -/
def letGo (c : DBusLogCore) (array : Nat) : DBusLogCore :=
  { c with arrays := c.arrays.unref array }

theorem holding_items (c : DBusLogCore) : c.holding.arrayItems c.senders = c.registered := by
  unfold holding registered arrayItems
  simp only [RefHeap.read_ref]

theorem holding_registered (c : DBusLogCore) : c.holding.registered = c.registered :=
  holding_items c

theorem letGo_registered (c : DBusLogCore) (array : Nat) :
    (c.letGo array).registered = c.registered := by
  unfold letGo registered arrayItems
  simp only [RefHeap.read_unref]

theorem Sound.holding {c : DBusLogCore} (h : Sound [] c) : Sound [c.senders] c.holding where
  intact := h.intact
  counted := h.counted.ref (h.counted.valid _ List.mem_cons_self)
  nodup := by
    rw [holding_registered]
    exact h.nodup
  known := by
    rw [holding_registered]
    exact h.known

theorem Sound.letGo {c : DBusLogCore} {array : Nat} (h : Sound [array] c) :
    Sound [] (c.letGo array) where
  intact := h.intact
  counted := (h.counted.perm (List.Perm.swap _ _ _)).unref
  nodup := by
    rw [letGo_registered]
    exact h.nodup
  known := by
    rw [letGo_registered]
    exact h.known

/-- A broadcast goes through the senders that are registered when it begins. -/
theorem send_eq {c : DBusLogCore} (h : Sound [] c) (ctx : LogContext)
    (category : Option DBusLogCategory) (msg : DBusLogMessage) :
    c.send ctx category msg =
      (c.registered.foldl (fun c' j => c'.hand ctx (c.stamp ctx category msg) j)
        c.holding).letGo c.senders := by
  rw [← sendLoop_eq (List.mem_singleton.mpr rfl) h.holding (holding_items c) List.drop_zero h.known
    (Nat.lt_succ_self _)]
  unfold send
  simp only [h.touch List.mem_cons_self]
  rw [show arrayItems { c with
      arrays := c.arrays.ref c.senders
      nextMsgIndex := c.nextMsgIndex + 1 } c.senders = c.registered from holding_items c]
  cases category <;> rfl

/-- A broadcast hands the stamped message to every sender that is registered when it begins. -/
theorem send_broadcast {c : DBusLogCore} (h : Sound [] c) (ctx : LogContext)
    (category : Option DBusLogCategory) (msg : DBusLogMessage) :
    Broadcast [] ctx (c.stamp ctx category msg) c.registered
      { c with nextMsgIndex := c.nextMsgIndex + 1 } (c.send ctx category msg) := by
  have hloop := hand_foldl ctx (c.stamp ctx category msg) h.holding h.nodup h.known
  rw [send_eq h]
  generalize c.registered.foldl (fun c' j => c'.hand ctx (c.stamp ctx category msg) j)
    c.holding = c' at hloop
  have hsublist := hloop.sublist
  have hstays := hloop.stays
  rw [holding_registered] at hsublist
  rw [holding_registered] at hstays
  refine ⟨hloop.sound.letGo, hloop.handed, ?_, hloop.objects, ?_, hloop.senders, ?_⟩
  · rw [letGo_registered]
    exact hsublist
  · have htables := hloop.tables
    exact ⟨rfl, htables.signals, htables.backlog, htables.categories, htables.lastCid,
      htables.nextMsgIndex, htables.defaultLevel⟩
  · rw [letGo_registered]
    exact hstays

end DBusLogCore

end DBusLog

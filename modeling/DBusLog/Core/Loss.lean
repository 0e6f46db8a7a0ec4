import DBusLog.Core.Settings
import DBusLog.Core.System
import DBusLog.Receiver.RoundTrip
import DBusLog.Sender.Numbering

/-!
# Loss accounting

A sender is created, the core accepts log calls, the sender is closed and drained into a receiver.
`Serving` follows the sender while the calls are made: it is registered, and the kept messages are
those left of the accepted calls. `Draining` follows it after the close.
-/

namespace DBusLog

/-- The step is a `dbus_log_sender_close`. -/
def SenderStep.Closes : SenderStep → Prop
  | .close _ _ => True
  | _ => False

instance : DecidablePred SenderStep.Closes
  | .close _ _ => isTrue trivial
  | .workerSend _ | .send _ _ | .ping _ | .shutdown _ | .callback _ | .watch _ _ _ => isFalse id

namespace DBusLogSender

/-! ## The sender by itself -/

/-- What is known about a sender in a clean run on the main thread. -/
structure Tracked (s : DBusLogSender) (l : Ledger) : Prop where
  watches : WatchInv s
  stream : StreamInv True s l
  accounted : Accounted l
  room : s.RoomForTwo

section Tracked

variable {s t : DBusLogSender} {l : Ledger} {a : SenderStep}

theorem Tracked.step (h : Tracked s l) (hmain : a.OnMainThread) (hclean : a.Clean)
    (hfits : s.PreparesFit a) (ht : s.step a = some t) : Tracked t (s.record a l) where
  watches := h.watches.step (CallbackSafe.of_onMainThread hmain s) ht
  stream := h.stream.step h.watches hmain hfits (fun _ => hclean) ht
  accounted := h.accounted.record h.stream a
  room := by
    intro n hn
    rw [step_maxSize rfl ht] at hn
    exact h.room n hn

/-- The ledger knows whether the sender has been closed. -/
theorem Tracked.done (h : Tracked s l) : s.done = l.closed := h.stream.done

/-- An open sender has not emitted CLOSED. -/
theorem Tracked.signals (h : Tracked s l) (hdone : s.done = false) : s.closedSignals = 0 := by
  cases h.stream with
  | quiet _ hsig _ => exact hsig
  | busy _ hsig _ _ _ => exact hsig
  | closed h => cases hdone.symm.trans h.done

theorem recordSend_closed (s : DBusLogSender) (msg : DBusLogMessage) (l : Ledger) :
    (s.recordSend msg l).closed = l.closed := by
  unfold recordSend
  split
  · rfl
  · split
    · rfl
    · simp only
      split
      · rfl
      · rfl

theorem record_closed (h : ¬a.Closes) :
    (s.record a l).closed = l.closed := by
  cases a with
  | workerSend msg => exact recordSend_closed s msg l
  | send msg _ => exact recordSend_closed s msg l
  | ping _ =>
    change (if s.canPing then l.issue .ping else l).closed = l.closed
    split
    · rfl
    · rfl
  | close _ _ => exact absurd trivial h
  | shutdown _ => rfl
  | callback _ => rfl
  | watch _ _ _ => rfl

/-- A step that passes no message keeps the messages. -/
theorem record_messages (h : a.message? = none) :
    WirePacket.messages (s.record a l).kept = WirePacket.messages l.kept := by
  cases a with
  | workerSend msg => cases h
  | send msg _ => cases h
  | ping _ =>
    change WirePacket.messages (if s.canPing then l.issue .ping else l).kept = _
    split
    · exact (WirePacket.messages_append _ _).trans (List.append_nil _)
    · rfl
  | close _ _ =>
    change WirePacket.messages (if s.done then l else { l with closed := true }).kept = _
    split
    · rfl
    · rfl
  | shutdown _ => rfl
  | callback _ => rfl
  | watch _ _ _ => rfl

end Tracked

end DBusLogSender

/-! ## The conditions -/

/-- An operation leaves the sender `i` to its work: log calls come from the main thread, no channel
write of the sender fails, and the sender is neither closed nor removed. -/
def CoreOp.Undisturbed (i : Nat) : CoreOp → Prop
  | .log ctx _ _ _ | .logv ctx _ _ _ => ctx.worker = false ∧ .error ∉ ctx.answers i
  | .removeSender j => j ≠ i
  | .sender j a => j = i → a.OnMainThread ∧ a.Clean ∧ ¬a.Closes
  | _ => True

instance (i : Nat) : DecidablePred (CoreOp.Undisturbed i)
  | .log ctx _ _ _ | .logv ctx _ _ _ =>
    inferInstanceAs (Decidable (ctx.worker = false ∧ .error ∉ ctx.answers i))
  | .removeSender j => inferInstanceAs (Decidable (j ≠ i))
  | .sender j a =>
    inferInstanceAs (Decidable (j = i → a.OnMainThread ∧ a.Clean ∧ ¬a.Closes))
  | .setDefaultLevel _ | .newCategory _ _ _ | .removeCategory _ | .removeAllCategories
  | .setCategoryEnabled _ _ | .setCategoryLevel _ _ | .newSender _ _ => isTrue trivial

/-- The step of the sender `i` itself. -/
def CoreOp.callback? (i : Nat) : CoreOp → Option SenderStep
  | .sender j a => if j = i then some a else none
  | _ => none

theorem CoreOp.Undisturbed.context {i : Nat} {op : CoreOp} (h : op.Undisturbed i)
    {ctx : LogContext} (hctx : op.context? = some ctx) :
    ctx.worker = false ∧ .error ∉ ctx.answers i := by
  cases op with
  | log ctx' _ _ _ =>
    cases hctx
    exact h
  | logv ctx' _ _ _ =>
    cases hctx
    exact h
  | _ => cases hctx

namespace DBusLogCore

/-- The messages fit for which the sender `i` prepares packets: the one of an accepted call that
finds it idle, and the head of the ring when a callback gets the packet in flight out. And no
accepted call makes it drop the message with the largest index. -/
def LossSafe (i : Nat) (c : DBusLogCore) (op : CoreOp) : Prop :=
  ∀ s ∈ c.senderAt i, (∀ a ∈ op.callback? i, s.PreparesFit a) ∧
    ∀ call ∈ c.acceptedCall op, s.done = false → if s.Idle then call.message.Fits
      else ∀ m ∈ s.overflow, m.index ≠ ReceiverEvent.maxIndex

instance (i : Nat) (c : DBusLogCore) (op : CoreOp) : Decidable (LossSafe i c op) :=
  inferInstanceAs (Decidable (∀ s ∈ c.senderAt i, (∀ a ∈ op.callback? i, s.PreparesFit a) ∧
    ∀ call ∈ c.acceptedCall op, s.done = false → if s.Idle then call.message.Fits
      else ∀ m ∈ s.overflow, m.index ≠ ReceiverEvent.maxIndex))

/-! ## While the calls are made -/

/-- The sender `i` serves the core: `n` calls have been accepted, under the indices from `first`
on. -/
structure Serving (i first n : Nat) (c : DBusLogCore) (s : DBusLogSender) (l : Ledger) : Prop where
  sound : Sound [] c
  sender : c.senderAt i = some s
  registered : i ∈ c.registered
  next : c.nextMsgIndex = UInt32.ofNat (first + n)
  tracked : DBusLogSender.Tracked s l
  opened : s.done = false
  numbered : Numbered first n l

section Serving

variable {i first n : Nat} {c c' : DBusLogCore} {s t : DBusLogSender} {l : Ledger}

/-- A call on the main thread is a `send` of the sender. -/
theorem handStep_main {ctx : LogContext} (hworker : ctx.worker = false) (msg : DBusLogMessage)
    (i : Nat) : handStep ctx msg i = .send msg (ctx.answers i) := by
  unfold handStep
  rw [hworker]
  rfl

/-- The broadcast of an accepted call. -/
theorem Serving.broadcast (h : Serving i first n c s l) {ctx : LogContext} {call : AcceptedCall}
    (hworker : ctx.worker = false) (hclean : .error ∉ ctx.answers i)
    (hsafe : if s.Idle then call.message.Fits
      else ∀ m ∈ s.overflow, m.index ≠ ReceiverEvent.maxIndex)
    (hs : Broadcast [] ctx (call.indexed c.nextMsgIndex) c.registered
      { c with nextMsgIndex := c.nextMsgIndex + 1 } c') :
    ∃ s' l', Serving i first (n + 1) c' s' l' := by
  have hstep := step_handStep ctx (call.indexed c.nextMsgIndex) i s
  rw [handStep_main hworker] at hstep
  have hfits : s.PreparesFit (.send (call.indexed c.nextMsgIndex) (ctx.answers i)) := by
    intro _ hidle
    rw [if_pos hidle] at hsafe
    exact hsafe
  have hdrop : ¬s.Idle → ∀ m ∈ s.overflow, m.index ≠ ReceiverEvent.maxIndex := by
    intro hbusy
    rw [if_neg hbusy] at hsafe
    exact hsafe
  have htracked := h.tracked.step (a := .send (call.indexed c.nextMsgIndex) (ctx.answers i))
    trivial hclean hfits hstep
  have hsender := hs.senders i
  rw [if_pos h.registered] at hsender
  change c'.senderAt i = (c.senderAt i).map _ at hsender
  rw [h.sender, Option.map_some] at hsender
  have hopened : (handCall ctx (call.indexed c.nextMsgIndex) i s).done = false := by
    rw [htracked.done, DBusLogSender.record_closed id, ← h.tracked.done]
    exact h.opened
  refine ⟨_, _, hs.sound, hsender, ?_, ?_, htracked, hopened, ?_⟩
  · refine hs.stays i h.registered fun _ s' hs' => ?_
    cases h.sender.symm.trans hs'
    rw [htracked.signals hopened]
    exact Nat.zero_le _
  · rw [hs.tables.nextMsgIndex]
    change c.nextMsgIndex + 1 = _
    rw [h.next]
    exact (UInt32.ofNat_add _ 1).symm
  · exact DBusLogSender.Numbered.send h.numbered h.tracked.stream h.tracked.room h.opened hdrop
      h.next

/-- A step of the sender itself. -/
theorem Serving.senderStep (h : Serving i first n c s l) {a : SenderStep}
    (hmessage : a.message? = none) (hmain : a.OnMainThread) (hclean : a.Clean)
    (hclose : ¬a.Closes) (hfits : s.PreparesFit a) (ht : s.step a = some t) :
    Serving i first n (c.runSender i fun _ => t) t (s.record a l) := by
  have hcall := runSender_call h.sound (h.sound.known i h.registered) fun _ => t
  have htracked := h.tracked.step hmain hclean hfits ht
  have hopened : t.done = false := by
    rw [htracked.done, DBusLogSender.record_closed hclose, ← h.tracked.done]
    exact h.opened
  refine ⟨hcall.sound, ?_, ?_, hcall.nextMsgIndex.trans h.next, htracked, hopened, ?_⟩
  · rw [hcall.senders i, if_pos rfl, h.sender]
    rfl
  · rw [hcall.stays s h.sender (by rw [htracked.signals hopened]; exact Nat.zero_le _)]
    exact h.registered
  · exact h.numbered.of_messages (DBusLogSender.record_messages hmessage)

/-- A step that is not about the sender. -/
theorem Serving.silent (h : Serving i first n c s l) {target : Option Nat}
    (htarget : some i ≠ target) (hs : Silent target c c') : Serving i first n c' s l where
  sound := hs.sound
  sender := (hs.senders i (h.sound.known i h.registered) htarget).trans h.sender
  registered := hs.stays i h.registered htarget
  next := hs.nextMsgIndex.trans h.next
  tracked := h.tracked
  opened := h.opened
  numbered := h.numbered

/-- An enabled step about the sender `i` is a step of that sender. -/
theorem step_sender {a : SenderStep} (hsender : c.senderAt i = some s)
    (hs : c.step (.sender i a) = some c') :
    a.message? = none ∧ ∃ t, s.step a = some t ∧ c' = c.runSender i fun _ => t := by
  obtain ⟨hmessage, _⟩ := Option.ite_none_right_eq_some.mp hs
  obtain ⟨s₀, t, hs₀, ht, _, he⟩ := step_callback hs
  cases hsender.symm.trans hs₀
  exact ⟨hmessage, t, ht, he⟩

theorem Serving.step (h : Serving i first n c s l) {op : CoreOp} (hop : op.Undisturbed i)
    (hsafe : c.LossSafe i op) (hs : c.step op = some c') :
    ∃ s' l', Serving i first (n + (c.acceptedCall op).toList.length) c' s' l' := by
  obtain ⟨hnone, hsilent⟩ | ⟨ctx, call, hctx, hcall, _, hbroadcast⟩ := step_cases h.sound hs
  · rw [hnone]
    by_cases htarget : some i = op.target
    · cases op with
      | removeSender j => exact absurd (Option.some.inj htarget).symm hop
      | sender j a =>
        cases htarget
        obtain ⟨hmain, hclean, hclose⟩ := hop rfl
        obtain ⟨hmessage, t, ht, rfl⟩ := step_sender h.sender hs
        have hfits := (hsafe s h.sender).1 a (if_pos rfl)
        exact ⟨t, _, h.senderStep hmessage hmain hclean hclose hfits ht⟩
      | _ => cases htarget
    · exact ⟨s, l, h.silent htarget hsilent⟩
  · obtain ⟨hworker, hclean⟩ := hop.context hctx
    rw [hcall]
    exact h.broadcast hworker hclean ((hsafe s h.sender).2 call hcall h.opened) hbroadcast

end Serving

/-- The sender serves in every state of a run whose steps meet the conditions. -/
theorem run_serving {i first : Nat} {c c' : DBusLogCore} {s : DBusLogSender} {l : Ledger}
    {ops : List CoreOp} (h : Serving i first 0 c s l)
    (hok : Runs.Meets step (fun c op => op.Undisturbed i ∧ c.LossSafe i op) c ops)
    (hrun : c.run ops = some c') :
    ∃ s' l', Serving i first (c.acceptedCalls ops).length c' s' l' :=
  Runs.history_invariant (f := recordCall)
    (P := fun c calls => ∃ s l, Serving i first calls.length c s l)
    (fun c op c' calls ⟨s, l, h⟩ hc hs => by
      obtain ⟨s', l', h'⟩ := h.step hc.1 hc.2 hs
      refine ⟨s', l', ?_⟩
      unfold recordCall
      rw [List.length_append]
      exact h')
    hok hrun ⟨s, l, h⟩

/-! ## After the close -/

/-- The sender `i` has been closed, with the ledger `l`. -/
structure Draining (i : Nat) (l : Ledger) (c : DBusLogCore) (s : DBusLogSender) : Prop where
  sound : Sound [] c
  sender : c.senderAt i = some s
  tracked : DBusLogSender.Tracked s l
  closed : s.done = true

section Draining

variable {i : Nat} {c c' : DBusLogCore} {s t : DBusLogSender} {l : Ledger}

theorem Draining.known (h : Draining i l c s) : i < c.objects.length := by
  obtain ⟨object, hobject, _⟩ := Option.map_eq_some_iff.mp h.sender
  exact (List.getElem?_eq_some_iff.mp hobject).1

theorem Draining.senderStep (h : Draining i l c s) {a : SenderStep} (hmain : a.OnMainThread)
    (hclean : a.Clean) (hfits : s.PreparesFit a) (ht : s.step a = some t) :
    Draining i l (c.runSender i fun _ => t) t := by
  have hcall := runSender_call h.sound h.known fun _ => t
  have htracked := h.tracked.step hmain hclean hfits ht
  rw [DBusLogSender.record_done h.closed] at htracked
  refine ⟨hcall.sound, ?_, htracked, DBusLogSender.step_done h.closed ht⟩
  rw [hcall.senders i, if_pos rfl, h.sender]
  rfl

theorem Draining.broadcast (h : Draining i l c s) {ctx : LogContext} {call : AcceptedCall}
    (hworker : ctx.worker = false) (hclean : .error ∉ ctx.answers i)
    (hs : Broadcast [] ctx (call.indexed c.nextMsgIndex) c.registered
      { c with nextMsgIndex := c.nextMsgIndex + 1 } c') :
    ∃ s', Draining i l c' s' := by
  have hsender := hs.senders i
  by_cases hmem : i ∈ c.registered
  · have hstep := step_handStep ctx (call.indexed c.nextMsgIndex) i s
    rw [handStep_main hworker] at hstep
    have htracked := h.tracked.step (a := .send (call.indexed c.nextMsgIndex) (ctx.answers i))
      trivial hclean (fun hopen => by cases hopen.symm.trans h.closed) hstep
    rw [DBusLogSender.record_done h.closed] at htracked
    rw [if_pos hmem] at hsender
    change c'.senderAt i = (c.senderAt i).map _ at hsender
    rw [h.sender, Option.map_some] at hsender
    exact ⟨_, hs.sound, hsender, htracked, DBusLogSender.step_done h.closed hstep⟩
  · rw [if_neg hmem] at hsender
    exact ⟨s, hs.sound, hsender.trans h.sender, h.tracked, h.closed⟩

theorem Draining.step (h : Draining i l c s) {op : CoreOp} (hop : op.Undisturbed i)
    (hsafe : c.LossSafe i op) (hs : c.step op = some c') : ∃ s', Draining i l c' s' := by
  obtain ⟨_, hsilent⟩ | ⟨ctx, call, hctx, hcall, _, hbroadcast⟩ := step_cases h.sound hs
  · by_cases htarget : some i = op.target
    · cases op with
      | removeSender j => exact absurd (Option.some.inj htarget).symm hop
      | sender j a =>
        cases htarget
        obtain ⟨hmain, hclean, _⟩ := hop rfl
        obtain ⟨_, t, ht, rfl⟩ := step_sender h.sender hs
        exact ⟨t, h.senderStep hmain hclean ((hsafe s h.sender).1 a (if_pos rfl)) ht⟩
      | _ => cases htarget
    · exact ⟨s, hsilent.sound, (hsilent.senders i h.known htarget).trans h.sender, h.tracked,
        h.closed⟩
  · obtain ⟨hworker, hclean⟩ := hop.context hctx
    exact h.broadcast hworker hclean hbroadcast

theorem run_draining {ops : List CoreOp} (h : Draining i l c s)
    (hok : Runs.Meets DBusLogCore.step (fun c op => op.Undisturbed i ∧ c.LossSafe i op) c ops)
    (hrun : c.run ops = some c') : ∃ s', Draining i l c' s' :=
  Runs.invariant_of_meets (P := fun c => ∃ s, Draining i l c s)
    (fun _ _ _ ⟨_, h⟩ hc hs => h.step hc.1 hc.2 hs) hok hrun ⟨s, h⟩

end Draining

/-- The close of a serving sender. -/
theorem Serving.close {i first n : Nat} {c c' : DBusLogCore} {s : DBusLogSender} {l : Ledger}
    (h : Serving i first n c s l) {bye : Bool} {answers : List WriteAnswer}
    (hclean : .error ∉ answers) (hs : c.step (.sender i (.close bye answers)) = some c') :
    ∃ s', Draining i { l with closed := true } c' s' := by
  obtain ⟨_, t, ht, rfl⟩ := step_sender h.sender hs
  have hcall := runSender_call h.sound (h.sound.known i h.registered) fun _ => t
  have htracked := h.tracked.step (a := .close bye answers) trivial hclean trivial ht
  have hrec : s.record (.close bye answers) l = { l with closed := true } :=
    if_neg (by rw [h.opened]; exact Bool.false_ne_true)
  rw [hrec] at htracked
  refine ⟨t, hcall.sound, ?_, htracked, htracked.done⟩
  rw [hcall.senders i, if_pos rfl, h.sender]
  rfl

/-! ## Created, closed and drained -/

/-- What a run keeps: the memory is in order, and the backlog stays. -/
theorem run_backlog {backlog : Int32} {removedHandlers : Bool} {ops : List CoreOp}
    {c : DBusLogCore} (hrun : (new backlog removedHandlers).run ops = some c) :
    Sound [] c ∧ c.backlog = DBusLogSender.normalizeBacklog backlog := by
  refine Runs.invariant_of_forall (C := fun _ => True)
    (P := fun c => Sound [] c ∧ c.backlog = DBusLogSender.normalizeBacklog backlog)
    (fun c op c' ⟨hsound, hbacklog⟩ _ hs => ⟨step_sound hsound hs, ?_⟩) (fun _ _ => trivial) hrun
    ⟨new_sound backlog removedHandlers, rfl⟩
  obtain ⟨_, hsilent⟩ | ⟨_, _, _, _, _, hbroadcast⟩ := step_cases hsound hs
  · exact hsilent.backlog.trans hbacklog
  · exact hbroadcast.tables.backlog.trans hbacklog

theorem normalizeBacklog_normalizeBacklog (backlog : Int32) :
    DBusLogSender.normalizeBacklog (DBusLogSender.normalizeBacklog backlog) =
      DBusLogSender.normalizeBacklog backlog := by
  obtain ⟨_, he⟩ | he | he := DBusLogSender.normalizeBacklog_cases backlog
  · rw [he, he]
  · rw [he]
    decide
  · rw [he]
    decide

/-- Only a backlog of one message has no room for two. -/
theorem new_roomForTwo (name : String) {backlog : Int32} (h : backlog ≠ 1) (readfd writefd : Nat) :
    (DBusLogSender.new name (DBusLogSender.normalizeBacklog backlog) readfd writefd).RoomForTwo := by
  intro n hn
  change DBusLogSender.ringMaxSize (DBusLogSender.normalizeBacklog
    (DBusLogSender.normalizeBacklog backlog)) = some n at hn
  rw [normalizeBacklog_normalizeBacklog] at hn
  obtain ⟨hpos, hone⟩ := DBusLogSender.ringMaxSize_normalizeBacklog hn
  have hne : n ≠ 1 := fun he => h (hone he)
  omega

theorem newSender_serving {c : DBusLogCore} (h : Sound [] c) (name : String) {readfd writefd : Nat}
    (hroom : (DBusLogSender.new name c.backlog readfd writefd).RoomForTwo) :
    Serving c.objects.length c.nextMsgIndex.toNat 0 (c.newSender name (some (readfd, writefd))).2
      (DBusLogSender.new name c.backlog readfd writefd) Ledger.empty := by
  have hsilent := newSender_silent h name (some (readfd, writefd))
  refine ⟨hsilent.sound, ?_, ?_, ?_, ⟨.new name c.backlog readfd writefd, ?_, ?_, hroom⟩, rfl,
    numbered_empty _⟩
  · exact newSender_senderAt c name readfd writefd
  · unfold newSender
    simp only [h.touch List.mem_cons_self, swapSenders_registered]
    exact List.mem_append_right _ List.mem_cons_self
  · rw [hsilent.nextMsgIndex, Nat.add_zero, UInt32.ofNat_toNat]
  · exact .new _ _ _ _ _
  · exact DBusLogSender.accounted_empty

/-- What a receiver makes of the messages that are left of `n` numbered ones. -/
theorem receiver_accounts {first n : Nat} {l : Ledger} (hnumbered : Numbered first n l)
    (hfits : ∀ m ∈ WirePacket.messages l.kept, m.Fits) (hbye : .bye ∉ l.kept) (fd : Nat)
    (doClose : Bool) {chunks : List (List UInt8)}
    (hchunks : chunks.flatten = WirePacket.encodeAll (l.kept ++ [.bye])) {k : Nat}
    (hk : chunks.flatten.length + chunks.length ≤ k) :
    let r := (DBusLogReceiver.dispatch ReceiverHandlers.passive)^[k]
      (DBusLogReceiver.new fd doClose (chunks.map .data))
    (r.events.filterMap ReceiverEvent.message?).length + ReceiverEvent.skipTotal r.events = n := by
  obtain ⟨ps, hps, hindices, hwrap⟩ := hnumbered.positions
  obtain ⟨final, hfinal, hevents⟩ := Feed.feed_stream hbye hfits
  rw [← hchunks] at hfinal
  have hfinished := DBusLogReceiver.new_finished fd doClose hfinal hk
  have hmessages : [ReceiverEvent.closed].filterMap ReceiverEvent.message? = [] := rfl
  have hskips : ReceiverEvent.skipTotal [ReceiverEvent.closed] = 0 := rfl
  simp only [hfinished.events, List.filterMap_append, hmessages, List.append_nil,
    ReceiverEvent.skipTotal_append, hskips, Nat.add_zero, hevents]
  exact ReceiverEvent.announceAll_accounts hps hindices hwrap

/-- Loss accounting. A sender is created in any state that a core with room for two messages has
reached, and closed and drained after the calls `ops`. The messages that the receiver emits and
those that its SKIP signals count are the accepted calls, when each message fits for which a packet
is prepared and no overflow takes the message with the largest index. -/
theorem lossAccounting (backlog : Int32) (removedHandlers : Bool) (before : List CoreOp)
    (c₀ c : DBusLogCore) (name : String) (readfd writefd : Nat) (ops drain : List CoreOp)
    (bye : Bool) (answers : List WriteAnswer) (s : DBusLogSender) (fd : Nat) (doClose : Bool)
    (chunks : List (List UInt8)) (k : Nat) (hbacklog : backlog ≠ 1)
    (hbefore : (new backlog removedHandlers).run before = some c₀)
    (hops : ∀ op ∈ ops ++ drain, op.Undisturbed c₀.objects.length) (hclean : .error ∉ answers)
    (hrun : (c₀.newSender name (some (readfd, writefd))).2.run
      (ops ++ .sender c₀.objects.length (.close bye answers) :: drain) = some c)
    (hsafe : Runs.Meets step (LossSafe c₀.objects.length)
      (c₀.newSender name (some (readfd, writefd))).2
      (ops ++ .sender c₀.objects.length (.close bye answers) :: drain))
    (hsender : c.senderAt c₀.objects.length = some s) (hdrained : s.Idle)
    (hchunks : chunks.flatten = s.accepted)
    (hk : chunks.flatten.length + chunks.length ≤ k) :
    let r := (DBusLogReceiver.dispatch ReceiverHandlers.passive)^[k]
      (DBusLogReceiver.new fd doClose (chunks.map .data))
    (r.events.filterMap ReceiverEvent.message?).length + ReceiverEvent.skipTotal r.events =
      ((c₀.newSender name (some (readfd, writefd))).2.acceptedCalls ops).length := by
  obtain ⟨hsound, hkept⟩ := run_backlog hbefore
  have hstart := newSender_serving hsound name
    (by rw [hkept]; exact new_roomForTwo name hbacklog readfd writefd)
  -- the run falls into the calls, the close and the draining
  obtain ⟨c₁, hcalls, hrest⟩ := Runs.run_append_iff.mp hrun
  obtain ⟨c₂, hclose, hdrain⟩ := Runs.run_cons_iff.mp hrest
  have hsafe₁ := Runs.meets_append hsafe hcalls
  obtain ⟨s₁, l, hserving⟩ := run_serving hstart
    (Runs.meets_and
      (Runs.meets_of_forall (fun op hop => hops op (List.mem_append_left _ hop)) _)
      (Runs.meets_prefix hsafe)) hcalls
  obtain ⟨s₂, hdraining⟩ := hserving.close hclean hclose
  obtain ⟨s₃, hdrained'⟩ := run_draining hdraining
    (Runs.meets_and
      (Runs.meets_of_forall (fun op hop => hops op (List.mem_append_right _ hop)) _)
      (hsafe₁.2 c₂ hclose)) hdrain
  cases hsender.symm.trans hdrained'.sender
  have hnumbered : Numbered _ _ { l with closed := true } := hserving.numbered.of_messages rfl
  obtain ⟨haccepted, hfits⟩ := hdrained'.tracked.stream.drained hdrained'.closed hdrained
  exact receiver_accounts hnumbered hfits hdraining.tracked.accounted.noBye fd doClose
    (hchunks.trans haccepted) hk

/-! ## Runs of one sender with a queue of two -/

/-- A log call while the channel takes nothing. -/
def stuckLog : CoreOp := .log ⟨false, 1, fun _ => []⟩ Level.info none (some [65])

/-- The channel of a sender takes one message of one byte. -/
def takeMessage (i : Nat) : CoreOp := .sender i (.watch 1 true [.accept 22, .accept 1])

/-- The channel of a sender takes what is left, down to BYE. -/
def takeBye (i : Nat) : CoreOp := .sender i (.watch 1 true [.accept 5])

/-- Four calls, of which the last one finds the queue full and drops the third. -/
theorem lossAccounting_overflow :
    ∃ c s, ((new 2 true).newSender "peer" (some (3, 4))).2.run
        ([stuckLog, stuckLog, stuckLog, stuckLog] ++ .sender 0 (.close true []) ::
          [takeMessage 0, takeMessage 0, takeMessage 0, takeBye 0]) = some c ∧
      c.senderAt 0 = some s ∧
      let r := (DBusLogReceiver.dispatch ReceiverHandlers.passive)^[100]
        (DBusLogReceiver.new 3 true ([s.accepted].map .data))
      (r.events.filterMap ReceiverEvent.message?).length +
        ReceiverEvent.skipTotal r.events = 4 := by
  obtain ⟨c, hc, he⟩ := Option.map_eq_some_iff.mp (by decide :
    (((new 2 true).newSender "peer" (some (3, 4))).2.run
      ([stuckLog, stuckLog, stuckLog, stuckLog] ++ .sender 0 (.close true []) ::
        [takeMessage 0, takeMessage 0, takeMessage 0, takeBye 0])).map
      (fun c => (c.senderAt 0).map fun s => (decide s.Idle, s.accepted.length)) =
      some (some (true, 74)))
  obtain ⟨s, hs, hidle⟩ := Option.map_eq_some_iff.mp he
  simp only [Prod.mk.injEq, decide_eq_true_eq] at hidle
  refine ⟨c, s, hc, hs, ?_⟩
  refine lossAccounting 2 true [] (new 2 true) c "peer" 3 4
    [stuckLog, stuckLog, stuckLog, stuckLog] [takeMessage 0, takeMessage 0, takeMessage 0, takeBye 0]
    true [] s 3 true [s.accepted] 100 (by decide) rfl (by decide) (by decide) hc (by decide) hs
    hidle.1 (List.append_nil _) ?_
  rw [List.flatten_singleton, hidle.2]
  exact (by decide : 74 + 1 ≤ 100)

/-- A core whose only sender is closed with a message in flight, after more calls. -/
def agedCore (next : UInt32) (handed : List (Nat × DBusLogMessage)) : DBusLogCore :=
  { (((new 2 true).run [.newSender "old" (some (3, 4)), stuckLog, .sender 0 (.close true [])]).getD
      (new 2 true)) with
    nextMsgIndex := next
    handed := handed }

/-- What `n` calls hand to the closed sender. -/
@[irreducible] def agedHanded : Nat → UInt32 → List (Nat × DBusLogMessage) → List (Nat × DBusLogMessage)
  | 0, _, handed => handed
  | n + 1, next, handed => agedHanded n (next + 1) (handed ++ [(0,
      { DBusLogMessage.new (some [65]) with timestamp := 1, index := next, level := Level.info })])

/-- The calls that a closed sender ignores count all the same. -/
theorem agedCore_run (n : Nat) (next : UInt32) (handed : List (Nat × DBusLogMessage)) :
    (agedCore next handed).run (List.replicate n stuckLog) =
      some (agedCore (next + UInt32.ofNat n) (agedHanded n next handed)) := by
  induction n generalizing next handed with
  | zero =>
    rw [show next + UInt32.ofNat 0 = next from UInt32.add_zero next, agedHanded]
    rfl
  | succ n ih =>
    have hstep : (agedCore next handed).step stuckLog = some (agedCore (next + 1) (handed ++ [(0,
      { DBusLogMessage.new (some [65]) with
        timestamp := 1, index := next, level := Level.info })])) := rfl
    rw [List.replicate_succ, run, Runs.run_cons, hstep, Option.bind_some]
    rw [show next + UInt32.ofNat (n + 1) = next + 1 + UInt32.ofNat n by
      rw [UInt32.ofNat_add, UInt32.add_comm (UInt32.ofNat n), ← UInt32.add_assoc]
      rfl]
    rw [agedHanded]
    exact ih (next + 1) _

/-- What the closed sender has been handed before it was closed. -/
def firstHanded : List (Nat × DBusLogMessage) :=
  [(0, { DBusLogMessage.new (some [65]) with timestamp := 1, level := Level.info })]

theorem agedCore_reached (n : Nat) : (new 2 true).run ([.newSender "old" (some (3, 4)), stuckLog,
    .sender 0 (.close true [])] ++ List.replicate n stuckLog) =
      some (agedCore (1 + UInt32.ofNat n) (agedHanded n 1 firstHanded)) := by
  rw [run, Runs.run_append]
  exact agedCore_run n 1 firstHanded

/-- The messages of four calls have the indices from 2^32 - 3 on. The third one, which has the
largest index, is dropped, and the receiver counts 2^32 - 1 instead of 1. -/
theorem skip_wrapInGap :
    ∃ c₀ c s, (new 2 true).run ([.newSender "old" (some (3, 4)), stuckLog,
        .sender 0 (.close true [])] ++ List.replicate (2 ^ 32 - 4) stuckLog) = some c₀ ∧
      (c₀.newSender "peer" (some (5, 6))).2.run
        ([stuckLog, stuckLog, stuckLog, stuckLog] ++ .sender 1 (.close true []) ::
          [takeMessage 1, takeMessage 1, takeMessage 1, takeBye 1]) = some c ∧
      ((c₀.newSender "peer" (some (5, 6))).2.acceptedCalls
        [stuckLog, stuckLog, stuckLog, stuckLog]).length = 4 ∧
      c.senderAt 1 = some s ∧ s.Idle ∧
      let r := (DBusLogReceiver.dispatch ReceiverHandlers.passive)^[100]
        (DBusLogReceiver.new 3 true ([s.accepted].map .data))
      r.io = none ∧ (r.events.filterMap ReceiverEvent.message?).length = 3 ∧
        ReceiverEvent.skipTotal r.events = 2 ^ 32 - 1 := by
  obtain ⟨c, hc, he⟩ := Option.map_eq_some_iff.mp (by decide +kernel :
    (((agedCore (1 + UInt32.ofNat (2 ^ 32 - 4)) (agedHanded (2 ^ 32 - 4) 1 firstHanded)).newSender
      "peer" (some (5, 6))).2.run
      ([stuckLog, stuckLog, stuckLog, stuckLog] ++ .sender 1 (.close true []) ::
        [takeMessage 1, takeMessage 1, takeMessage 1, takeBye 1])).map
      (fun c => (c.senderAt 1).map fun s =>
        let r := (DBusLogReceiver.dispatch ReceiverHandlers.passive)^[100]
          (DBusLogReceiver.new 3 true ([s.accepted].map .data))
        (decide s.Idle, decide (r.io = none), (r.events.filterMap ReceiverEvent.message?).length,
          ReceiverEvent.skipTotal r.events)) = some (some (true, true, 3, 2 ^ 32 - 1)))
  obtain ⟨s, hs, he⟩ := Option.map_eq_some_iff.mp he
  simp only [Prod.mk.injEq, decide_eq_true_eq] at he
  exact ⟨_, c, s, agedCore_reached _, hc, by decide +kernel, hs, he⟩

end DBusLogCore

end DBusLog

import DBusLog.Core.Loss
import DBusLog.Core.Projection
import DBusLog.Sender.Draining

/-!
# Nothing is lost where there is room

A sender whose ring is never full when a log call finds it busy keeps every message, and with an
unlimited backlog that is always so. Closed and drained, it has sent the messages of all calls that
were accepted meanwhile, and the receiver emits exactly these, in order and without a SKIP.
-/

namespace DBusLog

namespace ReceiverEvent

/-- Messages with consecutive indices are announced without a SKIP signal. -/
theorem announceAll_consecutive {ms : List DBusLogMessage} {last : Option UInt32} {k : UInt32}
    (hlast : ∀ i ∈ last, i + 1 = k)
    (hms : ms.map (·.index) = (List.range ms.length).map fun p => k + UInt32.ofNat p) :
    announceAll last ms = ms.map fun m => .message m.received := by
  induction ms generalizing last k with
  | nil => rfl
  | cons m ms ih =>
    rw [List.length_cons, List.range_succ_eq_map, List.map_cons, List.map_cons, List.map_map,
      List.cons.injEq] at hms
    obtain ⟨hfirst, hrest⟩ := hms
    have hindex : m.index = k := hfirst.trans (UInt32.add_zero k)
    have hskip : skip? last m.index = none := by
      cases last with
      | none => rfl
      | some i =>
        unfold skip?
        rw [Option.bind_some, hindex, hlast i rfl]
        exact if_neg (not_not.mpr rfl)
    rw [announceAll, announce, hskip, List.map_cons]
    refine congrArg (ReceiverEvent.message m.received :: ·) (ih (k := k + 1) ?_ ?_)
    · intro i hi
      cases hi
      rw [hindex]
    · rw [hrest]
      refine List.map_congr_left fun p _ => ?_
      change k + UInt32.ofNat (p + 1) = k + 1 + UInt32.ofNat p
      rw [UInt32.ofNat_add, UInt32.add_comm (UInt32.ofNat p), ← UInt32.add_assoc]
      rfl

end ReceiverEvent

/-- The messages of accepted calls, the first of them under the given index. -/
def numberCalls : UInt32 → List AcceptedCall → List DBusLogMessage
  | _, [] => []
  | k, call :: calls => call.indexed k :: numberCalls (k + 1) calls

theorem numberCalls_concat (k : UInt32) (calls : List AcceptedCall) (call : AcceptedCall) :
    numberCalls k (calls ++ [call]) =
      numberCalls k calls ++ [call.indexed (k + UInt32.ofNat calls.length)] := by
  induction calls generalizing k with
  | nil =>
    change [call.indexed k] = [call.indexed (k + 0)]
    rw [UInt32.add_zero]
  | cons first calls ih =>
    rw [List.cons_append, numberCalls, numberCalls, ih, List.cons_append, List.length_cons,
      UInt32.ofNat_add, UInt32.add_comm (UInt32.ofNat calls.length), ← UInt32.add_assoc]
    rfl

theorem numberCalls_indices (k : UInt32) (calls : List AcceptedCall) :
    (numberCalls k calls).map (·.index) =
      (List.range (numberCalls k calls).length).map fun p => k + UInt32.ofNat p := by
  induction calls generalizing k with
  | nil => rfl
  | cons call calls ih =>
    rw [numberCalls, List.map_cons, ih, List.length_cons, List.range_succ_eq_map, List.map_cons,
      List.map_map]
    refine congrArg₂ List.cons (UInt32.add_zero k).symm (List.map_congr_left fun p _ => ?_)
    change k + 1 + UInt32.ofNat p = k + UInt32.ofNat (p + 1)
    rw [UInt32.ofNat_add, UInt32.add_comm (UInt32.ofNat p), ← UInt32.add_assoc]
    rfl

namespace DBusLogSender

/-! ## A send that finds room -/

/-- A step that finds the ring full does not pass a message to a busy sender. -/
def HasRoom (s : DBusLogSender) (a : SenderStep) : Prop :=
  ∀ m ∈ a.message?, ¬s.Idle → s.buffer.canPut 1 = true

section Room

variable {s t : DBusLogSender} {l : Ledger} {a : SenderStep}

theorem recordSend_room {msg : DBusLogMessage} (hdone : s.done = false)
    (hroom : ¬s.Idle → s.buffer.canPut 1 = true) :
    s.recordSend msg l = l.issue (.message msg) := by
  unfold recordSend
  rw [if_neg (by simp [hdone]), if_pos]
  by_cases hidle : s.Idle
  · exact .inl hidle
  · exact .inr (hroom hidle)

/-- An open sender with room keeps the message of the step. -/
theorem record_room (hdone : s.done = false) (hroom : s.HasRoom a) :
    WirePacket.messages (s.record a l).kept =
      WirePacket.messages l.kept ++ a.message?.toList := by
  have hsend : ∀ msg ∈ a.message?, WirePacket.messages (s.recordSend msg l).kept =
      WirePacket.messages l.kept ++ [msg] := by
    intro msg hmsg
    rw [recordSend_room hdone (hroom msg hmsg)]
    exact WirePacket.messages_append _ _
  cases hmessage : a.message? with
  | none =>
    rw [record_messages hmessage]
    exact (List.append_nil _).symm
  | some msg =>
    rw [Option.toList_some, ← hsend msg hmessage]
    cases a with
    | workerSend m =>
      cases hmessage
      rfl
    | send m _ =>
      cases hmessage
      rfl
    | _ => cases hmessage

end Room

/-! ## A clean run on the main thread -/

/-- The ledger tells what a sender has sent and is to send. -/
structure Accurate (s : DBusLogSender) (l : Ledger) : Prop where
  watches : WatchInv s
  stream : StreamInv True s l
  ring : ∀ m ∈ s.buffer.items, m.Fits
  accounted : Accounted l

/-- The step is taken on the main thread, its message fits and its writes succeed. -/
def Proper (a : SenderStep) : Prop := a.OnMainThread ∧ a.Clean ∧ ∀ m ∈ a.message?, m.Fits

section Accurate

variable {s t : DBusLogSender} {l : Ledger} {steps : List SenderStep}

theorem Accurate.new (name : String) (backlog : Int32) (readfd writefd : Nat) :
    Accurate (.new name backlog readfd writefd) Ledger.empty :=
  ⟨.new name backlog readfd writefd, .new _ name backlog readfd writefd,
    fun _ hm => absurd hm List.not_mem_nil, accounted_empty⟩

theorem Accurate.run (h : Accurate s l) (hsteps : ∀ a ∈ steps, Proper a)
    (hrun : s.run steps = some t) : Accurate t (Runs.history record step s steps l) := by
  refine Runs.history_invariant (C := fun _ => Proper) (fun s a s' l h hc hs => ?_)
    (Runs.meets_of_forall hsteps s) hrun h
  obtain ⟨hmain, hclean, hfits⟩ := hc
  exact ⟨h.watches.step (CallbackSafe.of_onMainThread hmain s) hs,
    h.stream.step h.watches hmain (preparesFit_of h.ring hfits) (fun _ => hclean) hs,
    step_fits h.ring hfits hs, h.accounted.record h.stream a⟩

theorem Accurate.opened (h : Accurate s l) (hdone : s.done = false) : s.io.isSome := by
  cases h.stream with
  | quiet hio _ _ => exact hio
  | busy hio _ _ _ _ => exact hio
  | closed h => cases hdone.symm.trans h.done

end Accurate

end DBusLogSender

namespace DBusLogCore

/-- The message of an accepted call fits. -/
def FitsWhenAccepted (c : DBusLogCore) (op : CoreOp) : Prop :=
  ∀ call ∈ c.acceptedCall op, call.message.Fits

instance (c : DBusLogCore) (op : CoreOp) : Decidable (c.FitsWhenAccepted op) :=
  inferInstanceAs (Decidable (∀ call ∈ c.acceptedCall op, call.message.Fits))

/-- An accepted call does not find the ring of the sender `i` full while a packet is in flight. -/
def RoomFor (i : Nat) (c : DBusLogCore) (op : CoreOp) : Prop :=
  (c.acceptedCall op).isSome → ∀ s ∈ c.senderAt i, ¬s.Idle → s.buffer.canPut 1 = true

instance (i : Nat) (c : DBusLogCore) (op : CoreOp) : Decidable (RoomFor i c op) :=
  inferInstanceAs (Decidable
    (_ → ∀ s ∈ c.senderAt i, ¬s.Idle → s.buffer.canPut 1 = true))

section Steps

variable {i : Nat} {c c' : DBusLogCore} {op : CoreOp} {s : DBusLogSender} {l : Ledger}

/-! ## One step -/

/-- What an operation makes a sender do: nothing, a callback of its own, or a send. -/
theorem senderSteps_cases (i : Nat) (h : Sound [] c) (hs : c.step op = some c') :
    (c.acceptedCall op = none ∧ c.nextMsgIndex = c'.nextMsgIndex ∧
      (c.senderSteps i op = [] ∨
        ∃ a, op = .sender i a ∧ a.message? = none ∧ c.senderSteps i op = [a])) ∨
    ∃ ctx call, op.context? = some ctx ∧ c.acceptedCall op = some call ∧
      c'.nextMsgIndex = c.nextMsgIndex + 1 ∧ c.senderSteps i op =
        if i ∈ c.registered then [handStep ctx (call.indexed c.nextMsgIndex) i] else [] := by
  obtain ⟨hnone, hsilent⟩ | ⟨ctx, call, hctx, hcall, hsenders, hbroadcast⟩ := step_cases h hs
  · refine .inl ⟨hnone, hsilent.nextMsgIndex.symm, ?_⟩
    by_cases htarget : some i = op.target
    · cases op with
      | sender j a =>
        cases htarget
        exact .inr ⟨a, rfl, (Option.ite_none_right_eq_some.mp hs).1, if_pos rfl⟩
      | _ => exact .inl (congrArg Option.toList (broadcastStep_none (i := i) hnone))
    · exact .inl (senderSteps_silent hnone htarget)
  · exact .inr ⟨ctx, call, hctx, hcall, hbroadcast.tables.nextMsgIndex,
      senderSteps_accepted hctx hcall hsenders⟩

/-- The sender `i`, with a ledger that is right about it. -/
structure Followed (i : Nat) (c : DBusLogCore) (s : DBusLogSender) (l : Ledger) : Prop
    extends DBusLogSender.Accurate s l where
  sound : Sound [] c
  connected : Connected c
  sender : c.senderAt i = some s

theorem Followed.step (h : Followed i c s l)
    (hsteps : ∀ a ∈ c.senderSteps i op, DBusLogSender.Proper a) (hs : c.step op = some c') :
    ∃ s', s.run (c.senderSteps i op) = some s' ∧
      (i ∈ c'.registered ↔ i ∈ c.registered ∧ s'.io.isSome ∧ op ≠ .removeSender i) ∧
      Followed i c' s'
        (Runs.history DBusLogSender.record DBusLogSender.step s (c.senderSteps i op) l) := by
  obtain ⟨s', hrun, hsender, hregistered⟩ := step_advanced h.sound h.connected h.sender hs
  exact ⟨s', hrun, hregistered, h.toAccurate.run hsteps hrun, step_sound h.sound hs,
    step_connected h.sound h.connected hs, hsender⟩

/-- What an undisturbed sender does. -/
theorem senderSteps_undisturbed (h : Sound [] c) (hop : op.Undisturbed i)
    (hfits : c.FitsWhenAccepted op) (hs : c.step op = some c') :
    ∀ a ∈ c.senderSteps i op, DBusLogSender.Proper a ∧ ¬a.Closes := by
  intro a ha
  obtain ⟨_, _, hnil | ⟨b, rfl, hmessage, hone⟩⟩ | ⟨ctx, call, hctx, hcall, _, hsend⟩ :=
    senderSteps_cases i h hs
  · rw [hnil] at ha
    cases ha
  · rw [hone, List.mem_singleton] at ha
    subst ha
    obtain ⟨hmain, hclean, hclose⟩ := hop rfl
    refine ⟨⟨hmain, hclean, fun m hm => ?_⟩, hclose⟩
    rw [hmessage] at hm
    cases hm
  · obtain ⟨hworker, hclean⟩ := hop.context hctx
    rw [hsend] at ha
    split at ha
    · rw [List.mem_singleton, handStep_main hworker] at ha
      subst ha
      refine ⟨⟨trivial, hclean, fun m hm => ?_⟩, id⟩
      cases hm
      exact hfits call hcall
    · cases ha

end Steps

/-! ## While the calls are made -/

/-- The sender `i` has been handed the messages of all accepted calls and has lost none. -/
structure Attended (i : Nat) (first : UInt32) (c : DBusLogCore) (s : DBusLogSender) (l : Ledger)
    (calls : List AcceptedCall) : Prop extends Followed i c s l where
  registered : i ∈ c.registered
  next : c.nextMsgIndex = first + UInt32.ofNat calls.length
  opened : s.done = false
  messages : WirePacket.messages l.kept = numberCalls first calls

section Attended

variable {i : Nat} {first : UInt32} {c c' : DBusLogCore} {op : CoreOp} {s : DBusLogSender}
  {l : Ledger} {calls : List AcceptedCall}

/-- What one step of the sender does to the messages kept. -/
theorem history_toList {a : SenderStep} {s' : DBusLogSender} (hs : s.run [a] = some s') :
    Runs.history DBusLogSender.record DBusLogSender.step s [a] l = s.record a l := by
  obtain ⟨t, ht, _⟩ := Runs.run_cons_iff.mp hs
  rw [Runs.history_cons ht]
  rfl

theorem Attended.step (h : Attended i first c s l calls) (hop : op.Undisturbed i)
    (hfits : c.FitsWhenAccepted op) (hroom : RoomFor i c op) (hs : c.step op = some c') :
    ∃ s' l', Attended i first c' s' l' (recordCall c op calls) := by
  have hsteps := senderSteps_undisturbed h.sound hop hfits hs
  obtain ⟨s', hrun, hregistered, hfollowed⟩ := h.toFollowed.step (fun a ha => (hsteps a ha).1) hs
  suffices hkept : s'.done = false ∧ WirePacket.messages
      (Runs.history DBusLogSender.record DBusLogSender.step s (c.senderSteps i op) l).kept =
        numberCalls first (recordCall c op calls) ∧
      c'.nextMsgIndex = first + UInt32.ofNat (recordCall c op calls).length by
    obtain ⟨hopened, hmessages, hnext⟩ := hkept
    refine ⟨s', _, hfollowed, hregistered.mpr ⟨h.registered, hfollowed.opened hopened, ?_⟩, hnext,
      hopened, hmessages⟩
    rintro rfl
    exact hop rfl
  have hdone := hfollowed.stream.done
  obtain ⟨hnone, hnext, hnil | ⟨a, _, hmessage, hone⟩⟩ | ⟨ctx, call, _, hcall, hnext, hsend⟩ :=
    senderSteps_cases i h.sound hs
  · rw [hnil] at hrun hdone ⊢
    cases hrun
    unfold recordCall
    rw [hnone, ← hnext, Option.toList_none, List.append_nil]
    exact ⟨h.opened, h.messages, h.next⟩
  · rw [hone] at hrun hdone ⊢
    rw [history_toList hrun] at hdone ⊢
    have hclose := (hsteps a (by simp [hone])).2
    rw [DBusLogSender.record_closed hclose, ← h.stream.done, h.opened] at hdone
    unfold recordCall
    rw [hnone, ← hnext, DBusLogSender.record_messages hmessage]
    exact ⟨hdone, by simpa using h.messages, by simpa using h.next⟩
  · rw [if_pos h.registered] at hsend
    rw [hsend] at hrun hdone ⊢
    have hclose := (hsteps _ (by rw [hsend]; exact List.mem_singleton_self _)).2
    rw [history_toList hrun] at hdone ⊢
    rw [DBusLogSender.record_closed hclose, ← h.stream.done, h.opened] at hdone
    unfold recordCall
    rw [hcall, Option.toList_some]
    refine ⟨hdone, ?_, ?_⟩
    · rw [DBusLogSender.record_room h.opened, h.messages, handStep_message, numberCalls_concat,
        h.next]
      · rfl
      · intro m _ hbusy
        exact hroom (by rw [hcall]; rfl) s h.sender hbusy
    · rw [hnext, h.next, List.length_append, UInt32.ofNat_add, UInt32.add_assoc]
      rfl

theorem run_attended {ops : List CoreOp} (h : Attended i first c s l [])
    (hops : ∀ op ∈ ops, op.Undisturbed i) (hfits : Runs.Meets DBusLogCore.step FitsWhenAccepted c ops)
    (hroom : Runs.Meets DBusLogCore.step (RoomFor i) c ops) (hrun : c.run ops = some c') :
    ∃ s' l', Attended i first c' s' l' (c.acceptedCalls ops) :=
  Runs.history_invariant (f := recordCall) (P := fun c calls => ∃ s l, Attended i first c s l calls)
    (fun _ _ _ _ ⟨_, _, h⟩ hc hs => h.step hc.1.1 hc.1.2 hc.2 hs)
    (Runs.meets_and (Runs.meets_and (Runs.meets_of_forall hops c) hfits) hroom) hrun ⟨s, l, h⟩

end Attended

/-! ## From the close on -/

section Closed

variable {i : Nat} {c c' : DBusLogCore} {s : DBusLogSender} {l : Ledger}

theorem Followed.close (h : Followed i c s l) (hopened : s.done = false) {bye : Bool}
    {answers : List WriteAnswer} (hclean : .error ∉ answers)
    (hs : c.step (.sender i (.close bye answers)) = some c') :
    ∃ s', s'.done = true ∧ Followed i c' s' { l with closed := true } := by
  have hsteps : c.senderSteps i (.sender i (.close bye answers)) = [.close bye answers] := if_pos rfl
  obtain ⟨s', hrun, _, hfollowed⟩ := h.step (by
    intro a ha
    rw [hsteps, List.mem_singleton] at ha
    subst ha
    exact ⟨trivial, hclean, fun _ hm => (nomatch hm)⟩) hs
  have hrec : s.record (.close bye answers) l = { l with closed := true } :=
    if_neg (by rw [hopened]; exact Bool.false_ne_true)
  rw [hsteps] at hrun hfollowed
  rw [history_toList hrun, hrec] at hfollowed
  exact ⟨s', hfollowed.stream.done, hfollowed⟩

theorem run_closed {ops : List CoreOp} (h : Followed i c s l) (hdone : s.done = true)
    (hops : ∀ op ∈ ops, op.Undisturbed i) (hfits : Runs.Meets DBusLogCore.step FitsWhenAccepted c ops)
    (hrun : c.run ops = some c') : ∃ s', s'.done = true ∧ Followed i c' s' l := by
  refine Runs.invariant_of_meets (P := fun c => ∃ s, s.done = true ∧ Followed i c s l) ?_
    (Runs.meets_and (Runs.meets_of_forall hops c) hfits) hrun ⟨s, hdone, h⟩
  intro c op c' ⟨s, hdone, h⟩ ⟨hop, hfits⟩ hs
  have hsteps := senderSteps_undisturbed h.sound hop hfits hs
  obtain ⟨s', hrun, _, hfollowed⟩ := h.step (fun a ha => (hsteps a ha).1) hs
  rw [DBusLogSender.ledger_done hdone l hrun] at hfollowed
  exact ⟨s', Runs.invariant_of_forall (C := fun _ => True)
    (fun _ _ _ h _ hs => DBusLogSender.step_done h hs) (fun _ _ => trivial) hrun hdone, hfollowed⟩

end Closed

/-! ## Created, closed and drained -/

theorem newSender_attended {c : DBusLogCore} (h : Sound [] c) (hc : Connected c) (name : String)
    (readfd writefd : Nat) :
    Attended c.objects.length c.nextMsgIndex (c.newSender name (some (readfd, writefd))).2
      (.new name c.backlog readfd writefd) Ledger.empty [] := by
  have hnew := newSender_represents h hc name readfd writefd
  refine ⟨⟨.new name c.backlog readfd writefd, hnew.sound, hnew.connected, hnew.sender⟩, ?_, ?_,
    rfl, rfl⟩
  · exact hnew.registered.mpr ⟨rfl, List.not_mem_nil⟩
  · rw [(newSender_silent h name (some (readfd, writefd))).nextMsgIndex]
    exact (UInt32.add_zero _).symm

/-- A sender without a bound has room for every call. -/
theorem run_unbounded {i : Nat} {c : DBusLogCore} {s : DBusLogSender} (h : Represents i [] c s)
    (hsize : s.buffer.maxSize = none) (ops : List CoreOp) : Runs.Meets step (RoomFor i) c ops := by
  refine Runs.meets_of_split fun before op after c' _ hrun => ?_
  obtain ⟨s', hsteps, hlast⟩ := Runs.run_projection (C := fun _ _ => True) (R := Represents i)
    (fun _ _ _ _ _ h _ hs => h.step hs)
    (Runs.meets_of_forall (C := fun _ => True) (fun _ _ => trivial) _) hrun h
  have hsize' : s'.buffer.maxSize = none :=
    Runs.invariant_of_forall (C := fun _ => True) (P := fun s => s.buffer.maxSize = none)
      (fun _ _ _ h _ hs => DBusLogSender.step_maxSize h hs) (fun _ _ => trivial) hsteps hsize
  intro _ t ht _
  cases hlast.sender.symm.trans ht
  rw [BoundedRing.canPut_one_iff, hsize']
  exact fun n hn => (nomatch hn)

theorem new_unbounded (name : String) {backlog : Int32} (h : backlog < 0) (readfd writefd : Nat) :
    (DBusLogSender.new name (DBusLogSender.normalizeBacklog backlog) readfd
      writefd).buffer.maxSize = none := by
  have hneg : DBusLogSender.normalizeBacklog backlog = -1 := by
    have hlt : backlog.toInt < 0 := Int32.lt_iff_toInt_lt.mp h
    unfold DBusLogSender.normalizeBacklog
    rw [if_neg, if_neg]
    · rintro rfl
      exact absurd hlt (by decide)
    · intro hpos
      have hgt : 0 < backlog.toInt := Int32.lt_iff_toInt_lt.mp hpos
      omega
  rw [hneg]
  rfl

/-- Messages numbered through reach the receiver without a SKIP. -/
theorem receiver_lossless {k : UInt32} {calls : List AcceptedCall} {l : Ledger}
    (hmessages : WirePacket.messages l.kept = numberCalls k calls)
    (hfits : ∀ m ∈ WirePacket.messages l.kept, m.Fits) (hbye : .bye ∉ l.kept) (fd : Nat)
    (doClose : Bool) {chunks : List (List UInt8)}
    (hchunks : chunks.flatten = WirePacket.encodeAll (l.kept ++ [.bye])) {n : Nat}
    (hn : chunks.flatten.length + chunks.length ≤ n) :
    ((DBusLogReceiver.dispatch ReceiverHandlers.passive)^[n]
      (DBusLogReceiver.new fd doClose (chunks.map .data))).events =
        (numberCalls k calls).map (fun m => .message m.received) ++ [.closed] := by
  obtain ⟨final, hfinal, hevents⟩ := Feed.feed_stream hbye hfits
  rw [← hchunks] at hfinal
  rw [(DBusLogReceiver.new_finished fd doClose hfinal hn).events, hevents, hmessages,
    ReceiverEvent.announceAll_consecutive (k := k) (by simp) (numberCalls_indices k calls)]

/-- A sender is created in any state that a core can reach, and closed and drained after the calls
`ops`. When it has had room for every accepted call, which it always has if the backlog is
unlimited, the receiver emits the messages of exactly these calls, in their order, then CLOSED, and
no SKIP. -/
theorem losslessDelivery (backlog : Int32) (removedHandlers : Bool) (before : List CoreOp)
    (c₀ c : DBusLogCore) (name : String) (readfd writefd : Nat) (ops drain : List CoreOp)
    (bye : Bool) (answers : List WriteAnswer) (s : DBusLogSender) (fd : Nat) (doClose : Bool)
    (chunks : List (List UInt8)) (k : Nat)
    (hbefore : (new backlog removedHandlers).run before = some c₀)
    (hops : ∀ op ∈ ops ++ drain, op.Undisturbed c₀.objects.length) (hclean : .error ∉ answers)
    (hrun : (c₀.newSender name (some (readfd, writefd))).2.run
      (ops ++ .sender c₀.objects.length (.close bye answers) :: drain) = some c)
    (hfits : Runs.Meets step FitsWhenAccepted (c₀.newSender name (some (readfd, writefd))).2
      (ops ++ .sender c₀.objects.length (.close bye answers) :: drain))
    (hroom : backlog < 0 ∨ Runs.Meets step (RoomFor c₀.objects.length)
      (c₀.newSender name (some (readfd, writefd))).2 ops)
    (hsender : c.senderAt c₀.objects.length = some s) (hdrained : s.Idle)
    (hchunks : chunks.flatten = s.accepted)
    (hk : chunks.flatten.length + chunks.length ≤ k) :
    ((DBusLogReceiver.dispatch ReceiverHandlers.passive)^[k]
      (DBusLogReceiver.new fd doClose (chunks.map .data))).events =
        (numberCalls c₀.nextMsgIndex
          ((c₀.newSender name (some (readfd, writefd))).2.acceptedCalls ops)).map
            (fun m => .message m.received) ++ [.closed] := by
  obtain ⟨hsound, hconnected⟩ := run_connected hbefore
  have hroom : Runs.Meets step (RoomFor c₀.objects.length)
      (c₀.newSender name (some (readfd, writefd))).2 ops := by
    obtain hneg | hroom := hroom
    · refine run_unbounded (newSender_represents hsound hconnected name readfd writefd) ?_ ops
      rw [(run_backlog hbefore).2]
      exact new_unbounded name hneg readfd writefd
    · exact hroom
  -- the run falls into the calls, the close and the draining
  obtain ⟨c₁, hcalls, hrest⟩ := Runs.run_append_iff.mp hrun
  obtain ⟨c₂, hclose, hdrain⟩ := Runs.run_cons_iff.mp hrest
  obtain ⟨s₁, l, hattended⟩ := run_attended
    (newSender_attended hsound hconnected name readfd writefd)
    (fun op hop => hops op (List.mem_append_left _ hop)) (Runs.meets_prefix hfits) hroom hcalls
  obtain ⟨s₂, hdone, hclosed⟩ := hattended.toFollowed.close hattended.opened hclean hclose
  obtain ⟨s₃, hdone, hlast⟩ := run_closed hclosed hdone
    (fun op hop => hops op (List.mem_append_right _ hop))
    ((Runs.meets_append hfits hcalls).2 c₂ hclose) hdrain
  cases hsender.symm.trans hlast.sender
  obtain ⟨haccepted, hall⟩ := hlast.stream.drained hdone hdrained
  exact receiver_lossless (l := { l with closed := true }) hattended.messages hall
    hlast.accounted.noBye fd doClose (hchunks.trans haccepted) hk

/-- Three calls of which the channel takes none before the close. -/
theorem losslessDelivery_run :
    ∃ c s, ((new (-1) true).newSender "peer" (some (3, 4))).2.run
        ([stuckLog, stuckLog, stuckLog] ++ .sender 0 (.close true []) ::
          [takeMessage 0, takeMessage 0, takeMessage 0, takeBye 0]) = some c ∧
      c.senderAt 0 = some s ∧
      ((DBusLogReceiver.dispatch ReceiverHandlers.passive)^[100]
        (DBusLogReceiver.new 3 true ([s.accepted].map .data))).events =
          (numberCalls 0 (((new (-1) true).newSender "peer" (some (3, 4))).2.acceptedCalls
            [stuckLog, stuckLog, stuckLog])).map (fun m => .message m.received) ++ [.closed] := by
  obtain ⟨c, hc, he⟩ := Option.map_eq_some_iff.mp (by decide :
    (((new (-1) true).newSender "peer" (some (3, 4))).2.run
      ([stuckLog, stuckLog, stuckLog] ++ .sender 0 (.close true []) ::
        [takeMessage 0, takeMessage 0, takeMessage 0, takeBye 0])).map
      (fun c => (c.senderAt 0).map fun s => (decide s.Idle, s.accepted.length)) =
      some (some (true, 74)))
  obtain ⟨s, hs, hidle⟩ := Option.map_eq_some_iff.mp he
  simp only [Prod.mk.injEq, decide_eq_true_eq] at hidle
  refine ⟨c, s, hc, hs, ?_⟩
  refine losslessDelivery (-1) true [] (new (-1) true) c "peer" 3 4
    [stuckLog, stuckLog, stuckLog] [takeMessage 0, takeMessage 0, takeMessage 0, takeBye 0]
    true [] s 3 true [s.accepted] 100 rfl (by decide) (by decide) hc (by decide) (.inl (by decide))
    hs hidle.1 (List.append_nil _) ?_
  rw [List.flatten_singleton, hidle.2]
  exact (by decide : 74 + 1 ≤ 100)

end DBusLogCore

end DBusLog

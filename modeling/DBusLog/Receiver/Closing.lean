import DBusLog.Receiver.Nesting

/-!
# What a closed receiver does

A receiver may be closed by the application, by a handler of any of its signals, or by a failure of
its channel, at any moment of `read`. After that nothing more is read, and the descriptor has been
closed once. The only signal that can follow CLOSED is the MESSAGE that `read` still owes when the
handlers for a SKIP have closed the receiver.
-/

namespace DBusLog

namespace NestedReceiver

/-- The signals that are still to be emitted when the running handlers return. -/
def promised (frames : List ReceiverFrame) : List ReceiverEvent :=
  frames.filterMap fun
    | .skip msg => some (.message msg)
    | _ => none

/-- The channel is open, and the only watch is the recorded one. -/
structure Opened (fd : Nat) (s : NestedReceiver) : Prop where
  io : ∃ doClose, s.receiver.io = some (fd, doClose)
  closedFds : s.receiver.closedFds = []
  watches : s.receiver.watches =
    if s.receiver.readWatchId = 0 then [] else [s.receiver.readWatchId]
  paused : 0 < s.receiver.paused → s.receiver.readWatchId = 0
  called : pending s.frames = []
  owed : (promised s.frames).length ≤ 1
  closed : s.receiver.events.count .closed = 0

/-- The channel has been closed, and the only watch left is one whose callback is running. -/
structure Shut (fd : Nat) (s : NestedReceiver) : Prop where
  io : s.receiver.io = none
  closedFds : s.receiver.closedFds = [fd]
  packetBuffer : s.receiver.packetBuffer = none
  readWatchId : s.receiver.readWatchId = 0
  watches : s.receiver.watches = pending s.frames
  called : (pending s.frames).length ≤ 1
  owed : (promised s.frames).length ≤ 1
  closed : s.receiver.events.count .closed = 1

section Closing

variable {fd id : Nat} {r u : DBusLogReceiver} {s t : NestedReceiver} {frames : List ReceiverFrame}
  {frame : ReceiverFrame}

/-! ## Reading -/

theorem readPhase_closedFds {ph : PacketState.Phase} {out : ReadOutcome}
    (h : r.readPhase ph = (out, u)) : u.closedFds = r.closedFds := by
  have hchars : ∀ {count : Nat} {result : Option (List UInt8)} {v : DBusLogReceiver},
      r.readChars count = (result, v) → v.closedFds = r.closedFds := by
    intro count result v hv
    obtain ⟨input, rfl⟩ := DBusLogReceiver.readChars_frame hv
    rfl
  unfold DBusLogReceiver.readPhase at h
  split at h
  next hread =>
    cases h
    exact hchars hread
  next hread =>
    cases h
    exact hchars hread
  next bytes v _ hread =>
    rw [← hchars hread]
    cases hput : v.put bytes ph with
    | none =>
      rw [hput] at h
      cases h
      rfl
    | some q =>
      rw [hput] at h
      dsimp only at h
      split at h
      · cases h
        rfl
      · cases h
        rfl

theorem section_closedFds {ph : PacketState.Phase} {out : ReadOutcome} {limit : Nat}
    (h : (if r.packetRead < limit then r.readPhase ph else (.complete, r)) = (out, u)) :
    u.closedFds = r.closedFds := by
  split at h
  · exact readPhase_closedFds h
  · cases h
    rfl

theorem readPacket_closedFds {out : ReadOutcome} (h : r.readPacket = (out, u)) :
    u.closedFds = r.closedFds := by
  unfold DBusLogReceiver.readPacket at h
  rw [DBusLogReceiver.readHeader_eq] at h
  split at h
  next v hheader =>
    refine Eq.trans ?_ (section_closedFds hheader)
    rw [DBusLogReceiver.readFixedPart_eq] at h
    split at h
    next w hfixed =>
      refine Eq.trans ?_ (section_closedFds hfixed)
      rw [DBusLogReceiver.readData_eq] at h
      exact section_closedFds h
    next => exact section_closedFds h
  next => exact section_closedFds h

/-! ## An open receiver -/

theorem Opened.of_same (h : Opened fd s) (hsame : SameWatch s.receiver t.receiver)
    (hfds : t.receiver.closedFds = s.receiver.closedFds)
    (hpending : pending t.frames = pending s.frames)
    (hpromised : (promised t.frames).length ≤ 1) : Opened fd t where
  io := by
    rw [hsame.io]
    exact h.io
  closedFds := hfds.trans h.closedFds
  watches := by
    rw [hsame.live, hsame.recorded]
    exact h.watches
  paused hpos := by
    rw [hsame.paused] at hpos
    exact hsame.recorded.trans (h.paused hpos)
  called := hpending.trans h.called
  owed := hpromised
  closed := hsame.closed.trans h.closed

/-- An open receiver is closed; the frame is what comes after its CLOSED. -/
theorem shut_close (hio : ∃ doClose, s.receiver.io = some (fd, doClose))
    (hfds : s.receiver.closedFds = [])
    (hremaining : remaining s.receiver = pending (frame :: s.frames))
    (hpending : (pending (frame :: s.frames)).length ≤ 1)
    (hpromised : (promised (frame :: s.frames)).length ≤ 1)
    (hclosed : s.receiver.events.count .closed = 0) : Shut fd (s.close frame) := by
  obtain ⟨doClose, hio⟩ := hio
  unfold NestedReceiver.close
  rw [removeWatch_eq]
  dsimp only
  rw [hio]
  refine ⟨rfl, ?_, rfl, rfl, hremaining, hpending, hpromised, ?_⟩
  · show s.receiver.closedFds ++ [fd] = [fd]
    rw [hfds]
    rfl
  · show (s.receiver.events ++ [ReceiverEvent.closed]).count .closed = 1
    rw [List.count_append, hclosed]
    rfl

theorem Opened.remaining (h : Opened fd s) : remaining s.receiver = [] := by
  unfold NestedReceiver.remaining
  have hwatches := h.watches
  by_cases hid : s.receiver.readWatchId = 0
  · rw [if_pos hid] at hwatches ⊢
    exact hwatches
  · rw [if_neg hid] at hwatches ⊢
    rw [hwatches]
    simp

theorem Opened.close (h : Opened fd s) : Shut fd (s.close .closed) := by
  refine shut_close h.io h.closedFds ?_ ?_ h.owed h.closed
  · exact h.remaining.trans h.called.symm
  · exact (congrArg List.length h.called).le.trans (Nat.zero_le 1)

theorem Opened.pause (h : Opened fd s) :
    Opened fd { s with receiver := s.receiver.pause } := by
  unfold DBusLogReceiver.pause
  rw [removeWatch_eq]
  exact ⟨h.io, h.closedFds, h.remaining, fun _ => rfl, h.called, h.owed, h.closed⟩

theorem Opened.resume (h : Opened fd s) (hpos : 0 < s.receiver.paused) :
    Opened fd { s with receiver := s.receiver.resume } := by
  have hid := h.paused hpos
  have hwatches := h.watches
  rw [if_pos hid] at hwatches
  unfold DBusLogReceiver.resume
  rw [if_pos hpos]
  dsimp only
  split
  next hlast =>
    -- the watch is added with the last resume, after which nothing pauses the receiver
    refine ⟨h.io, h.closedFds, ?_, fun hagain => ?_, h.called, h.owed, h.closed⟩
    · show (s.receiver.lastWatchId + 1) :: s.receiver.watches = _
      rw [hwatches]
      rfl
    · dsimp only at hagain
      rw [hlast.1] at hagain
      exact absurd hagain (by decide)
  next => exact ⟨h.io, h.closedFds, h.watches, fun _ => hid, h.called, h.owed, h.closed⟩

/-- The main loop calls back for the recorded watch. -/
theorem Opened.dispatched (h : Opened fd s) (hid : id ∈ s.receiver.watches) :
    s.receiver.watches = [id] := by
  have hwatches := h.watches
  split at hwatches
  next =>
    rw [hwatches] at hid
    cases hid
  next =>
    rw [hwatches] at hid ⊢
    rw [List.mem_singleton.mp hid]

theorem Opened.fail (h : Opened fd s) (hframes : s.frames = [])
    (hid : id ∈ s.receiver.watches) : Shut fd (s.fail id) := by
  have hwatches := h.dispatched hid
  unfold NestedReceiver.fail
  refine shut_close h.io h.closedFds ?_ ?_ ?_ h.closed
  · show s.receiver.watches = pending (.removing id :: s.frames)
    rw [hwatches, hframes]
    rfl
  · show (pending (.removing id :: s.frames)).length ≤ 1
    rw [hframes]
    exact le_rfl
  · show (promised (.removing id :: s.frames)).length ≤ 1
    rw [hframes]
    exact Nat.zero_le 1

theorem Opened.emitMessage (h : Opened fd s) (msg : DBusLogMessage) :
    Opened fd (s.emitMessage msg) := by
  have hcount := count_closed_append s.receiver.events (e := .message msg) (by simp)
  exact h.of_same ⟨rfl, rfl, rfl, rfl, hcount⟩ rfl rfl h.owed

theorem Opened.handlePacket (h : Opened fd s) (hframes : s.frames = [])
    (hid : id ∈ s.receiver.watches) :
    Opened fd (s.handlePacket id) ∨ Shut fd (s.handlePacket id) := by
  unfold NestedReceiver.handlePacket
  split
  · have hbuffer : Opened fd { s with receiver := { s.receiver with packetBuffer := none } } :=
      h.of_same ⟨rfl, rfl, rfl, rfl, rfl⟩ rfl rfl h.owed
    dsimp only
    split
    next count _ =>
      have hcount := count_closed_append s.receiver.events (e := .skip count) (by simp)
      refine .inl (hbuffer.of_same ⟨rfl, rfl, rfl, rfl, hcount⟩ rfl rfl ?_)
      -- the message that this SKIP announces is the only one
      rw [hframes]
      exact le_rfl
    next => exact .inl (hbuffer.emitMessage s.receiver.receivedMessage)
  · have hreset : Opened fd { s with receiver := { s.receiver with
        packetSize := 0, packetFixedPart := 0, packetRead := 0, packetBuffer := none } } :=
      h.of_same ⟨rfl, rfl, rfl, rfl, rfl⟩ rfl rfl h.owed
    dsimp only
    split
    · exact .inr (hreset.fail hframes hid)
    · exact .inl hreset

theorem Opened.dispatch (h : Opened fd s) (hframes : s.frames = [])
    (hid : id ∈ s.receiver.watches) (inp : Bool) :
    Opened fd (s.dispatch id inp) ∨ Shut fd (s.dispatch id inp) := by
  unfold NestedReceiver.dispatch
  cases inp with
  | false => exact .inr (h.fail hframes hid)
  | true =>
    obtain ⟨out, u, hu⟩ : ∃ out u, s.receiver.readPacket = (out, u) := ⟨_, _, rfl⟩
    have hsame := readPacket_same hu
    have hread : Opened fd { s with receiver := u } :=
      h.of_same hsame (readPacket_closedFds hu) rfl h.owed
    have hid' : id ∈ u.watches := hsame.live.symm ▸ hid
    simp only [if_true, hu]
    cases out with
    | wait => exact .inl hread
    | fault => exact .inl hread
    | failed => exact .inr (hread.fail hframes hid')
    | complete => exact hread.handlePacket hframes hid'

theorem promised_pop (h : (promised (frame :: frames)).length ≤ 1) :
    (promised frames).length ≤ 1 := by
  refine le_trans ?_ h
  exact ((List.sublist_cons_self frame frames).filterMap _).length_le

theorem Opened.goOn (h : Opened fd ⟨r, frame :: frames⟩) :
    Opened fd (NestedReceiver.goOn ⟨r, frames⟩ frame) := by
  have hpromised := promised_pop h.owed
  cases frame with
  | skip msg =>
    have hpopped : Opened fd ⟨r, frames⟩ := h.of_same (.refl r) rfl rfl hpromised
    exact hpopped.emitMessage msg
  | message => exact h.of_same (.refl r) rfl rfl hpromised
  | closed => exact h.of_same (.refl r) rfl rfl hpromised
  | removing id => cases h.called

/-- Step lemma for an open receiver. -/
theorem Opened.step {op : ReceiverOp} (h : Opened fd s) (hs : s.step op = some t) :
    Opened fd t ∨ Shut fd t := by
  cases op with
  | pause =>
    cases hs
    exact .inl h.pause
  | resume =>
    obtain ⟨hpos, he⟩ := Option.ite_none_right_eq_some.mp hs
    cases he
    exact .inl (h.resume hpos)
  | close =>
    cases hs
    exact .inr h.close
  | dispatch id inp =>
    obtain ⟨⟨hframes, hid, _⟩, he⟩ := Option.ite_none_right_eq_some.mp hs
    cases he
    exact h.dispatch hframes hid inp
  | handlersReturn =>
    obtain ⟨r, frames⟩ := s
    cases frames with
    | nil => cases hs
    | cons frame frames =>
      cases hs
      exact .inl h.goOn

/-! ## A closed receiver -/

/-- Between `s` and `t` nothing has been read, and what has been emitted had been promised. -/
structure Silent (s t : NestedReceiver) : Prop where
  input : t.receiver.input = s.receiver.input
  said : ∃ said, promised s.frames = said ++ promised t.frames ∧
    t.receiver.events = s.receiver.events ++ said

theorem Silent.of_eq (hinput : t.receiver.input = s.receiver.input)
    (hpromised : promised t.frames = promised s.frames)
    (hevents : t.receiver.events = s.receiver.events) : Silent s t :=
  ⟨hinput, [], hpromised.symm, hevents.trans (List.append_nil _).symm⟩

theorem Silent.trans (h : Silent s t) {v : NestedReceiver} (h' : Silent t v) : Silent s v := by
  obtain ⟨said, hpromised, hevents⟩ := h.said
  obtain ⟨more, hpromised', hevents'⟩ := h'.said
  refine ⟨h'.input.trans h.input, said ++ more, ?_, ?_⟩
  · rw [hpromised, hpromised', List.append_assoc]
  · rw [hevents', hevents, List.append_assoc]

theorem Shut.remaining (h : Shut fd s) : remaining s.receiver = pending s.frames := by
  unfold NestedReceiver.remaining
  rw [if_pos h.readWatchId]
  exact h.watches

theorem Shut.pause (h : Shut fd s) : Shut fd { s with receiver := s.receiver.pause } ∧
    Silent s { s with receiver := s.receiver.pause } := by
  unfold DBusLogReceiver.pause
  rw [removeWatch_eq]
  exact ⟨⟨h.io, h.closedFds, h.packetBuffer, rfl, h.remaining, h.called, h.owed, h.closed⟩,
    .of_eq rfl rfl rfl⟩

theorem Shut.resume (h : Shut fd s) : Shut fd { s with receiver := s.receiver.resume } ∧
    Silent s { s with receiver := s.receiver.resume } := by
  have hio : ¬(s.receiver.paused - 1 = 0 ∧ s.receiver.io.isSome = true) := by
    rw [h.io]
    exact fun hlast => Bool.false_ne_true hlast.2
  unfold DBusLogReceiver.resume
  split
  · dsimp only
    rw [if_neg hio]
    exact ⟨⟨h.io, h.closedFds, h.packetBuffer, h.readWatchId, h.watches, h.called, h.owed,
      h.closed⟩, .of_eq rfl rfl rfl⟩
  · exact ⟨h, .of_eq rfl rfl rfl⟩

/-- Closing it again. -/
theorem Shut.close (h : Shut fd s) : Shut fd (s.close .closed) ∧ Silent s (s.close .closed) := by
  unfold NestedReceiver.close
  rw [removeWatch_eq]
  dsimp only
  rw [h.io]
  exact ⟨⟨rfl, h.closedFds, rfl, rfl, h.remaining, h.called, h.owed, h.closed⟩,
    .of_eq rfl rfl rfl⟩

theorem Shut.goOn (h : Shut fd ⟨r, frame :: frames⟩) :
    Shut fd (NestedReceiver.goOn ⟨r, frames⟩ frame) ∧
      Silent ⟨r, frame :: frames⟩ (NestedReceiver.goOn ⟨r, frames⟩ frame) := by
  have howed := promised_pop h.owed
  cases frame with
  | skip msg =>
    -- the MESSAGE of `read`, which does not know that the receiver has been closed
    have hcount := count_closed_append r.events (e := .message msg) (by simp)
    refine ⟨⟨h.io, h.closedFds, h.packetBuffer, h.readWatchId, h.watches, h.called, howed,
      hcount.trans h.closed⟩, rfl, [.message msg], rfl, rfl⟩
  | message =>
    exact ⟨⟨h.io, h.closedFds, h.packetBuffer, h.readWatchId, h.watches, h.called, howed,
      h.closed⟩, .of_eq rfl rfl rfl⟩
  | closed =>
    exact ⟨⟨h.io, h.closedFds, h.packetBuffer, h.readWatchId, h.watches, h.called, howed,
      h.closed⟩, .of_eq rfl rfl rfl⟩
  | removing id =>
    have hnil : pending frames = [] := List.length_eq_zero_iff.mp
      (Nat.le_zero.mp (Nat.le_of_succ_le_succ h.called))
    refine ⟨⟨h.io, h.closedFds, h.packetBuffer, h.readWatchId, ?_, ?_, howed, h.closed⟩,
      .of_eq rfl rfl rfl⟩
    · show r.watches.filter (· ≠ id) = pending frames
      rw [show r.watches = id :: pending frames from h.watches, hnil]
      simp
    · show (pending frames).length ≤ 1
      rw [hnil]
      exact Nat.zero_le 1

/-- Step lemma for a closed receiver. -/
theorem Shut.step {op : ReceiverOp} (h : Shut fd s) (hs : s.step op = some t) :
    Shut fd t ∧ Silent s t := by
  cases op with
  | pause =>
    cases hs
    exact h.pause
  | resume =>
    obtain ⟨_, he⟩ := Option.ite_none_right_eq_some.mp hs
    cases he
    exact h.resume
  | close =>
    cases hs
    exact h.close
  | dispatch id inp =>
    -- the main loop has no watch to call back for
    obtain ⟨⟨hframes, hid, _⟩, _⟩ := Option.ite_none_right_eq_some.mp hs
    rw [h.watches, hframes] at hid
    cases hid
  | handlersReturn =>
    obtain ⟨r, frames⟩ := s
    cases frames with
    | nil => cases hs
    | cons frame frames =>
      cases hs
      exact h.goOn

/-! ## Runs -/

theorem new_opened (fd : Nat) (doClose : Bool) (input : List ReadAnswer) :
    Opened fd ⟨.new fd doClose input, []⟩ := by
  rw [DBusLogReceiver.new_eq]
  exact ⟨⟨doClose, rfl⟩, rfl, rfl, fun hpos => absurd hpos Int32.lt_irrefl, rfl,
    Nat.zero_le 1, rfl⟩

theorem Shut.run {ops : List ReceiverOp} (h : Shut fd s)
    (hrun : Runs.run NestedReceiver.step s ops = some t) : Shut fd t ∧ Silent s t := by
  induction ops generalizing s with
  | nil =>
    cases hrun
    exact ⟨h, .of_eq rfl rfl rfl⟩
  | cons op ops ih =>
    obtain ⟨v, hv, hrun⟩ := Runs.run_cons_iff.mp hrun
    obtain ⟨hshut, hsilent⟩ := h.step hv
    obtain ⟨hfinal, hrest⟩ := ih hshut hrun
    exact ⟨hfinal, hsilent.trans hrest⟩

/-- Run lemma. -/
theorem opened_or_shut {doClose : Bool} {input : List ReadAnswer} {ops : List ReceiverOp}
    (hrun : Runs.run NestedReceiver.step ⟨.new fd doClose input, []⟩ ops = some s) :
    Opened fd s ∨ Shut fd s :=
  Runs.invariant_of_forall (C := fun _ => True) (P := fun s => Opened fd s ∨ Shut fd s)
    (fun _ _ _ h _ hs => h.elim (fun h => h.step hs) fun h => .inr (h.step hs).1)
    (fun _ _ => trivial) hrun (.inl (new_opened fd doClose input))

end Closing

/-- Closing is final. In every run of a new receiver, with any channel and any pauses, resumes and
closes by the application and by handlers in the middle of `read`: from the moment the receiver has
been closed, nothing more is read from the channel, the descriptor has been closed once, CLOSED has
been emitted once, no buffer is left, and nothing else is emitted any more, except for the MESSAGE
that has been announced by a SKIP whose handlers are running at that moment. -/
theorem closedIsFinal (fd : Nat) (doClose : Bool) (input : List ReadAnswer)
    (before after : List ReceiverOp) (s t : NestedReceiver)
    (hrun : Runs.run step ⟨.new fd doClose input, []⟩ before = some s)
    (hclosed : s.receiver.io = none) (hafter : Runs.run step s after = some t) :
    t.receiver.io = none ∧ t.receiver.input = s.receiver.input ∧ t.receiver.closedFds = [fd] ∧
    t.receiver.packetBuffer = none ∧ t.receiver.events.count .closed = 1 ∧
    (t.receiver.events = s.receiver.events ∨ ∃ msg, .skip msg ∈ s.frames ∧
      t.receiver.events = s.receiver.events ++ [.message msg]) := by
  have hshut : Shut fd s := by
    obtain hopen | hshut := opened_or_shut hrun
    · obtain ⟨_, hio⟩ := hopen.io
      cases hclosed.symm.trans hio
    · exact hshut
  obtain ⟨hfinal, hsilent⟩ := hshut.run hafter
  refine ⟨hfinal.io, hsilent.input, hfinal.closedFds, hfinal.packetBuffer, hfinal.closed, ?_⟩
  obtain ⟨said, hpromised, hevents⟩ := hsilent.said
  have howed := hshut.owed
  cases said with
  | nil => exact .inl (hevents.trans (List.append_nil _))
  | cons e more =>
    rw [hpromised, List.cons_append, List.length_cons] at howed
    have hmore : more = [] := (List.append_eq_nil_iff.mp
      (List.length_eq_zero_iff.mp (Nat.le_zero.mp (Nat.le_of_succ_le_succ howed)))).1
    rw [hmore] at hevents hpromised
    have hmem : e ∈ promised s.frames := by
      rw [hpromised]
      exact List.mem_cons_self
    obtain ⟨frame, hframe, he⟩ := List.mem_filterMap.mp hmem
    cases frame with
    | skip msg =>
      cases he
      exact .inr ⟨msg, hframe, hevents⟩
    | _ => cases he

/-- Two messages with a gap between them; the handlers for the SKIP close the receiver. -/
def closedInSkip : List ReceiverOp :=
  [.dispatch 1 true, .handlersReturn, .dispatch 1 true, .close]

/-- The channel of these messages. -/
def gappedInput : List ReadAnswer :=
  [.data ([17, 0, 0, 0, 1] ++ List.replicate 17 0),
    .data ([17, 0, 0, 0, 1] ++ List.replicate 8 0 ++ [7] ++ List.replicate 8 0)]

theorem closedIsFinal_closedInSkip : ∃ s t msg,
    Runs.run step ⟨.new 3 true gappedInput, []⟩ closedInSkip = some s ∧
    Runs.run step s [.handlersReturn, .pause, .handlersReturn, .close] = some t ∧
    t.receiver.closedFds = [3] ∧ .skip msg ∈ s.frames ∧
    t.receiver.events = s.receiver.events ++ [.message msg] := by
  obtain ⟨s, hs, hsaid⟩ := Option.map_eq_some_iff.mp (by decide +kernel :
    (Runs.run step ⟨.new 3 true gappedInput, []⟩ closedInSkip).map (fun s =>
      (s.receiver.io, s.receiver.events.length)) = some (none, 3))
  obtain ⟨t, ht, hmore⟩ := Option.map_eq_some_iff.mp (by decide +kernel :
    ((Runs.run step ⟨.new 3 true gappedInput, []⟩ closedInSkip).bind fun s =>
      Runs.run step s [.handlersReturn, .pause, .handlersReturn, .close]).map
        (·.receiver.events.length) = some 4)
  obtain ⟨hclosed, hlength⟩ := Prod.mk.inj hsaid
  rw [hs, Option.bind_some] at ht
  obtain ⟨_, _, hfds, _, _, hend⟩ := closedIsFinal 3 true gappedInput closedInSkip _ s t hs hclosed
    ht
  obtain hsame | ⟨msg, hmsg, hevents⟩ := hend
  · rw [hsame, hlength] at hmore
    exact absurd hmore (by decide)
  · exact ⟨s, t, msg, hs, ht, hfds, hmsg, hevents⟩

end NestedReceiver

end DBusLog

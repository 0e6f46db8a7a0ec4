import DBusLog.Lib.Runs
import DBusLog.Receiver.RoundTrip

/-!
# Nested pause and resume

The receiver with whatever its handlers do: a handler may pause, resume and close the receiver that
has called it. `NestedReceiver` is a receiver together with what its functions still have to do when
the running handlers return, so that a handler is a sequence of steps like any other. Every function
of the model with handlers that make such calls is a run of these steps.
-/

namespace DBusLog

/-- What is left to do when the handlers that are running return. -/
inductive ReceiverFrame
  /-- `read` has reported the skipped messages before this one. -/
  | skip (msg : DBusLogMessage)
  | message
  | closed
  /-- `read_callback` has closed the receiver and gives up its watch. -/
  | removing (id : Nat)
  deriving DecidableEq

/-- A receiver and the handlers that are running, the innermost first. -/
structure NestedReceiver where
  receiver : DBusLogReceiver
  frames : List ReceiverFrame
  deriving DecidableEq

/-- What happens next. The first three are done by the application or by a handler. -/
inductive ReceiverOp
  | pause
  | resume
  | close
  /-- The main loop calls back for a watch; `inp` tells whether the condition has `G_IO_IN`. -/
  | dispatch (id : Nat) (inp : Bool)
  | handlersReturn
  deriving DecidableEq

namespace NestedReceiver

/-- MESSAGE is emitted. -/
def emitMessage (s : NestedReceiver) (msg : DBusLogMessage) : NestedReceiver where
  receiver := { s.receiver with
    messageReceived := true
    lastMessageIndex := msg.index
    packetSize := 0
    packetFixedPart := 0
    packetRead := 0
    events := s.receiver.events ++ [.message msg] }
  frames := .message :: s.frames

/-- The rest of the function that has emitted a signal. -/
def goOn (s : NestedReceiver) : ReceiverFrame → NestedReceiver
  | .skip msg => s.emitMessage msg
  | .message | .closed => s
  | .removing id => { s with receiver := s.receiver.removeSource id }

/-- `dbus_log_receiver_close` up to its signal, and what comes after it if there is none. -/
def close (s : NestedReceiver) (frame : ReceiverFrame) : NestedReceiver :=
  let r := { s.receiver with
    packetSize := 0, packetFixedPart := 0, packetRead := 0, packetBuffer := none }.removeWatch
  match r.io with
  | some (fd, _) =>
    { receiver := { r with
        io := none
        closedFds := r.closedFds ++ [fd]
        events := r.events ++ [.closed] }
      frames := frame :: s.frames }
  | none => { s with receiver := r }.goOn frame

/-- The failure branch of `dbus_log_receiver_read_callback`. -/
def fail (s : NestedReceiver) (id : Nat) : NestedReceiver :=
  { s with receiver := { s.receiver with readWatchId := 0 } }.close (.removing id)

/-- `dbus_log_receiver_read` with a complete packet, up to its first signal. -/
def handlePacket (s : NestedReceiver) (id : Nat) : NestedReceiver :=
  if s.receiver.packetType = PacketType.message.toByte then
    let msg := s.receiver.receivedMessage
    let s := { s with receiver := { s.receiver with packetBuffer := none } }
    match s.receiver.skipped msg.index with
    | some count =>
      { receiver := { s.receiver with events := s.receiver.events ++ [.skip count] }
        frames := .skip msg :: s.frames }
    | none => s.emitMessage msg
  else
    let t := { s with receiver := { s.receiver with
      packetSize := 0, packetFixedPart := 0, packetRead := 0, packetBuffer := none } }
    if s.receiver.packetType = PacketType.bye.toByte then t.fail id else t

/-- `dbus_log_receiver_read_callback` up to its first signal. -/
def dispatch (s : NestedReceiver) (id : Nat) (inp : Bool) : NestedReceiver :=
  if inp then
    match s.receiver.readPacket with
    | (.wait, r) | (.fault, r) => { s with receiver := r }
    | (.failed, r) => { s with receiver := r }.fail id
    | (.complete, r) => { s with receiver := r }.handlePacket id
  else s.fail id

/-- One step. Only a paused receiver is resumed, and handlers do not run the main loop. -/
def step (s : NestedReceiver) : ReceiverOp → Option NestedReceiver
  | .pause => some { s with receiver := s.receiver.pause }
  | .resume =>
    if 0 < s.receiver.paused then some { s with receiver := s.receiver.resume } else none
  | .close => some (s.close .closed)
  | .dispatch id inp =>
    if s.frames = [] ∧ id ∈ s.receiver.watches ∧ s.receiver.faulted = false then
      some (s.dispatch id inp)
    else none
  | .handlersReturn =>
    match s.frames with
    | frame :: frames => some ({ s with frames := frames }.goOn frame)
    | [] => none

/-! ## Handlers as runs -/

section Handlers

variable {h : ReceiverHandlers} {calls : ReceiverEvent → DBusLogReceiver → List ReceiverOp}

/-- The handlers make just these calls, which come to an end. -/
def Making (h : ReceiverHandlers) (calls : ReceiverEvent → DBusLogReceiver → List ReceiverOp) :
    Prop :=
  ∀ e r frames, Runs.run step ⟨r, frames⟩ (calls e r) = some ⟨h e r, frames⟩

/-- Handlers that have been called, and have returned. -/
theorem Making.returns (hcalls : Making h calls) (e : ReceiverEvent) (r : DBusLogReceiver)
    (frame : ReceiverFrame) (frames : List ReceiverFrame) :
    Runs.run step ⟨r, frame :: frames⟩ (calls e r ++ [.handlersReturn]) =
      some (goOn ⟨h e r, frames⟩ frame) := by
  rw [Runs.run_append, hcalls e r (frame :: frames)]
  rfl

/-- `dbus_log_receiver_close` is a run of steps. -/
theorem Making.close (hcalls : Making h calls) (r : DBusLogReceiver) (frame : ReceiverFrame)
    (frames : List ReceiverFrame) : ∃ ops,
      Runs.run step (NestedReceiver.close ⟨r, frames⟩ frame) ops =
        some (goOn ⟨r.close h, frames⟩ frame) := by
  unfold NestedReceiver.close DBusLogReceiver.close
  dsimp only
  generalize DBusLogReceiver.removeWatch _ = u
  cases u.io with
  | some fd => exact ⟨_, hcalls.returns .closed _ frame frames⟩
  | none => exact ⟨[], rfl⟩

theorem Making.emitMessage (hcalls : Making h calls) (r : DBusLogReceiver)
    (msg : DBusLogMessage) : ∃ ops,
      Runs.run step (NestedReceiver.emitMessage ⟨r, []⟩ msg) ops =
        some ⟨DBusLogReceiver.emit h (.message msg) { r with
          messageReceived := true
          lastMessageIndex := msg.index
          packetSize := 0
          packetFixedPart := 0
          packetRead := 0 }, []⟩ :=
  ⟨_, hcalls.returns (.message msg) _ .message []⟩

/-- `dbus_log_receiver_read_callback` is a run of steps. -/
theorem Making.readCallback (hcalls : Making h calls) (r : DBusLogReceiver) (id : Nat)
    (inp : Bool) : ∃ ops,
      Runs.run step (NestedReceiver.dispatch ⟨r, []⟩ id inp) ops =
        some ⟨r.readCallback h id inp, []⟩ := by
  unfold NestedReceiver.dispatch DBusLogReceiver.readCallback DBusLogReceiver.read
  cases inp with
  | false => exact hcalls.close { r with readWatchId := 0 } (.removing id) []
  | true =>
    simp only [if_true]
    obtain ⟨out, u, hu⟩ : ∃ out u, r.readPacket = (out, u) := ⟨_, _, rfl⟩
    rw [hu]
    cases out with
    | wait => exact ⟨[], rfl⟩
    | fault => exact ⟨[], rfl⟩
    | failed => exact hcalls.close { u with readWatchId := 0 } (.removing id) []
    | complete =>
      unfold NestedReceiver.handlePacket DBusLogReceiver.handlePacket
      dsimp only
      by_cases hmessage : u.packetType = PacketType.message.toByte
      · simp only [if_pos hmessage]
        generalize hskip : PacketState.skipped _ _ = skip
        cases skip with
        | none => exact hcalls.emitMessage { u with packetBuffer := none } u.receivedMessage
        | some count =>
          -- the handlers for SKIP, and then those for MESSAGE
          obtain ⟨ops, hops⟩ := hcalls.emitMessage (DBusLogReceiver.emit h (.skip count)
            { u with packetBuffer := none }) u.receivedMessage
          have hfirst := hcalls.returns (.skip count) { u with
            packetBuffer := none
            events := u.events ++ [.skip count] } (.skip u.receivedMessage) []
          exact ⟨_, Runs.run_append_iff.mpr ⟨_, hfirst, hops⟩⟩
      · simp only [if_neg hmessage]
        by_cases hbye : u.packetType = PacketType.bye.toByte
        · rw [if_pos hbye, decide_eq_false (not_not.mpr hbye)]
          exact hcalls.close _ (.removing id) []
        · rw [if_neg hbye, decide_eq_true hbye]
          exact ⟨[], rfl⟩

/-- The main loop calls back for a live watch. -/
theorem Making.dispatch (hcalls : Making h calls) {r : DBusLogReceiver} {id : Nat}
    (hid : id ∈ r.watches) (hintact : r.faulted = false) (inp : Bool) : ∃ ops,
      Runs.run step ⟨r, []⟩ (.dispatch id inp :: ops) = some ⟨r.readCallback h id inp, []⟩ := by
  obtain ⟨ops, hops⟩ := hcalls.readCallback r id inp
  exact ⟨ops, Runs.run_cons_iff.mpr ⟨_, if_pos ⟨rfl, hid, hintact⟩, hops⟩⟩

end Handlers

/-! ## The watch -/

/-- The receiver is to be read from: its channel is open and it is not paused. -/
def Reading (r : DBusLogReceiver) : Prop := r.io.isSome ∧ r.paused = 0

instance (r : DBusLogReceiver) : Decidable (Reading r) := inferInstanceAs (Decidable (_ ∧ _))

/-- The watches that are given up as soon as their handlers return. -/
def pending (frames : List ReceiverFrame) : List Nat :=
  frames.filterMap fun
    | .removing id => some id
    | _ => none

/-- The watches of a receiver that is paused `n` times and whose handlers may be running. -/
structure Watched (n : Int32) (s : NestedReceiver) : Prop where
  paused : s.receiver.paused = n
  live : s.receiver.watches =
    if Reading s.receiver then [s.receiver.readWatchId] else pending s.frames
  recorded : s.receiver.readWatchId = 0 ↔ ¬Reading s.receiver
  opened : s.receiver.io.isSome → pending s.frames = []
  single : (pending s.frames).length ≤ 1
  closed : s.receiver.events.count .closed = if s.receiver.io.isSome then 0 else 1

/-- What the watches depend on is the same in two receivers. -/
structure SameWatch (r u : DBusLogReceiver) : Prop where
  io : u.io = r.io
  paused : u.paused = r.paused
  recorded : u.readWatchId = r.readWatchId
  live : u.watches = r.watches
  closed : u.events.count .closed = r.events.count .closed

section Watched

variable {n : Int32} {r u v : DBusLogReceiver} {s t : NestedReceiver} {frames : List ReceiverFrame}

theorem SameWatch.refl (r : DBusLogReceiver) : SameWatch r r := ⟨rfl, rfl, rfl, rfl, rfl⟩

theorem SameWatch.trans (h : SameWatch r u) (h' : SameWatch u v) : SameWatch r v where
  io := h'.io.trans h.io
  paused := h'.paused.trans h.paused
  recorded := h'.recorded.trans h.recorded
  live := h'.live.trans h.live
  closed := h'.closed.trans h.closed

theorem SameWatch.reading (h : SameWatch r u) : Reading u ↔ Reading r := by
  unfold Reading
  rw [h.io, h.paused]

theorem Watched.of_same (h : Watched n s) (hsame : SameWatch s.receiver t.receiver)
    (hpending : pending t.frames = pending s.frames) : Watched n t where
  paused := hsame.paused.trans h.paused
  live := by
    rw [hsame.live, h.live, hsame.recorded, hpending]
    simp only [hsame.reading]
  recorded := by rw [hsame.recorded, hsame.reading, h.recorded]
  opened hopen := by
    rw [hsame.io] at hopen
    rw [hpending]
    exact h.opened hopen
  single := by
    rw [hpending]
    exact h.single
  closed := by rw [hsame.closed, h.closed, hsame.io]

/-! ### Reading a packet -/

theorem readChars_same {count : Nat} {result : Option (List UInt8)}
    (h : r.readChars count = (result, u)) : SameWatch r u := by
  obtain ⟨input, rfl⟩ := DBusLogReceiver.readChars_frame h
  exact ⟨rfl, rfl, rfl, rfl, rfl⟩

/-- The sections of `read` only change the parser. -/
theorem readPhase_same {ph : PacketState.Phase} {out : ReadOutcome}
    (h : r.readPhase ph = (out, u)) : SameWatch r u := by
  unfold DBusLogReceiver.readPhase at h
  split at h
  next hchars =>
    cases h
    exact readChars_same hchars
  next hchars =>
    cases h
    exact readChars_same hchars
  next bytes v _ hchars =>
    refine (readChars_same hchars).trans ?_
    cases hput : v.put bytes ph with
    | none =>
      rw [hput] at h
      cases h
      exact ⟨rfl, rfl, rfl, rfl, rfl⟩
    | some q =>
      have hevents := (Feed.put_frame hput).2.2.2
      rw [hput] at h
      dsimp only at h
      split at h
      · cases h
        exact ⟨rfl, rfl, rfl, rfl, congrArg _ hevents⟩
      · cases h
        exact ⟨rfl, rfl, rfl, rfl, congrArg _ ((Feed.after_events q ph).trans hevents)⟩

theorem section_same {ph : PacketState.Phase} {out : ReadOutcome} {limit : Nat}
    (h : (if r.packetRead < limit then r.readPhase ph else (.complete, r)) = (out, u)) :
    SameWatch r u := by
  split at h
  · exact readPhase_same h
  · cases h
    exact .refl r

theorem readPacket_same {out : ReadOutcome} (h : r.readPacket = (out, u)) : SameWatch r u := by
  unfold DBusLogReceiver.readPacket at h
  rw [DBusLogReceiver.readHeader_eq] at h
  split at h
  next v hheader =>
    refine (section_same hheader).trans ?_
    rw [DBusLogReceiver.readFixedPart_eq] at h
    split at h
    next w hfixed =>
      refine (section_same hfixed).trans ?_
      rw [DBusLogReceiver.readData_eq] at h
      exact section_same h
    next => exact section_same h
  next => exact section_same h

/-! ### The steps -/

/-- The watches that are left when the recorded one has been removed. -/
def remaining (r : DBusLogReceiver) : List Nat :=
  if r.readWatchId = 0 then r.watches else r.watches.filter (· ≠ r.readWatchId)

theorem removeWatch_eq (r : DBusLogReceiver) :
    r.removeWatch = { r with watches := remaining r, readWatchId := 0 } := by
  unfold DBusLogReceiver.removeWatch DBusLogReceiver.removeSource remaining
  by_cases hid : r.readWatchId = 0
  · rw [if_pos hid, if_pos hid, ← hid]
  · rw [if_neg hid, if_neg hid]

theorem Watched.remaining (h : Watched n s) : remaining s.receiver = pending s.frames := by
  unfold NestedReceiver.remaining
  by_cases hreading : Reading s.receiver
  · have hid : s.receiver.readWatchId ≠ 0 := fun hzero => h.recorded.mp hzero hreading
    rw [if_neg hid, h.live, if_pos hreading, h.opened hreading.1]
    simp
  · rw [if_pos (h.recorded.mpr hreading), h.live, if_neg hreading]

/-- A receiver that is not to be read from and has no watch recorded. -/
theorem Watched.of_idle (hpaused : r.paused = n) (hid : r.readWatchId = 0) (hidle : ¬Reading r)
    (hlive : r.watches = pending frames) (hopen : r.io.isSome → pending frames = [])
    (hsingle : (pending frames).length ≤ 1)
    (hclosed : r.events.count .closed = if r.io.isSome then 0 else 1) : Watched n ⟨r, frames⟩ where
  paused := hpaused
  live := by
    dsimp only
    rw [if_neg hidle, hlive]
  recorded := iff_of_true hid hidle
  opened := hopen
  single := hsingle
  closed := hclosed

/-- An open receiver is closed and emits CLOSED. -/
theorem watched_close {frame : ReceiverFrame} (hpaused : s.receiver.paused = n)
    (hopen : s.receiver.io.isSome)
    (hremaining : NestedReceiver.remaining s.receiver = pending (frame :: s.frames))
    (hsingle : (pending (frame :: s.frames)).length ≤ 1)
    (hclosed : s.receiver.events.count .closed = 0) : Watched n (s.close frame) := by
  obtain ⟨fd, hio⟩ := Option.isSome_iff_exists.mp hopen
  unfold NestedReceiver.close
  rw [removeWatch_eq]
  dsimp only
  rw [hio]
  refine .of_idle hpaused rfl (fun hreading => Bool.false_ne_true hreading.1) hremaining
    (fun hnone => absurd hnone Bool.false_ne_true) hsingle ?_
  change (s.receiver.events ++ [ReceiverEvent.closed]).count .closed = 1
  rw [List.count_append, hclosed]
  rfl

/-- A closed receiver stays as it is. -/
theorem Watched.close_again (h : Watched n s) (hio : s.receiver.io = none) :
    Watched n (s.close .closed) := by
  have hclosed := h.closed
  rw [hio] at hclosed
  unfold NestedReceiver.close
  rw [removeWatch_eq]
  dsimp only
  rw [hio]
  exact .of_idle h.paused rfl (fun hreading => Bool.false_ne_true hreading.1) h.remaining
    (fun hnone => absurd hnone Bool.false_ne_true) h.single hclosed

theorem Watched.close (h : Watched n s) : Watched n (s.close .closed) := by
  cases hio : s.receiver.io with
  | none => exact h.close_again hio
  | some fd =>
    have hopen : s.receiver.io.isSome := by rw [hio]; rfl
    have hclosed := h.closed
    rw [if_pos hopen] at hclosed
    exact watched_close h.paused hopen h.remaining h.single hclosed

/-- The main loop calls back for a live watch, which is then the recorded one. -/
theorem Watched.dispatched (h : Watched n s) (hframes : s.frames = []) {id : Nat}
    (hid : id ∈ s.receiver.watches) :
    Reading s.receiver ∧ s.receiver.readWatchId = id := by
  rw [h.live, hframes] at hid
  split at hid
  next hreading => exact ⟨hreading, (List.mem_singleton.mp hid).symm⟩
  next => cases hid

/-- The failure of `read_callback`, which forgets its watch before it closes the receiver. -/
theorem Watched.fail (h : Watched n s) (hframes : s.frames = []) {id : Nat}
    (hid : id ∈ s.receiver.watches) : Watched n (s.fail id) := by
  obtain ⟨hreading, hrecorded⟩ := h.dispatched hframes hid
  have hclosed := h.closed
  rw [if_pos hreading.1] at hclosed
  refine watched_close h.paused hreading.1 ?_ ?_ hclosed
  · change s.receiver.watches = pending (.removing id :: s.frames)
    rw [h.live, if_pos hreading, hrecorded, hframes]
    rfl
  · change (pending (.removing id :: s.frames)).length ≤ 1
    rw [hframes]
    rfl

/-- The other signals do not count. -/
theorem count_closed_append (events : List ReceiverEvent) {e : ReceiverEvent} (he : e ≠ .closed) :
    (events ++ [e]).count .closed = events.count .closed := by
  rw [List.count_append, List.count_singleton, beq_false_of_ne he]
  rfl

theorem Watched.emitMessage (h : Watched n s) (msg : DBusLogMessage) :
    Watched n (s.emitMessage msg) := by
  have hcount := count_closed_append s.receiver.events (show ReceiverEvent.message msg ≠ .closed from
    fun he => nomatch he)
  exact h.of_same ⟨rfl, rfl, rfl, rfl, hcount⟩ rfl

theorem Watched.handlePacket (h : Watched n s) (hframes : s.frames = []) {id : Nat}
    (hid : id ∈ s.receiver.watches) : Watched n (s.handlePacket id) := by
  unfold NestedReceiver.handlePacket
  split
  · have hbuffer : Watched n { s with receiver := { s.receiver with packetBuffer := none } } :=
      h.of_same ⟨rfl, rfl, rfl, rfl, rfl⟩ rfl
    dsimp only
    split
    next count _ =>
      have hcount := count_closed_append s.receiver.events (show ReceiverEvent.skip count ≠ .closed
        from fun he => nomatch he)
      exact hbuffer.of_same ⟨rfl, rfl, rfl, rfl, hcount⟩ rfl
    next => exact hbuffer.emitMessage s.receiver.receivedMessage
  · have hreset : Watched n { s with receiver := { s.receiver with
        packetSize := 0, packetFixedPart := 0, packetRead := 0, packetBuffer := none } } :=
      h.of_same ⟨rfl, rfl, rfl, rfl, rfl⟩ rfl
    dsimp only
    split
    · exact hreset.fail hframes hid
    · exact hreset

theorem Watched.dispatch (h : Watched n s) (hframes : s.frames = []) {id : Nat}
    (hid : id ∈ s.receiver.watches) (inp : Bool) : Watched n (s.dispatch id inp) := by
  unfold NestedReceiver.dispatch
  cases inp with
  | false => exact h.fail hframes hid
  | true =>
    obtain ⟨out, u, hu⟩ : ∃ out u, s.receiver.readPacket = (out, u) := ⟨_, _, rfl⟩
    have hsame := readPacket_same hu
    have hwatched : Watched n { s with receiver := u } := h.of_same hsame rfl
    have hid' : id ∈ u.watches := hsame.live.symm ▸ hid
    simp only [if_true, hu]
    cases out with
    | wait => exact hwatched
    | fault => exact hwatched
    | failed => exact hwatched.fail hframes hid'
    | complete => exact hwatched.handlePacket hframes hid'

/-- The handlers return, and the function that has called them goes on. -/
theorem Watched.goOn {frame : ReceiverFrame} (h : Watched n ⟨r, frame :: frames⟩) :
    Watched n (NestedReceiver.goOn ⟨r, frames⟩ frame) := by
  cases frame with
  | skip msg =>
    have hpopped : Watched n ⟨r, frames⟩ := h.of_same (.refl r) rfl
    exact hpopped.emitMessage msg
  | message => exact h.of_same (.refl r) rfl
  | closed => exact h.of_same (.refl r) rfl
  | removing id =>
    -- the receiver is closed, and gives up the watch that it has been called for
    have hio : ¬r.io.isSome := fun hopen => nomatch h.opened hopen
    have hidle : ¬Reading r := fun hreading => hio hreading.1
    have hnil : pending frames = [] := List.length_eq_zero_iff.mp
      (Nat.le_zero.mp (Nat.le_of_succ_le_succ h.single))
    have hlive := h.live
    rw [if_neg hidle] at hlive
    refine .of_idle h.paused (h.recorded.mpr hidle) hidle ?_ (fun hopen => absurd hopen hio)
      (by simp [hnil]) h.closed
    change r.watches.filter (· ≠ id) = pending frames
    rw [show r.watches = id :: pending frames from hlive, hnil]
    simp

theorem Watched.pause (h : Watched n s) (hn : 0 < n + 1) :
    Watched (n + 1) { s with receiver := s.receiver.pause } := by
  unfold DBusLogReceiver.pause
  rw [removeWatch_eq, h.paused]
  have hidle : ¬n + 1 = 0 := (Int32.ne_of_lt hn).symm
  exact .of_idle rfl rfl (fun hreading => hidle hreading.2) h.remaining h.opened h.single h.closed

theorem Watched.resume (h : Watched n s) (hn : 0 < n) :
    Watched (n - 1) { s with receiver := s.receiver.resume } := by
  have hidle : ¬Reading s.receiver := fun hreading =>
    (Int32.ne_of_lt hn).symm (h.paused.symm.trans hreading.2)
  have hlive := h.live
  rw [if_neg hidle] at hlive
  unfold DBusLogReceiver.resume
  rw [h.paused, if_pos hn]
  dsimp only
  by_cases hreading : n - 1 = 0 ∧ s.receiver.io.isSome
  · -- the last resume of an open receiver adds the watch
    rw [if_pos hreading]
    have hreading' : Reading { s.receiver with
        paused := n - 1
        watches := (s.receiver.lastWatchId + 1) :: s.receiver.watches
        lastWatchId := s.receiver.lastWatchId + 1
        readWatchId := s.receiver.lastWatchId + 1 } := ⟨hreading.2, hreading.1⟩
    refine ⟨rfl, ?_, ?_, h.opened, h.single, h.closed⟩
    · rw [if_pos hreading', hlive, h.opened hreading.2]
    · exact iff_of_false (Nat.succ_ne_zero _) (not_not.mpr hreading')
  · rw [if_neg hreading]
    exact .of_idle rfl (h.recorded.mpr hidle) (fun hr => hreading ⟨hr.2, hr.1⟩) hlive h.opened
      h.single h.closed

end Watched

/-! ## Runs -/

/-- A pause that the counter has room for. -/
def Counts (s : NestedReceiver) (op : ReceiverOp) : Prop :=
  op = .pause → s.receiver.paused ≠ Int32.maxValue

instance (s : NestedReceiver) (op : ReceiverOp) : Decidable (Counts s op) :=
  inferInstanceAs (Decidable (_ → _))

theorem toInt_succ {n : Int32} (h : n ≠ Int32.maxValue) : (n + 1).toInt = n.toInt + 1 := by
  have hlt := n.toInt_lt
  have hle := n.le_toInt
  have hne : n.toInt ≠ 2 ^ 31 - 1 :=
    fun he => h (Int32.toInt_inj.mp (he.trans Int32.toInt_maxValue.symm))
  rw [Int32.toInt_add, show (1 : Int32).toInt = 1 from rfl]
  exact Int.bmod_eq_of_le (by omega) (by omega)

theorem toInt_pred {n : Int32} (h : 0 < n) : (n - 1).toInt = n.toInt - 1 := by
  have hlt := n.toInt_lt
  have hpos : 0 < n.toInt := Int32.lt_iff_toInt_lt.mp h
  rw [Int32.toInt_sub, show (1 : Int32).toInt = 1 from rfl]
  exact Int.bmod_eq_of_le (by omega) (by omega)

/-- One step. The counter moves with the pauses and the resumes and with nothing else. -/
theorem Watched.step {n : Int32} {s t : NestedReceiver} {op : ReceiverOp} (h : Watched n s)
    (hn : 0 ≤ n.toInt) (hcounts : Counts s op) (hstep : step s op = some t) :
    ∃ m, Watched m t ∧ 0 ≤ m.toInt ∧
      m.toInt + ([op].count .resume : Int) = n.toInt + [op].count .pause := by
  cases op with
  | pause =>
    have hmax : n ≠ Int32.maxValue := h.paused ▸ hcounts rfl
    have hsucc := toInt_succ hmax
    have hpos : 0 < n + 1 := Int32.lt_iff_toInt_lt.mpr (by
      change 0 < (n + 1).toInt
      omega)
    cases hstep
    refine ⟨n + 1, h.pause hpos, by omega, ?_⟩
    change (n + 1).toInt + ((0 : Nat) : Int) = n.toInt + ((1 : Nat) : Int)
    omega
  | resume =>
    unfold NestedReceiver.step at hstep
    rw [h.paused] at hstep
    obtain ⟨hpos, he⟩ := Option.ite_none_right_eq_some.mp hstep
    have hpred := toInt_pred hpos
    have hpos' : 0 < n.toInt := Int32.lt_iff_toInt_lt.mp hpos
    cases he
    refine ⟨n - 1, h.resume hpos, by omega, ?_⟩
    change (n - 1).toInt + ((1 : Nat) : Int) = n.toInt + ((0 : Nat) : Int)
    omega
  | close =>
    cases hstep
    exact ⟨n, h.close, hn, rfl⟩
  | dispatch id inp =>
    obtain ⟨⟨hframes, hid, _⟩, he⟩ := Option.ite_none_right_eq_some.mp hstep
    cases he
    exact ⟨n, h.dispatch hframes hid inp, hn, rfl⟩
  | handlersReturn =>
    unfold NestedReceiver.step at hstep
    obtain ⟨r, frames⟩ := s
    cases frames with
    | nil => cases hstep
    | cons frame frames =>
      cases hstep
      exact ⟨n, h.goOn, hn, rfl⟩

/-- A run of steps, at the end of which handlers may still be running. -/
theorem Watched.run {n : Int32} {s t : NestedReceiver} {ops : List ReceiverOp} (h : Watched n s)
    (hn : 0 ≤ n.toInt) (hcounts : Runs.Meets NestedReceiver.step Counts s ops)
    (hrun : Runs.run NestedReceiver.step s ops = some t) :
    ∃ m, Watched m t ∧ 0 ≤ m.toInt ∧
      m.toInt + (ops.count .resume : Int) = n.toInt + ops.count .pause := by
  induction ops generalizing n s with
  | nil =>
    cases hrun
    exact ⟨n, h, hn, rfl⟩
  | cons op ops ih =>
    obtain ⟨u, hu, hrun⟩ := Runs.run_cons_iff.mp hrun
    obtain ⟨k, hk, hkn, hone⟩ := h.step hn hcounts.1 hu
    obtain ⟨m, hm, hmn, hrest⟩ := ih hk hkn (hcounts.2 u hu) hrun
    have hsplit : ∀ e, (op :: ops).count e = [op].count e + ops.count e := fun e =>
      (List.count_append : ([op] ++ ops).count e = _)
    refine ⟨m, hm, hmn, ?_⟩
    rw [hsplit, hsplit]
    omega

/-- A receiver in the main loop after these steps: it has one live watch, which is recorded, if it
is to be read from, and none otherwise; the counter counts; and CLOSED has been emitted once if the
channel has been closed. -/
structure Settled (ops : List ReceiverOp) (r : DBusLogReceiver) : Prop where
  watch : if Reading r then r.watches = [r.readWatchId] ∧ r.readWatchId ≠ 0
    else r.watches = [] ∧ r.readWatchId = 0
  balance : r.paused.toInt = ops.count .pause - ops.count .resume
  closed : r.events.count .closed = if r.io.isSome then 0 else 1

theorem new_watched (fd : Nat) (doClose : Bool) (input : List ReadAnswer) :
    Watched 0 ⟨.new fd doClose input, []⟩ := by
  rw [DBusLogReceiver.new_eq]
  exact ⟨rfl, rfl, iff_of_false Nat.one_ne_zero (not_not.mpr ⟨rfl, rfl⟩), fun _ => rfl,
    Nat.zero_le _, rfl⟩

/-- Nested pauses and resumes, in every run of a new receiver in which the counter has room for
each pause: whatever the channel delivers, whenever the main loop calls back, and whatever pauses,
resumes and closes the handlers make. -/
theorem nestedPauses (fd : Nat) (doClose : Bool) (input : List ReadAnswer)
    (ops : List ReceiverOp) {s : NestedReceiver}
    (hrun : Runs.run step ⟨.new fd doClose input, []⟩ ops = some s) (hframes : s.frames = [])
    (hcounts : Runs.Meets step Counts ⟨.new fd doClose input, []⟩ ops) :
    Settled ops s.receiver := by
  obtain ⟨m, h, _, hbalance⟩ := (new_watched fd doClose input).run le_rfl hcounts hrun
  have hlive := h.live
  rw [hframes] at hlive
  refine ⟨?_, ?_, h.closed⟩
  · split
    next hreading =>
      rw [if_pos hreading] at hlive
      exact ⟨hlive, fun hzero => h.recorded.mp hzero hreading⟩
    next hidle =>
      rw [if_neg hidle] at hlive
      exact ⟨hlive, h.recorded.mpr hidle⟩
  · rw [h.paused]
    change m.toInt + _ = 0 + _ at hbalance
    omega

/-- A message comes; its handler pauses twice, resumes twice, and closes the receiver, whose
handlers pause it again. -/
def nestedOps : List ReceiverOp :=
  [.dispatch 1 true, .pause, .pause, .resume, .resume, .close, .pause, .handlersReturn,
    .handlersReturn]

theorem nestedPauses_closing :
    ∃ s, Runs.run step ⟨.new 3 true [.data ([17, 0, 0, 0, 1] ++ List.replicate 17 0)], []⟩
        nestedOps = some s ∧ s.receiver.lastWatchId = 2 ∧ Settled nestedOps s.receiver := by
  obtain ⟨s, hrun, hs⟩ := Option.map_eq_some_iff.mp (by decide +kernel :
    (Runs.run step ⟨.new 3 true [.data ([17, 0, 0, 0, 1] ++ List.replicate 17 0)], []⟩
      nestedOps).map (fun s => (s.receiver.lastWatchId, s.frames)) = some (2, []))
  exact ⟨s, hrun, congrArg Prod.fst hs, nestedPauses 3 true _ nestedOps hrun
    (congrArg Prod.snd hs) (by decide +kernel)⟩

/-- Any number of pauses is a run. -/
theorem run_pauses (s : NestedReceiver) (k : Nat) :
    ∃ t, Runs.run step s (List.replicate k .pause) = some t ∧ t.frames = s.frames := by
  induction k generalizing s with
  | zero => exact ⟨s, rfl, rfl⟩
  | succ k ih =>
    obtain ⟨t, ht, hframes⟩ := ih { s with receiver := s.receiver.pause }
    exact ⟨t, ht, hframes⟩

/-- The counter is an `int`, which more pauses than it can hold do not fit in. -/
theorem not_settled_of_le {k : Nat} (hk : 2 ^ 31 ≤ k) (r : DBusLogReceiver) :
    ¬Settled (List.replicate k .pause) r := by
  intro h
  have hbalance := h.balance
  have hlt := r.paused.toInt_lt
  rw [List.count_replicate_self, List.count_replicate, if_neg (by decide)] at hbalance
  omega

/-- One pause more than the counter can hold. -/
theorem nestedPauses_overflow :
    ∃ s, Runs.run step ⟨.new 3 true [], []⟩ (List.replicate (2 ^ 31) .pause) = some s ∧
      s.frames = [] ∧ ¬Settled (List.replicate (2 ^ 31) .pause) s.receiver := by
  obtain ⟨s, hrun, hframes⟩ := run_pauses ⟨.new 3 true [], []⟩ (2 ^ 31)
  exact ⟨s, hrun, hframes, not_settled_of_le (by decide) s.receiver⟩

end NestedReceiver

end DBusLog

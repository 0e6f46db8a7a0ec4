import DBusLog.Receiver.Read
import Mathlib.Logic.Function.Iterate

/-!
# The receiver in the main loop

A receiver heads for what `feed` makes of the bytes that its channel is going to deliver. Every
dispatch keeps it on this way, and the way ends when the bytes do, when the receiver closes, or
when it faults. So the places at which the channel cuts the bytes do not matter.
-/

namespace DBusLog

/-- The parser of a receiver that has been closed. -/
def PacketState.closed (p : PacketState) : PacketState :=
  { p with
    packetSize := 0
    packetFixedPart := 0
    packetRead := 0
    packetBuffer := none
    events := p.events ++ [.closed] }

/-- What can be seen of a receiver whose parser has come to a certain point: the parser, whether
the receiver is open, and whether it has faulted. -/
def Feed.observed : Feed → PacketState × Bool × Bool
  | .running p => (p, true, false)
  | .stopped p => (p.closed, false, false)
  | .faulted p => (p, true, true)

namespace DBusLogReceiver

open Feed

/-- A receiver that waits for the rest of the bytes, on which its parser gets to `f`. -/
structure Heading (f : Feed) (r : DBusLogReceiver) : Prop where
  onlyData : OnlyData r.input
  waits : ∃ ph, r.phase = some ph
  rest : feed (.running r.toPacketState) (pendingBytes r.input) = f
  opened : r.io.isSome
  watched : r.watches = [r.readWatchId]
  intact : r.faulted = false

/-- A receiver that was closed when its parser stopped in the state `p`. -/
structure Closed (p : PacketState) (r : DBusLogReceiver) : Prop where
  parser : r.toPacketState = p.closed
  closed : r.io = none
  unwatched : r.watches = []
  intact : r.faulted = false

/-- A receiver whose parser has found payload for a missing buffer in the state `p`. -/
structure Broken (p : PacketState) (r : DBusLogReceiver) : Prop where
  parser : r.toPacketState = p
  opened : r.io.isSome
  faulted : r.faulted = true

/-- An open receiver in the main loop, whose channel delivers bytes and nothing else. -/
structure Waiting (r : DBusLogReceiver) : Prop where
  onlyData : OnlyData r.input
  waits : ∃ ph, r.phase = some ph
  opened : r.io.isSome
  watched : r.watches = [r.readWatchId]
  intact : r.faulted = false

/-- A receiver has taken these bytes, and its parser is where they lead. -/
structure Took (r : DBusLogReceiver) (bytes : List UInt8) (u : DBusLogReceiver) : Prop where
  taken : pendingBytes r.input = bytes ++ pendingBytes u.input
  led : (Waiting u ∧ feed (.running r.toPacketState) bytes = .running u.toPacketState) ∨
    (∃ p, feed (.running r.toPacketState) bytes = .stopped p ∧ Closed p u) ∨
    ∃ p, feed (.running r.toPacketState) bytes = .faulted p ∧ Broken p u

/-- Where a receiver is on its way to `f`. -/
def OnWay (f : Feed) (r : DBusLogReceiver) : Prop :=
  Heading f r ∨ (∃ p, f = .stopped p ∧ Closed p r) ∨ ∃ p, f = .faulted p ∧ Broken p r

section Way

variable {f : Feed} {r : DBusLogReceiver} {p : PacketState}

theorem readPhase_faulted {u : DBusLogReceiver} {ph : PacketState.Phase}
    (h : r.readPhase ph = (.fault, u)) : u.faulted = true := by
  unfold readPhase at h
  split at h
  · cases h
  · cases h
  · split at h
    · cases h
      rfl
    · split at h
      · cases h
      · cases h

theorem readPacket_faulted {u : DBusLogReceiver} (h : r.readPacket = (.fault, u)) :
    u.faulted = true := by
  have hsection : ∀ {v w : DBusLogReceiver} {ph : PacketState.Phase} {size : Nat},
      (if v.packetRead < size then v.readPhase ph else (.complete, v)) = (.fault, w) →
        w.faulted = true := by
    intro v w ph size he
    split at he
    · exact readPhase_faulted he
    · cases he
  unfold readPacket at h
  split at h
  next v hv =>
    split at h
    next w hw =>
      rw [readData_eq] at h
      exact hsection h
    next hne =>
      rw [readFixedPart_eq] at h
      exact hsection h
  next hne =>
    rw [readHeader_eq] at h
    exact hsection h

/-- A call of `read` that does not return has left its mark. -/
theorem read_faulted {u : DBusLogReceiver} (h : r.read ReceiverHandlers.passive = (none, u)) :
    u.faulted = true := by
  unfold read at h
  split at h
  · cases h
  · cases h
  next v hv =>
    cases h
    exact readPacket_faulted hv
  · cases h

/-- The read callback at the end of the stream. -/
theorem close_closed (id : Nat) (hopen : r.io.isSome) (hwatch : r.watches = [id])
    (hintact : r.faulted = false) :
    Closed r.toPacketState
      ((close ReceiverHandlers.passive { r with readWatchId := 0 }).removeSource id) := by
  obtain ⟨channel, hio⟩ := Option.isSome_iff_exists.mp hopen
  have hclosed : close ReceiverHandlers.passive { r with readWatchId := 0 } =
      { r with
        packetSize := 0
        packetFixedPart := 0
        packetRead := 0
        packetBuffer := none
        events := r.events ++ [.closed]
        readWatchId := 0
        io := none
        closedFds := r.closedFds ++ [channel.1] } := by
    unfold close
    simp only [removeWatch, if_true, hio]
    rfl
  rw [hclosed]
  refine ⟨rfl, rfl, ?_, hintact⟩
  change r.watches.filter (· ≠ id) = []
  rw [hwatch]
  simp

theorem Waiting.heading (h : Waiting r) :
    Heading (feed (.running r.toPacketState) (pendingBytes r.input)) r :=
  ⟨h.onlyData, h.waits, rfl, h.opened, h.watched, h.intact⟩

theorem Heading.waiting {f : Feed} (h : Heading f r) : Waiting r :=
  ⟨h.onlyData, h.waits, h.opened, h.watched, h.intact⟩

theorem close_input (r : DBusLogReceiver) :
    (close ReceiverHandlers.passive r).input = r.input := by
  unfold close removeWatch emit
  dsimp only
  split <;> split <;> rfl

/-- Closing takes nothing from the channel. -/
theorem dispatch_input (hwatch : r.watches = [r.readWatchId]) (hintact : r.faulted = false) :
    (dispatch ReceiverHandlers.passive r).input = (r.read ReceiverHandlers.passive).2.input := by
  unfold dispatch
  rw [hintact, hwatch]
  dsimp only
  rw [if_neg Bool.false_ne_true]
  unfold readCallback
  rw [if_pos rfl]
  rcases r.read ReceiverHandlers.passive with ⟨_ | _ | _, u⟩
  · rfl
  · exact close_input _
  · rfl

/-- One dispatch takes some bytes, and fewer reads are left after it. -/
theorem Waiting.dispatch_took (h : Waiting r) :
    ∃ bytes, Took r bytes (dispatch ReceiverHandlers.passive r) ∧
      (r.input ≠ [] →
        readsLeft (dispatch ReceiverHandlers.passive r).input < readsLeft r.input) := by
  obtain ⟨ph, hph⟩ := h.waits
  have hdispatch : dispatch ReceiverHandlers.passive r =
      r.readCallback ReceiverHandlers.passive r.readWatchId true := by
    unfold dispatch
    rw [h.intact, h.watched]
    rfl
  cases hread : r.read ReceiverHandlers.passive with
  | mk more u =>
    obtain ⟨hframe, hdata, hless, bytes, hbytes, hfeed⟩ := read_feed h.onlyData hph hread
    have hopen : u.io.isSome := by
      rw [hframe]
      exact h.opened
    have hwatch : u.watches = [r.readWatchId] := by
      rw [hframe]
      exact h.watched
    have hid : u.readWatchId = r.readWatchId := by
      rw [hframe]
    have hinput : (dispatch ReceiverHandlers.passive r).input = u.input := by
      rw [dispatch_input h.watched h.intact, hread]
    refine ⟨bytes, ⟨hinput ▸ hbytes, ?_⟩, hinput ▸ hless⟩
    rw [hdispatch]
    unfold readCallback
    rw [if_pos rfl, hread]
    obtain _ | _ | _ := more
    · exact .inr (.inr ⟨u.toPacketState, hfeed, rfl, hopen, read_faulted hread⟩)
    · obtain ⟨hstopped, hfault⟩ := hfeed
      exact .inr (.inl ⟨u.toPacketState, hstopped,
        close_closed r.readWatchId hopen hwatch (hfault.trans h.intact)⟩)
    · obtain ⟨hrunning, hwaits, hfault⟩ := hfeed
      exact .inl ⟨⟨hdata, hwaits, hopen, hwatch.trans (by rw [hid]), hfault.trans h.intact⟩,
        hrunning⟩

/-- One dispatch: less is left to read, or the way is at its end. -/
theorem Heading.step (h : Heading f r) :
    (Heading f (dispatch ReceiverHandlers.passive r) ∧
      pendingBytes (dispatch ReceiverHandlers.passive r).input <:+ pendingBytes r.input ∧
      (r.input ≠ [] →
        readsLeft (dispatch ReceiverHandlers.passive r).input < readsLeft r.input)) ∨
    (∃ p, f = .stopped p ∧ Closed p (dispatch ReceiverHandlers.passive r)) ∨
    ∃ p, f = .faulted p ∧ Broken p (dispatch ReceiverHandlers.passive r) := by
  obtain ⟨bytes, htook, hless⟩ := h.waiting.dispatch_took
  -- the bytes that were taken are the first ones on the way
  have hrest := h.rest
  rw [htook.taken, feed_append] at hrest
  obtain ⟨hwait, hrun⟩ | ⟨p, hstopped, hclosed⟩ | ⟨p, hfaulted, hbroken⟩ := htook.led
  · rw [hrun] at hrest
    refine .inl ⟨⟨hwait.onlyData, hwait.waits, hrest, hwait.opened, hwait.watched, hwait.intact⟩,
      ?_, hless⟩
    exact ⟨bytes, htook.taken.symm⟩
  · rw [hstopped, feed_stopped] at hrest
    exact .inr (.inl ⟨p, hrest.symm, hclosed⟩)
  · rw [hfaulted, feed_faulted] at hrest
    exact .inr (.inr ⟨p, hrest.symm, hbroken⟩)

/-- After its end a receiver does not move. -/
theorem Closed.dispatch_eq (h : Closed p r) : dispatch ReceiverHandlers.passive r = r := by
  unfold dispatch
  rw [h.intact, h.unwatched]
  rfl

theorem Broken.dispatch_eq (h : Broken p r) : dispatch ReceiverHandlers.passive r = r := by
  unfold dispatch
  rw [if_pos h.faulted]

/-- Any number of dispatches. As long as the receiver waits, each of them has made progress, or
there is nothing more to read. -/
theorem Heading.steps (h : Heading f r) (n : Nat) :
    (Heading f ((dispatch ReceiverHandlers.passive)^[n] r) ∧
      (pendingBytes ((dispatch ReceiverHandlers.passive)^[n] r).input = [] ∨
        readsLeft ((dispatch ReceiverHandlers.passive)^[n] r).input + n ≤ readsLeft r.input)) ∨
    (∃ p, f = .stopped p ∧ Closed p ((dispatch ReceiverHandlers.passive)^[n] r)) ∨
    ∃ p, f = .faulted p ∧ Broken p ((dispatch ReceiverHandlers.passive)^[n] r) := by
  induction n with
  | zero => exact .inl ⟨h, .inr le_rfl⟩
  | succ n ih =>
    rw [Function.iterate_succ_apply']
    generalize (dispatch ReceiverHandlers.passive)^[n] r = u at ih
    obtain ⟨hu, hleft⟩ | ⟨p, hf, hu⟩ | ⟨p, hf, hu⟩ := ih
    · obtain ⟨hnext, hsuffix, hless⟩ | hend := hu.step
      · refine .inl ⟨hnext, ?_⟩
        obtain hnil | hleft := hleft
        · rw [hnil] at hsuffix
          exact .inl (List.suffix_nil.mp hsuffix)
        · by_cases hnil : u.input = []
          · rw [hnil] at hsuffix
            exact .inl (List.suffix_nil.mp hsuffix)
          · have hless := hless hnil
            exact .inr (by omega)
      · exact .inr hend
    · rw [hu.dispatch_eq]
      exact .inr (.inl ⟨p, hf, hu⟩)
    · rw [hu.dispatch_eq]
      exact .inr (.inr ⟨p, hf, hu⟩)

theorem Heading.onWay (h : Heading f r) (n : Nat) :
    OnWay f ((dispatch ReceiverHandlers.passive)^[n] r) := (h.steps n).imp_left And.left

end Way

/-! ## A new receiver -/

theorem pendingBytes_map_data (chunks : List (List UInt8)) :
    pendingBytes (chunks.map .data) = chunks.flatten := by
  induction chunks with
  | nil => rfl
  | cons chunk chunks ih =>
    rw [List.map_cons, pendingBytes_data, ih, List.flatten_cons]

theorem onlyData_map_data (chunks : List (List UInt8)) : OnlyData (chunks.map .data) := by
  intro a ha
  obtain ⟨bytes, _, rfl⟩ := List.mem_map.mp ha
  exact ⟨bytes, rfl⟩

/-- A new receiver has been resumed from its first pause. -/
theorem new_eq (fd : Nat) (doClose : Bool) (input : List ReadAnswer) :
    new fd doClose input = { PacketState.new with
      input := input
      watches := [1]
      lastWatchId := 1
      closedFds := []
      faulted := false
      io := some (fd, doClose)
      paused := 0
      readWatchId := 1 } := by
  unfold new resume
  rw [if_pos (show (0 : Int32) < 1 by decide)]
  dsimp only
  rw [show (1 : Int32) - 1 = 0 by decide]
  exact if_pos ⟨rfl, rfl⟩

theorem new_packetState (fd : Nat) (doClose : Bool) (input : List ReadAnswer) :
    (new fd doClose input).toPacketState = .new := by
  rw [new_eq]

theorem new_pending (fd : Nat) (doClose : Bool) (chunks : List (List UInt8)) :
    pendingBytes (new fd doClose (chunks.map .data)).input = chunks.flatten := by
  rw [new_eq]
  exact pendingBytes_map_data chunks

theorem new_heading (fd : Nat) (doClose : Bool) (chunks : List (List UInt8)) :
    Heading (feed (.running .new) chunks.flatten) (new fd doClose (chunks.map .data)) := by
  rw [new_eq]
  exact {
    onlyData := onlyData_map_data chunks
    waits := ⟨.header, rfl⟩
    rest := by
      change feed (.running .new) (pendingBytes (chunks.map .data)) = _
      rw [pendingBytes_map_data]
    opened := rfl
    watched := rfl
    intact := rfl }

theorem new_readsLeft (fd : Nat) (doClose : Bool) (chunks : List (List UInt8)) :
    readsLeft (new fd doClose (chunks.map .data)).input = chunks.flatten.length + chunks.length := by
  rw [new_eq]
  change (pendingBytes (chunks.map .data)).length + (chunks.map ReadAnswer.data).length = _
  rw [pendingBytes_map_data, List.length_map]

/-- The bytes are used up, or the receiver has closed or faulted. -/
def Spent (r : DBusLogReceiver) : Prop :=
  pendingBytes r.input = [] ∨ r.io = none ∨ r.faulted = true

instance (r : DBusLogReceiver) : Decidable (Spent r) :=
  inferInstanceAs (Decidable (_ ∨ _ ∨ _))

/-- The parser, whether the receiver is open, and whether it has faulted. -/
def observed (r : DBusLogReceiver) : PacketState × Bool × Bool :=
  (r.toPacketState, r.io.isSome, r.faulted)

theorem OnWay.spent {f : Feed} {r : DBusLogReceiver} (h : OnWay f r) (hspent : Spent r) :
    r.observed = f.observed := by
  obtain h | ⟨p, rfl, h⟩ | ⟨p, rfl, h⟩ := h
  · have hnil : pendingBytes r.input = [] := by
      obtain hnil | hio | hfault := hspent
      · exact hnil
      · have hopened := h.opened
        rw [hio] at hopened
        cases hopened
      · rw [h.intact] at hfault
        cases hfault
    have hrest := h.rest
    rw [hnil, feed_nil] at hrest
    rw [← hrest]
    unfold observed
    rw [h.opened, h.intact]
    rfl
  · unfold observed
    rw [h.parser, h.closed, h.intact]
    rfl
  · unfold observed
    rw [h.parser, h.opened, h.faulted]
    rfl

/-- A receiver for these chunks after `n` dispatches by the main loop. -/
def driven (fd : Nat) (doClose : Bool) (chunks : List (List UInt8)) (n : Nat) : DBusLogReceiver :=
  (dispatch ReceiverHandlers.passive)^[n] (new fd doClose (chunks.map ReadAnswer.data))

/-- Wherever the channel cuts the bytes, also the same bytes in another way, the main loop drives
the receiver until it has read all it can, and then the parser with all the signals it has emitted
is the same, and so is whether the receiver has closed or faulted. -/
theorem chunkInvariance (fd : Nat) (doClose : Bool) (chunks chunks' : List (List UInt8))
    (h : chunks.flatten = chunks'.flatten) :
    (∀ n n', Spent (driven fd doClose chunks n) → Spent (driven fd doClose chunks' n') →
      (driven fd doClose chunks n).toPacketState = (driven fd doClose chunks' n').toPacketState ∧
        (driven fd doClose chunks n).io.isSome = (driven fd doClose chunks' n').io.isSome ∧
        (driven fd doClose chunks n).faulted = (driven fd doClose chunks' n').faulted) ∧
    ∀ n, chunks.flatten.length + chunks.length ≤ n → Spent (driven fd doClose chunks n) := by
  refine ⟨fun n n' hn hn' => ?_, fun n hn => ?_⟩
  · have hway := (new_heading fd doClose chunks).onWay n
    have hway' := (new_heading fd doClose chunks').onWay n'
    rw [← h] at hway'
    have hsame : observed _ = observed _ := (hway.spent hn).trans (hway'.spent hn').symm
    exact ⟨congrArg Prod.fst hsame, congrArg (·.2.1) hsame, congrArg (·.2.2) hsame⟩
  · obtain ⟨_, hnil | hleft⟩ | ⟨p, _, hclosed⟩ | ⟨p, _, hbroken⟩ :=
      (new_heading fd doClose chunks).steps n
    · exact .inl hnil
    · rw [new_readsLeft] at hleft
      change (pendingBytes (driven fd doClose chunks n).input).length + _ + n ≤ _ at hleft
      exact .inl (List.length_eq_zero_iff.mp (by omega))
    · exact .inr (.inl hclosed.closed)
    · exact .inr (.inr hbroken.faulted)

/-- A ping that claims to have three more bytes: there is no buffer for them, however they come. -/
theorem chunkInvariance_fault :
    (driven 3 true [[3, 0, 0], [], [0, 0, 9, 9, 9]] 4).toPacketState =
        (driven 3 true [[3, 0, 0, 0, 0, 9, 9], [9]] 2).toPacketState ∧
      (driven 3 true [[3, 0, 0], [], [0, 0, 9, 9, 9]] 4).faulted =
        (driven 3 true [[3, 0, 0, 0, 0, 9, 9], [9]] 2).faulted := by
  obtain ⟨hparser, _, hfaulted⟩ := (chunkInvariance 3 true [[3, 0, 0], [], [0, 0, 9, 9, 9]]
    [[3, 0, 0, 0, 0, 9, 9], [9]] (by decide)).1 4 2 (by decide) (by decide)
  exact ⟨hparser, hfaulted⟩

end DBusLogReceiver

end DBusLog

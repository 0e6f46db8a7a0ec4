import DBusLog.Receiver.Model

/-!
# The receiver as a machine that eats bytes

`feed` runs the packet parser byte by byte. With handlers that do not touch the receiver, a call
of `dbus_log_receiver_read` is `feed` on the bytes that it has consumed, wherever the channel has
cut them.
-/

namespace DBusLog

namespace PacketState

/-- The next byte belongs to the header, to the fixed part, or to the rest of the data. -/
inductive Phase
  | header
  | fixed
  | data
  deriving DecidableEq

/-- The phase of a parser that waits for bytes. -/
def phase (p : PacketState) : Option Phase :=
  if p.packetRead < packetHeaderSize then some .header
  else if p.packetRead < p.packetFixedPart then some .fixed
  else if p.packetRead < p.packetSize then some .data
  else none

/-- The value of `packet_read` that ends a phase. -/
def limit (p : PacketState) : Phase → Nat
  | .header => packetHeaderSize
  | .fixed => p.packetFixedPart
  | .data => p.packetSize

/-- Bytes that arrive in a phase; `none` when there is no buffer for them. -/
def put (p : PacketState) (bytes : List UInt8) : Phase → Option PacketState
  | .header | .fixed => some { p with
      packet := p.packet.store p.packetRead bytes
      packetRead := p.packetRead + bytes.length }
  | .data => p.packetBuffer.map fun buffer => { p with
      packetBuffer := some { buffer with
        data := buffer.data.take (p.packetRead - p.packetFixedPart) ++ bytes }
      packetRead := p.packetRead + bytes.length }

/-- What is done at the end of a phase. -/
def after (p : PacketState) : Phase → PacketState
  | .header => p.parseHeader
  | .fixed => p.allocBuffer
  | .data => p

/-- What is done with a complete packet. -/
def handlePacket (p : PacketState) : Bool × PacketState :=
  if p.packetType = PacketType.message.toByte then
    (true, { p with
      packetBuffer := none
      messageReceived := true
      lastMessageIndex := p.receivedMessage.index
      packetSize := 0
      packetFixedPart := 0
      packetRead := 0
      events := p.events ++ ((p.skipped p.receivedMessage.index).map ReceiverEvent.skip).toList ++
        [.message p.receivedMessage] })
  else
    (p.packetType ≠ PacketType.bye.toByte,
      { p with packetSize := 0, packetFixedPart := 0, packetRead := 0, packetBuffer := none })

end PacketState

/-- The parser on a byte stream: it waits for more, has returned FALSE, or has read payload into a
missing buffer. -/
inductive Feed
  | running (p : PacketState)
  | stopped (p : PacketState)
  | faulted (p : PacketState)
  deriving DecidableEq

namespace Feed

open PacketState

/-- A complete packet is handled. -/
def handled (p : PacketState) : Feed :=
  match p.handlePacket with
  | (true, p) => .running p
  | (false, p) => .stopped p

/-- A parser in the middle of a packet waits. -/
def settle (p : PacketState) : Feed :=
  match p.phase with
  | some _ => .running p
  | none => handled p

/-- Bytes that do not go beyond the end of the phase. -/
def arrive (p : PacketState) (ph : Phase) (bytes : List UInt8) : Feed :=
  match p.put bytes ph with
  | none => .faulted p
  | some q => if q.packetRead < p.limit ph then .running q else settle (q.after ph)

def feedByte : Feed → UInt8 → Feed
  | .running p, b =>
    match p.phase with
    | some ph => arrive p ph [b]
    | none => .running p
  | f, _ => f

def feed (f : Feed) (bytes : List UInt8) : Feed := bytes.foldl feedByte f

@[simp] theorem feed_nil (f : Feed) : feed f [] = f := rfl

@[simp] theorem feed_cons (f : Feed) (b : UInt8) (bytes : List UInt8) :
    feed f (b :: bytes) = feed (feedByte f b) bytes := rfl

theorem feed_append (f : Feed) (xs ys : List UInt8) :
    feed f (xs ++ ys) = feed (feed f xs) ys := List.foldl_append

@[simp] theorem feed_stopped (p : PacketState) (bytes : List UInt8) :
    feed (.stopped p) bytes = .stopped p := by
  induction bytes with
  | nil => rfl
  | cons b bytes ih => exact ih

@[simp] theorem feed_faulted (p : PacketState) (bytes : List UInt8) :
    feed (.faulted p) bytes = .faulted p := by
  induction bytes with
  | nil => rfl
  | cons b bytes ih => exact ih

theorem settle_running {p : PacketState} {ph : Phase} (h : p.phase = some ph) :
    settle p = .running p := by
  unfold settle
  rw [h]

theorem settle_handled {p : PacketState} (h : p.phase = none) : settle p = handled p := by
  unfold settle
  rw [h]

theorem feedByte_running {p : PacketState} {ph : Phase} (h : p.phase = some ph) (b : UInt8) :
    feedByte (.running p) b = arrive p ph [b] := by
  unfold feedByte
  simp only [h]

/-! ## A phase eats its bytes at once -/

theorem store_append (p : PacketArray) (offset : Nat) (xs ys : List UInt8) :
    p.store offset (xs ++ ys) = (p.store offset xs).store (offset + xs.length) ys := by
  induction xs generalizing p offset with
  | nil => rfl
  | cons x xs ih =>
    rw [List.cons_append, PacketArray.store, ih, PacketArray.store, List.length_cons,
      Nat.add_assoc, Nat.add_comm 1]

theorem phase_limit {p : PacketState} {ph : Phase} (h : p.phase = some ph) :
    p.packetRead < p.limit ph := by
  unfold phase at h
  split at h
  · cases h
    assumption
  · split at h
    · cases h
      assumption
    · split at h
      · cases h
        assumption
      · cases h

/-- What `put` leaves alone, and how far it gets. -/
theorem put_frame {p q : PacketState} {ph : Phase} {bytes : List UInt8}
    (h : p.put bytes ph = some q) :
    q.packetSize = p.packetSize ∧ q.packetFixedPart = p.packetFixedPart ∧
      q.packetRead = p.packetRead + bytes.length ∧ q.events = p.events := by
  cases ph with
  | header =>
    cases h
    exact ⟨rfl, rfl, rfl, rfl⟩
  | fixed =>
    cases h
    exact ⟨rfl, rfl, rfl, rfl⟩
  | data =>
    obtain ⟨buffer, _, rfl⟩ := Option.map_eq_some_iff.mp h
    exact ⟨rfl, rfl, rfl, rfl⟩

theorem put_limit {p q : PacketState} {ph : Phase} {bytes : List UInt8}
    (h : p.put bytes ph = some q) : q.limit ph = p.limit ph := by
  obtain ⟨hsize, hfixed, _, _⟩ := put_frame h
  cases ph with
  | header => rfl
  | fixed => exact hfixed
  | data => exact hsize

/-- A phase goes on until its limit is reached. -/
theorem put_phase {p q : PacketState} {ph : Phase} {bytes : List UInt8}
    (hp : p.phase = some ph) (h : p.put bytes ph = some q) (hlt : q.packetRead < p.limit ph) :
    q.phase = some ph := by
  obtain ⟨hsize, hfixed, hread, _⟩ := put_frame h
  unfold phase at hp ⊢
  rw [hsize, hfixed]
  -- below the limit of its phase the parser does not leave the phase
  split at hp
  next =>
    cases hp
    exact if_pos hlt
  next h5 =>
    rw [if_neg (by omega)]
    split at hp
    next =>
      cases hp
      exact if_pos hlt
    next hfix =>
      rw [if_neg (by omega)]
      split at hp
      next =>
        cases hp
        exact if_pos hlt
      next => cases hp

/-- Whether there is a buffer does not depend on the bytes. -/
theorem put_isSome {p q : PacketState} {ph : Phase} {xs : List UInt8} (h : p.put xs ph = some q)
    (ys : List UInt8) : ∃ q', p.put ys ph = some q' := by
  cases ph with
  | header => exact ⟨_, rfl⟩
  | fixed => exact ⟨_, rfl⟩
  | data =>
    obtain ⟨buffer, hbuf, _⟩ := Option.map_eq_some_iff.mp h
    exact ⟨_, Option.map_eq_some_iff.mpr ⟨buffer, hbuf, rfl⟩⟩

theorem phase_data {p : PacketState} (h : p.phase = some .data) :
    packetHeaderSize ≤ p.packetRead ∧ p.packetFixedPart ≤ p.packetRead := by
  unfold phase at h
  split at h
  · cases h
  · split at h
    · cases h
    · exact ⟨by omega, by omega⟩

theorem put_append {p : PacketState} {ph : Phase} (hp : p.phase = some ph) (xs ys : List UInt8) :
    ((p.put xs ph).bind fun q => q.put ys ph) = p.put (xs ++ ys) ph := by
  have hfixed : ∀ p : PacketState, ∀ read, read = p.packetRead + xs.length →
      ({ p with
        packet := (p.packet.store p.packetRead xs).store read ys
        packetRead := read + ys.length } : PacketState) =
      { p with
        packet := p.packet.store p.packetRead (xs ++ ys)
        packetRead := p.packetRead + (xs ++ ys).length } := by
    rintro p read rfl
    rw [store_append, List.length_append, Nat.add_assoc]
  cases ph with
  | header => exact congrArg some (hfixed p _ rfl)
  | fixed => exact congrArg some (hfixed p _ rfl)
  | data =>
    simp only [put]
    cases p.packetBuffer with
    | none => rfl
    | some buffer =>
      -- the buffer holds what has been read and no more
      have htake : (buffer.data.take (p.packetRead - p.packetFixedPart) ++ xs).take
          (p.packetRead + xs.length - p.packetFixedPart) =
          buffer.data.take (p.packetRead - p.packetFixedPart) ++ xs := by
        have hfix := (phase_data hp).2
        refine List.take_of_length_le ?_
        simp only [List.length_append, List.length_take]
        omega
      simp only [Option.map_some, Option.bind_some, htake, List.append_assoc, List.length_append,
        Nat.add_assoc]

/-- Bytes within one phase, one by one or all at once. -/
theorem feed_phase {p : PacketState} {ph : Phase} {bytes : List UInt8} (hp : p.phase = some ph)
    (hne : bytes ≠ []) (hle : p.packetRead + bytes.length ≤ p.limit ph) :
    feed (.running p) bytes = arrive p ph bytes := by
  induction bytes generalizing p with
  | nil => exact absurd rfl hne
  | cons b rest ih =>
    rw [feed_cons, feedByte_running hp]
    -- the phase may end with the last byte only
    by_cases hrest : rest = []
    · rw [hrest]
      rfl
    · have happ := put_append hp [b] rest
      unfold arrive
      cases hput : p.put [b] ph with
      | none =>
        rw [hput] at happ
        have hnone : p.put (b :: rest) ph = none := happ.symm
        rw [hnone]
        exact feed_faulted p rest
      | some q =>
        rw [hput] at happ
        have hq : q.put rest ph = p.put (b :: rest) ph := happ
        have hread := (put_frame hput).2.2.1
        have hlimit := put_limit hput
        have hpos := List.length_pos_iff.mpr hrest
        simp only [List.length_cons, List.length_nil] at hread hle
        have hlt : q.packetRead < p.limit ph := by omega
        obtain ⟨q', hq'⟩ := put_isSome hput (b :: rest)
        simp only [if_pos hlt]
        rw [ih (put_phase hp hput hlt) hrest (by omega), arrive, hq, hlimit, hq']

end Feed

end DBusLog

import DBusLog.Receiver.Boundaries
import DBusLog.Receiver.Lengths

/-!
# Framing by the size field

From a packet boundary the receiver takes the length of the packet and comes to rest at the next
boundary. The length is what the size field declares for every size that the type of the packet
allows, and for no other.
-/

namespace DBusLog

namespace DBusLogReceiver

open Feed

/-- An open receiver at a packet boundary. -/
structure AtPacket (r : DBusLogReceiver) : Prop extends Waiting r where
  read : r.packetRead = 0
  buffer : r.packetBuffer = none

variable {r : DBusLogReceiver} {size : UInt32} {type : UInt8} {rest : List UInt8} {n : Nat}

/-- As long as less than the packet has been taken, the receiver is in the middle of it. -/
theorem AtPacket.reading (h : AtPacket r)
    (hin : pendingBytes r.input = packetHeader size type ++ rest)
    (hbuffered : ¬Unbuffered size type)
    (hlt : r.taken (r.dispatched n) < packetLength size type) :
    Waiting (r.dispatched n) ∧ (r.dispatched n).packetRead = r.taken (r.dispatched n) ∧
      (r.dispatched n).events = r.events := by
  obtain ⟨bytes, htook⟩ := h.dispatched_took n
  have hcount := htook.count
  have hpre : bytes <+: packetHeader size type ++ rest := hin ▸ ⟨_, htook.taken.symm⟩
  obtain ⟨v, hv, hread, hevents⟩ : ∃ v, feed (.running r.toPacketState) bytes = .running v ∧
      v.packetRead = bytes.length ∧ v.events = r.events := by
    rcases taken_cases hpre with hshort | ⟨body, rfl, _⟩
    · obtain ⟨v, hv, hread, hevents, _⟩ := feed_headerPart h.read hshort
      exact ⟨v, hv, hread, hevents⟩
    · rw [List.length_append, packetHeader_length] at hcount ⊢
      rw [hcount] at hlt
      obtain ⟨v, hv, hread, hpacket⟩ := (feed_body h.read h.buffer hbuffered hlt.le).1 hlt
      exact ⟨v, hv, hread, hpacket.events⟩
  rw [hcount]
  obtain ⟨hwait, hrun⟩ | ⟨p, hstopped, _⟩ | ⟨p, hfaulted, _⟩ := htook.led
  · cases hv.symm.trans hrun
    exact ⟨hwait, hread, hevents⟩
  · cases hv.symm.trans hstopped
  · cases hv.symm.trans hfaulted

/-- The whole packet, from the bytes of the channel. -/
theorem AtPacket.whole (h : AtPacket r)
    (hin : pendingBytes r.input = packetHeader size type ++ rest)
    (hbuffered : ¬Unbuffered size type) (hlen : packetLength size type ≤ 5 + rest.length) :
    ∃ bytes v, bytes.length = packetLength size type ∧ bytes <+: pendingBytes r.input ∧
      feed (.running r.toPacketState) bytes = handled v ∧ v.packetType = type ∧
      v.events = r.events := by
  have hpos := packetLength_pos size type
  have hbody : 5 + (rest.take (packetLength size type - 5)).length = packetLength size type := by
    rw [List.length_take]
    omega
  obtain ⟨v, hv, htype, hevents⟩ :=
    (feed_body h.read h.buffer hbuffered hbody.le).2 hbody
  refine ⟨_, v, ?_, ?_, hv, htype, hevents⟩
  · rw [List.length_append, packetHeader_length]
    exact hbody
  · rw [hin]
    exact (List.prefix_append_right_inj _).mpr (List.take_prefix _ _)

/-- The receiver comes to rest right after a packet that is not a BYE. -/
theorem AtPacket.rests_after (h : AtPacket r)
    (hin : pendingBytes r.input = packetHeader size type ++ rest)
    (hbuffered : ¬Unbuffered size type) (hlen : packetLength size type ≤ 5 + rest.length)
    (hbye : type ≠ PacketType.bye.toByte) :
    ∃ n, r.taken (r.dispatched n) = packetLength size type ∧ Waiting (r.dispatched n) ∧
      (r.dispatched n).packetRead = 0 ∧
      (type ≠ PacketType.message.toByte → (r.dispatched n).events = r.events) := by
  obtain ⟨bytes, v, hlength, hpre, hv, htype, hevents⟩ := h.whole hin hbuffered hlen
  obtain ⟨q, hq, hzero, _, hquiet⟩ := handled_running (v := v) (by rw [htype]; exact hbye)
  rw [hq] at hv
  obtain ⟨n, htook⟩ := h.rests hpre hv hzero
  refine ⟨n, htook.count.trans hlength, ?_⟩
  obtain ⟨hwait, hrun⟩ | ⟨p, hstopped, _⟩ | ⟨p, hfaulted, _⟩ := htook.led
  · cases hv.symm.trans hrun
    exact ⟨hwait, hzero, fun hne => (hquiet (by rw [htype]; exact hne)).trans hevents⟩
  · cases hv.symm.trans hstopped
  · cases hv.symm.trans hfaulted

/-- The way through the channel comes to its end. -/
theorem Waiting.ends (h : Waiting r) :
    (∀ p, feed (.running r.toPacketState) (pendingBytes r.input) = .stopped p →
      ∃ n, Closed p (r.dispatched n)) ∧
    ∀ p, feed (.running r.toPacketState) (pendingBytes r.input) = .faulted p →
      ∃ n, Broken p (r.dispatched n) := by
  have hsteps := h.heading.steps (readsLeft r.input + 1)
  change (Heading _ (r.dispatched _) ∧ (pendingBytes (r.dispatched _).input = [] ∨ _)) ∨
    (∃ p, _ ∧ Closed p (r.dispatched _)) ∨ ∃ p, _ ∧ Broken p (r.dispatched _) at hsteps
  obtain ⟨hheading, hleft⟩ | ⟨q, hq, hclosed⟩ | ⟨q, hq, hbroken⟩ := hsteps
  · have hnil : pendingBytes (r.dispatched (readsLeft r.input + 1)).input = [] := by
      rcases hleft with hnil | hleft
      · exact hnil
      · omega
    have hrest := hheading.rest
    rw [hnil, feed_nil] at hrest
    rw [← hrest]
    exact ⟨fun p hp => (nomatch hp), fun p hp => (nomatch hp)⟩
  · rw [hq]
    refine ⟨fun p hp => ?_, fun p hp => (nomatch hp)⟩
    cases hp
    exact ⟨_, hclosed⟩
  · rw [hq]
    refine ⟨fun p hp => (nomatch hp), fun p hp => ?_⟩
    cases hp
    exact ⟨_, hbroken⟩

/-! ## Framing -/

/-- Up to its `n`-th dispatch the receiver has not come to another packet boundary. -/
def InFirstPacket (r : DBusLogReceiver) (n : Nat) : Prop :=
  ∀ m < n, 0 < r.taken (r.dispatched m) → (r.dispatched m).packetRead ≠ 0

/-- The receiver takes this many bytes, and then it waits for the next header. Nothing but a
MESSAGE makes it emit a signal. -/
structure Consumes (r : DBusLogReceiver) (type : UInt8) (count : Nat) : Prop where
  inside : ∀ n, 0 < r.taken (r.dispatched n) → r.taken (r.dispatched n) < count →
    (r.dispatched n).packetRead ≠ 0
  rests : ∃ n, r.taken (r.dispatched n) = count ∧ (r.dispatched n).io.isSome ∧
    (r.dispatched n).packetRead = 0 ∧
    (type ≠ PacketType.message.toByte → (r.dispatched n).events = r.events)

/-- The receiver closes at this packet. -/
def Closes (r : DBusLogReceiver) : Prop := ∃ n, (r.dispatched n).io = none ∧ r.InFirstPacket n

/-- At this packet the receiver gives the channel no buffer to read into. -/
def Misreads (r : DBusLogReceiver) : Prop :=
  ∃ n, (r.dispatched n).faulted = true ∧ r.InFirstPacket n

/-- The packet takes `count` bytes, unless the receiver closes at it. `fails` tells whether a
channel that is given no buffer reports an error, which makes the receiver close as well. -/
def Framed (fails : Prop) (r : DBusLogReceiver) (type : UInt8) (count : Nat) : Prop :=
  r.Consumes type count ∨ r.Closes ∨ (fails ∧ r.Misreads)

/-- The sizes that are framed well. -/
def FramesWell (fails : Prop) (size : UInt32) (type : UInt8) : Prop :=
  if type = PacketType.ping.toByte then size = 0 ∨ (fails ∧ size.toNat ≤ 2 ^ 32 - 6)
  else if type = PacketType.bye.toByte then size = 0 ∨ 2 ^ 32 - 5 ≤ size.toNat ∨ fails
  else 17 ≤ size.toNat ∧ size.toNat ≤ 2 ^ 32 - 6

theorem Waiting.of_not_closed (h : Waiting r) (hclosed : r.io = none) : False := by
  have hopened := h.opened
  rw [hclosed] at hopened
  cases hopened

theorem Waiting.of_not_faulted (h : Waiting r) (hfault : r.faulted = true) : False := by
  have hintact := h.intact
  rw [hfault] at hintact
  cases hintact

/-- A receiver that no longer waits does not move. -/
theorem Waiting.ended (h : Waiting r) (hended : ¬Waiting (r.dispatched n)) (m : Nat) :
    r.dispatched (n + m) = r.dispatched n := by
  obtain ⟨bytes, htook⟩ := h.dispatched_took n
  have hfixed : dispatch ReceiverHandlers.passive (r.dispatched n) = r.dispatched n := by
    obtain ⟨hwait, _⟩ | ⟨p, _, hclosed⟩ | ⟨p, _, hbroken⟩ := htook.led
    · exact absurd hwait hended
    · exact hclosed.dispatch_eq
    · exact hbroken.dispatch_eq
  rw [dispatched_add]
  exact Function.iterate_fixed hfixed m

/-- A receiver that comes to rest after a packet has not ended at it. -/
theorem Waiting.not_ended (h : Waiting r) {m : Nat} (htaken : 0 < r.taken (r.dispatched n))
    (hwait : Waiting (r.dispatched n)) (hread : (r.dispatched n).packetRead = 0)
    (hended : ¬Waiting (r.dispatched m)) : ¬r.InFirstPacket m := by
  intro hfirst
  by_cases hlt : n < m
  · exact hfirst n hlt htaken hread
  · have hlater := h.ended hended (n - m)
    rw [Nat.add_sub_of_le (Nat.le_of_not_lt hlt)] at hlater
    exact hended (hlater ▸ hwait)

/-- The first dispatch after which a receiver no longer waits. -/
theorem first_end (hends : ∃ n, ¬Waiting (r.dispatched n)) :
    ∃ n, ¬Waiting (r.dispatched n) ∧ ∀ m < n, Waiting (r.dispatched m) := by
  classical
  exact ⟨Nat.find hends, Nat.find_spec hends, fun m hm => not_not.mp (Nat.find_min hends hm)⟩

section Packet

variable (h : AtPacket r) (hin : pendingBytes r.input = packetHeader size type ++ rest)
include h hin

/-- A buffered packet that is no BYE takes its length, whatever has been declared. -/
theorem AtPacket.framed_length {fails : Prop} {count : Nat} (hbuffered : ¬Unbuffered size type)
    (hbye : type ≠ PacketType.bye.toByte) (hcount : 5 ≤ count) (hlen : count ≤ 5 + rest.length)
    (hframed : Framed fails r type count) : packetLength size type = count := by
  have hpos := packetLength_pos size type
  -- a receiver that no longer waits has taken the packet, and then it has come to rest before
  have hgoes : ∀ m, ¬Waiting (r.dispatched m) → ¬r.InFirstPacket m := by
    intro m hended
    have hle : packetLength size type ≤ 5 + rest.length := by
      by_contra hlong
      refine hended (h.reading hin hbuffered ?_).1
      have hall : r.taken (r.dispatched m) ≤ (pendingBytes r.input).length := Nat.sub_le _ _
      rw [hin, List.length_append, packetHeader_length] at hall
      omega
    obtain ⟨n, htaken, hwait, hread, _⟩ := h.rests_after hin hbuffered hle hbye
    exact h.not_ended (by omega) hwait hread hended
  rcases hframed with hconsumes | ⟨n, hclosed, hfirst⟩ | ⟨_, n, hfault, hfirst⟩
  · obtain ⟨n, htaken, _, hread, _⟩ := hconsumes.rests
    have hnot : ¬count < packetLength size type := by
      intro hlt
      have hcounted := (h.reading hin hbuffered (htaken ▸ hlt)).2.1
      omega
    obtain ⟨m, htaken', _, hread', _⟩ := h.rests_after hin hbuffered (by omega) hbye
    by_contra hne
    exact hconsumes.inside m (by omega) (by omega) hread'
  · exact absurd hfirst (hgoes n fun hwait => hwait.of_not_closed hclosed)
  · exact absurd hfirst (hgoes n fun hwait => hwait.of_not_faulted hfault)

/-- A packet whose length is what it declares. -/
theorem AtPacket.consumes (hbuffered : ¬Unbuffered size type)
    (hbye : type ≠ PacketType.bye.toByte) (hlen : packetLength size type ≤ 5 + rest.length) :
    r.Consumes type (packetLength size type) where
  inside n hpos hlt := by
    have hcounted := (h.reading hin hbuffered hlt).2.1
    omega
  rests := by
    obtain ⟨n, htaken, hwait, hread, hquiet⟩ := h.rests_after hin hbuffered hlen hbye
    exact ⟨n, htaken, hwait.opened, hread, hquiet⟩

/-- A BYE without data ends the stream. -/
theorem AtPacket.closes (hbuffered : ¬Unbuffered size type)
    (hbye : type = PacketType.bye.toByte) : r.Closes := by
  have hlen : packetLength size type = 5 := by
    have honly : HeaderOnly type := .inr hbye
    have hsmall : ¬packetHeaderSize < wholeSize size := fun hlt => hbuffered ⟨honly, hlt⟩
    unfold packetLength fixedPart
    rw [if_pos honly]
    exact max_eq_left (Nat.le_of_not_lt hsmall)
  obtain ⟨bytes, v, hlength, ⟨more, hmore⟩, hv, htype, _⟩ := h.whole hin hbuffered (by omega)
  obtain ⟨q, hq⟩ := handled_stopped (htype.trans hbye)
  have hstopped : feed (.running r.toPacketState) (pendingBytes r.input) = .stopped q := by
    rw [← hmore, feed_append, hv, hq, feed_stopped]
  obtain ⟨n, hended, hearlier⟩ : ∃ n, ¬Waiting (r.dispatched n) ∧
      ∀ m < n, Waiting (r.dispatched m) := by
    obtain ⟨n, hclosed⟩ := h.ends.1 q hstopped
    exact first_end ⟨n, fun hwait => hwait.of_not_closed hclosed.closed⟩
  refine ⟨n, ?_, fun m hm hpos => ?_⟩
  · obtain ⟨xs, htook⟩ := h.dispatched_took n
    obtain ⟨hwait, _⟩ | ⟨p, _, hclosed⟩ | ⟨p, hfaulted, _⟩ := htook.led
    · exact absurd hwait hended
    · exact hclosed.closed
    · rw [htook.taken, feed_append, hfaulted, feed_faulted] at hstopped
      cases hstopped
  · -- what still waits has not taken the whole header
    have hwait := hearlier m hm
    obtain ⟨xs, htook⟩ := h.dispatched_took m
    have hlt : r.taken (r.dispatched m) < packetLength size type := by
      by_contra hge
      rw [htook.count] at hge
      have hxs : bytes <+: xs :=
        List.prefix_of_prefix_length_le ⟨more, hmore⟩ ⟨_, htook.taken.symm⟩ (by omega)
      obtain ⟨ys, rfl⟩ := hxs
      obtain ⟨_, hrun⟩ | ⟨p, _, hclosed⟩ | ⟨p, _, hbroken⟩ := htook.led
      · rw [feed_append, hv, hq, feed_stopped] at hrun
        cases hrun
      · exact hwait.of_not_closed hclosed.closed
      · exact hwait.of_not_faulted hbroken.faulted
    have hcounted := (h.reading hin hbuffered hlt).2.1
    omega

/-- A packet without a buffer for its data is never left. -/
theorem AtPacket.unbuffered_stays (hun : Unbuffered size type) (n : Nat) :
    (r.dispatched n).io.isSome ∧
      (0 < r.taken (r.dispatched n) → (r.dispatched n).packetRead ≠ 0) := by
  obtain ⟨bytes, htook⟩ := h.dispatched_took n
  have hcount := htook.count
  have hpre : bytes <+: packetHeader size type ++ rest := hin ▸ ⟨_, htook.taken.symm⟩
  obtain ⟨v, hv, hread⟩ : ∃ v, (feed (.running r.toPacketState) bytes = .running v ∨
      feed (.running r.toPacketState) bytes = .faulted v) ∧
      (0 < bytes.length → v.packetRead ≠ 0) := by
    rcases taken_cases hpre with hshort | ⟨body, rfl, _⟩
    · obtain ⟨v, hv, hread, _⟩ := feed_headerPart h.read hshort
      exact ⟨v, .inl hv, fun hpos => by omega⟩
    · obtain ⟨hempty, hmore⟩ := feed_unbuffered body h.read h.buffer hun
      by_cases hnil : body = []
      · obtain ⟨v, hv, hread, _⟩ := hempty hnil
        exact ⟨v, .inl hv, fun _ => by omega⟩
      · obtain ⟨v, hv, hread⟩ := hmore hnil
        exact ⟨v, .inr hv, fun _ => by omega⟩
  rw [hcount]
  obtain ⟨hwait, hrun⟩ | ⟨p, hstopped, _⟩ | ⟨p, hfaulted, hbroken⟩ := htook.led
  · rw [hrun] at hv
    obtain hv | hv := hv
    · cases hv
      exact ⟨hwait.opened, hread⟩
    · cases hv
  · rw [hstopped] at hv
    obtain hv | hv := hv <;> cases hv
  · rw [hfaulted] at hv
    obtain hv | hv := hv
    · cases hv
    · cases hv
      rw [hbroken.parser]
      exact ⟨hbroken.opened, hread⟩

theorem AtPacket.misreads (hun : Unbuffered size type) (hrest : rest ≠ []) : r.Misreads := by
  obtain ⟨v, hv, _⟩ := (feed_unbuffered rest h.read h.buffer hun).2 hrest
  rw [← hin] at hv
  obtain ⟨n, hbroken⟩ := h.ends.2 v hv
  exact ⟨n, hbroken.faulted, fun m _ hpos => (h.unbuffered_stays hin hun m).2 hpos⟩

/-- Only a channel that reports an error saves a packet without a buffer. -/
theorem AtPacket.framed_unbuffered {fails : Prop} {count : Nat} (hun : Unbuffered size type)
    (hcount : 0 < count) (hrest : rest ≠ []) : Framed fails r type count ↔ fails := by
  constructor
  · rintro (hconsumes | ⟨n, hclosed, _⟩ | ⟨hfails, _⟩)
    · obtain ⟨n, htaken, _, hread, _⟩ := hconsumes.rests
      exact absurd hread ((h.unbuffered_stays hin hun n).2 (by omega))
    · have hopened := (h.unbuffered_stays hin hun n).1
      rw [hclosed] at hopened
      cases hopened
    · exact hfails
  · intro hfails
    exact .inr (.inr ⟨hfails, h.misreads hin hun hrest⟩)

end Packet

theorem unbuffered_iff {size : UInt32} {type : UInt8} :
    Unbuffered size type ↔ HeaderOnly type ∧ size ≠ 0 ∧ size.toNat ≤ 2 ^ 32 - 6 := by
  have hlt := size.toNat_lt
  have hzero : size ≠ 0 ↔ size.toNat ≠ 0 := by
    rw [ne_eq, ne_eq, ← UInt32.toNat_inj]
    rfl
  unfold Unbuffered wholeSize
  rw [hzero]
  simp only [packetHeaderSize]
  refine and_congr_right fun _ => ?_
  omega

/-- The length of a buffered packet is that of its size field and the header for the sizes that
are framed well. -/
theorem packetLength_eq_iff {fails : Prop} {size : UInt32} {type : UInt8}
    (hbuffered : ¬Unbuffered size type) (hbye : type ≠ PacketType.bye.toByte) :
    packetLength size type = 5 + size.toNat ↔ FramesWell fails size type := by
  have hlt := size.toNat_lt
  have hzero : size = 0 ↔ size.toNat = 0 := UInt32.toNat_inj.symm
  have hsize : wholeSize size = (size.toNat + 5) % 2 ^ 32 := rfl
  unfold FramesWell packetLength
  rw [if_neg hbye]
  rcases fixedPart_cases type with ⟨honly, hfixed⟩ | ⟨honly, hfixed⟩
  · have hping : type = PacketType.ping.toByte := honly.resolve_right hbye
    have hsmall : wholeSize size ≤ 5 := Nat.le_of_not_lt fun hmore => hbuffered ⟨honly, hmore⟩
    rw [if_pos hping, hfixed, max_eq_left hsmall, hzero]
    constructor
    · intro he
      exact .inl (by omega)
    · rintro (he | ⟨_, hle⟩)
      · rw [he]
      · omega
  · have hping : type ≠ PacketType.ping.toByte := fun he => honly (.inl he)
    rw [if_neg hping, hfixed]
    omega

/-- For every type and every size, the bytes of a packet are framed by its size field exactly when
its size is one that its type allows, and the sum with the header does not wrap. -/
theorem framing (fails : Prop) {r : DBusLogReceiver} {size : UInt32} {type : UInt8}
    {rest : List UInt8} (h : AtPacket r)
    (hin : pendingBytes r.input = packetHeader size type ++ rest)
    (hlen : size.toNat ≤ rest.length) :
    Framed fails r type (5 + size.toNat) ↔ FramesWell fails size type := by
  by_cases hun : Unbuffered size type
  · obtain ⟨honly, hne, hle⟩ := unbuffered_iff.mp hun
    have hpos : size.toNat ≠ 0 := fun he => hne (UInt32.toNat_inj.mp he)
    have hrest : rest ≠ [] := List.ne_nil_of_length_pos (by omega)
    rw [h.framed_unbuffered hin hun (by omega) hrest]
    unfold FramesWell
    rcases honly with htype | htype
    · rw [if_pos htype]
      exact ⟨fun hfails => .inr ⟨hfails, hle⟩, fun hwell => (hwell.resolve_left hne).1⟩
    · rw [if_neg (by rw [htype]; decide), if_pos htype]
      exact ⟨fun hfails => .inr (.inr hfails),
        fun hwell => (hwell.resolve_left hne).resolve_left (by omega)⟩
  · by_cases hbye : type = PacketType.bye.toByte
    · have hwell : FramesWell fails size type := by
        have hnot := mt unbuffered_iff.mpr hun
        unfold FramesWell
        rw [if_neg (by rw [hbye]; decide), if_pos hbye]
        by_cases hsize : size = 0
        · exact .inl hsize
        · refine .inr (.inl ?_)
          by_contra hsmall
          exact hnot ⟨.inr hbye, hsize, by omega⟩
      exact iff_of_true (.inr (.inl (h.closes hin hun hbye))) hwell
    · rw [← packetLength_eq_iff hun hbye]
      constructor
      · exact h.framed_length hin hun hbye (by omega) (by omega)
      · intro he
        exact .inl (he ▸ h.consumes hin hun hbye (by omega))

/-- A packet of the unknown type 7 with 17 bytes of data. -/
theorem framing_unknownType :
    Framed False (new 3 true [.data ([17, 0, 0, 0, 7] ++ List.replicate 17 9)]) 7 22 :=
  (framing False ⟨new_waiting 3 true [[17, 0, 0, 0, 7] ++ List.replicate 17 9], rfl, rfl⟩
    (by decide : _ = packetHeader 17 7 ++ List.replicate 17 9) (by decide)).mpr
    ⟨by decide, by decide⟩

/-- A MESSAGE that declares no data, between pings: it takes the fixed part of a message. -/
theorem framing_shortMessage :
    ¬Framed True (new 3 true [.data ([0, 0, 0, 0, 1] ++ List.replicate 20 0)]) 1 5 := by
  intro hframed
  have hpacket : AtPacket (new 3 true [.data ([0, 0, 0, 0, 1] ++ List.replicate 20 0)]) :=
    ⟨new_waiting 3 true [[0, 0, 0, 0, 1] ++ List.replicate 20 0], rfl, rfl⟩
  have hlength := hpacket.framed_length
    (by decide : _ = packetHeader 0 1 ++ List.replicate 20 0) (by decide) (by decide) (by decide)
    (by decide) hframed
  exact absurd hlength (by decide)

end DBusLogReceiver

end DBusLog

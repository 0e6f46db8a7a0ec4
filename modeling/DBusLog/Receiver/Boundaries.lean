import DBusLog.Receiver.Chunks

/-!
# Where a receiver meets packet boundaries

A call of `dbus_log_receiver_read` never reads beyond the packet it has begun. So a receiver that
waits follows `feed` from dispatch to dispatch, and comes to rest at every packet boundary that
lies in the bytes of its channel.
-/

namespace DBusLog.DBusLogReceiver

open PacketState Feed

/-! ## Within one packet -/

/-- A parser that is still running somewhere inside these bytes has only counted them. -/
def Smooth (p : PacketState) (bytes : List UInt8) : Prop :=
  ∀ pre, pre <+: bytes → pre ≠ bytes → ∀ q, feed (settle p) pre = .running q →
    q.packetRead = p.packetRead + pre.length

theorem smooth_nil (p : PacketState) : Smooth p [] :=
  fun _ hpre hne => absurd (List.prefix_nil.mp hpre) hne

theorem Smooth.append {p q : PacketState} {xs ys : List UInt8} (hx : Smooth p xs)
    (hfeed : feed (settle p) xs = settle q) (hread : q.packetRead = p.packetRead + xs.length)
    (hy : Smooth q ys) : Smooth p (xs ++ ys) := by
  intro pre hpre hne v hv
  rcases List.prefix_or_prefix_of_prefix hpre (List.prefix_append xs ys) with hle | ⟨rest, rfl⟩
  · by_cases hxs : pre = xs
    · subst hxs
      have hys : [] ≠ ys := by
        rintro rfl
        exact hne (List.append_nil pre).symm
      rw [hfeed] at hv
      have hcount := hy [] List.nil_prefix hys v hv
      rw [hcount, hread]
      rfl
    · exact hx pre hle hxs v hv
  · have hrest : rest <+: ys := (List.prefix_append_right_inj xs).mp hpre
    have hne' : rest ≠ ys := fun he => hne (by rw [he])
    rw [feed_append, hfeed] at hv
    have hcount := hy rest hrest hne' v hv
    rw [hcount, hread, List.length_append]
    omega

/-- Some reading within one packet. -/
structure Counted (r : DBusLogReceiver) (out : ReadOutcome) (u : DBusLogReceiver)
    (bytes : List UInt8) : Prop where
  taken : pendingBytes r.input = bytes ++ pendingBytes u.input
  smooth : Smooth r.toPacketState bytes
  whole : out = .complete → feed (settle r.toPacketState) bytes = settle u.toPacketState ∧
    u.packetRead = r.packetRead + bytes.length

theorem Counted.refl (r : DBusLogReceiver) : Counted r .complete r [] :=
  ⟨rfl, smooth_nil _, fun _ => ⟨rfl, rfl⟩⟩

theorem Counted.trans {r u v : DBusLogReceiver} {out : ReadOutcome} {xs ys : List UInt8}
    (h : Counted r .complete u xs) (h' : Counted u out v ys) : Counted r out v (xs ++ ys) := by
  obtain ⟨hfeed, hread⟩ := h.whole rfl
  refine ⟨?_, h.smooth.append hfeed hread h'.smooth, fun hout => ?_⟩
  · rw [h.taken, h'.taken, List.append_assoc]
  · obtain ⟨hfeed', hread'⟩ := h'.whole hout
    rw [feed_append, hfeed, List.length_append]
    exact ⟨hfeed', by omega⟩

/-- Bytes that do not reach beyond the limit of the phase. -/
theorem smooth_phase {p : PacketState} {ph : Phase} {bytes : List UInt8}
    (hp : p.phase = some ph) (hle : p.packetRead + bytes.length ≤ p.limit ph) :
    Smooth p bytes := by
  intro pre hpre hne q hq
  have hlt : pre.length < bytes.length := by
    have hlen := hpre.length_le
    have hdiff : pre.length ≠ bytes.length := fun he => hne (hpre.eq_of_length he)
    omega
  rw [settle_running hp] at hq
  by_cases hnil : pre = []
  · subst hnil
    cases hq
    rfl
  · rw [feed_phase hp hnil (by omega)] at hq
    unfold arrive at hq
    cases hput : p.put pre ph with
    | none =>
      simp only [hput] at hq
      cases hq
    | some v =>
      have hread := (put_frame hput).2.2.1
      simp only [hput] at hq
      rw [if_pos (by omega)] at hq
      cases hq
      exact hread

theorem readPhase_counted {r u : DBusLogReceiver} {ph : Phase} {out : ReadOutcome}
    (hdata : OnlyData r.input) (hp : r.phase = some ph) (h : r.readPhase ph = (out, u)) :
    ∃ bytes, Counted r out u bytes := by
  obtain ⟨bytes, input, hr, _, hbytes, hle, _, _⟩ :=
    readChars_data hdata (r.limit ph - r.packetRead)
  have hlimit := phase_limit hp
  have hsmooth : Smooth r.toPacketState bytes := smooth_phase hp (by omega)
  have hreached := (readPhase_reached hdata hp h).1
  unfold readPhase at h
  rw [hr] at h
  refine ⟨bytes, ?_, hsmooth, ?_⟩
  · cases bytes with
    | nil =>
      cases h
      exact hbytes
    | cons b bytes =>
      simp only at h
      cases hput : r.put (b :: bytes) ph with
      | none =>
        simp only [hput] at h
        cases h
        exact hbytes
      | some q =>
        simp only [hput] at h
        split at h <;> cases h <;> exact hbytes
  · rintro rfl
    cases bytes with
    | nil => cases h
    | cons b bytes =>
      simp only at h
      cases hput : r.put (b :: bytes) ph with
      | none =>
        simp only [hput] at h
        cases h
      | some q =>
        have hread := (put_frame hput).2.2.1
        simp only [hput] at h
        split at h
        · cases h
        · cases h
          obtain ⟨bytes', hbytes', hfeed, _⟩ := hreached.fed
          have hsame : bytes' = b :: bytes :=
            List.append_cancel_right (hbytes'.symm.trans hbytes)
          rw [hsame] at hfeed
          refine ⟨hfeed, Eq.trans ?_ hread⟩
          cases ph with
          | header => rfl
          | fixed => exact (allocBuffer_frame q).2.2
          | data => rfl

theorem section_counted {r u : DBusLogReceiver} {ph : Phase} {out : ReadOutcome} {bound : Nat}
    (hdata : OnlyData r.input) (hp : r.packetRead < bound → r.phase = some ph)
    (h : (if r.packetRead < bound then r.readPhase ph else (.complete, r)) = (out, u)) :
    ∃ bytes, Counted r out u bytes := by
  by_cases hlt : r.packetRead < bound
  · rw [if_pos hlt] at h
    exact readPhase_counted hdata (hp hlt) h
  · rw [if_neg hlt] at h
    cases h
    exact ⟨[], Counted.refl r⟩

theorem readPacket_counted {r u : DBusLogReceiver} {out : ReadOutcome} (hdata : OnlyData r.input)
    (h : r.readPacket = (out, u)) : ∃ bytes, Counted r out u bytes := by
  unfold readPacket at h
  cases hhead : r.readHeader with
  | mk out₁ r₁ =>
    obtain ⟨hr₁, hheader⟩ := readHeader_reached hdata hhead
    obtain ⟨xs, hxs⟩ : ∃ bytes, Counted r out₁ r₁ bytes :=
      section_counted hdata (fun hlt => if_pos hlt) (r.readHeader_eq ▸ hhead)
    cases hfix : r₁.readFixedPart with
    | mk out₂ r₂ =>
      cases out₁ with
      | complete =>
        have hheader := hheader rfl
        simp only [hhead, hfix] at h
        obtain ⟨hr₂, hfixed⟩ := readFixedPart_reached hr₁.onlyData hheader hfix
        obtain ⟨ys, hys⟩ : ∃ bytes, Counted r₁ out₂ r₂ bytes :=
          section_counted hr₁.onlyData
            (fun hlt => (if_neg (Nat.not_lt.mpr hheader)).trans (if_pos hlt))
            (r₁.readFixedPart_eq ▸ hfix)
        cases out₂ with
        | complete =>
          obtain ⟨hread₅, hreadf⟩ := hfixed rfl
          obtain ⟨zs, hzs⟩ : ∃ bytes, Counted r₂ out u bytes :=
            section_counted hr₂.onlyData
              (fun hlt => (if_neg (Nat.not_lt.mpr hread₅)).trans
                ((if_neg (Nat.not_lt.mpr hreadf)).trans (if_pos hlt)))
              (r₂.readData_eq ▸ h)
          exact ⟨_, (hxs.trans hys).trans hzs⟩
        | wait | failed | fault =>
          cases h
          exact ⟨_, hxs.trans hys⟩
      | wait | failed | fault =>
        simp only [hhead] at h
        cases h
        exact ⟨_, hxs⟩

/-! ## From dispatch to dispatch -/

/-- The receiver after some dispatches by the main loop. -/
def dispatched (r : DBusLogReceiver) (n : Nat) : DBusLogReceiver :=
  (dispatch ReceiverHandlers.passive)^[n] r

/-- How many bytes the receiver has taken from its channel since `r`. -/
def taken (r u : DBusLogReceiver) : Nat :=
  (pendingBytes r.input).length - (pendingBytes u.input).length

variable {r u : DBusLogReceiver}

theorem new_waiting (fd : Nat) (doClose : Bool) (chunks : List (List UInt8)) :
    Waiting (new fd doClose (chunks.map .data)) := (new_heading fd doClose chunks).waiting

@[simp] theorem dispatched_zero (r : DBusLogReceiver) : r.dispatched 0 = r := rfl

theorem dispatched_succ (r : DBusLogReceiver) (n : Nat) :
    r.dispatched (n + 1) = (dispatch ReceiverHandlers.passive r).dispatched n := rfl

theorem dispatched_add (r : DBusLogReceiver) (m n : Nat) :
    r.dispatched (m + n) = (r.dispatched m).dispatched n := by
  rw [Nat.add_comm]
  exact Function.iterate_add_apply _ n m r

theorem Took.count {bytes : List UInt8} (h : Took r bytes u) : r.taken u = bytes.length := by
  unfold DBusLogReceiver.taken
  rw [h.taken, List.length_append]
  omega

theorem Took.refl (h : Waiting r) : Took r [] r := ⟨rfl, .inl ⟨h, rfl⟩⟩

theorem Took.trans {v : DBusLogReceiver} {xs ys : List UInt8} (h : Took r xs u)
    (hrun : feed (.running r.toPacketState) xs = .running u.toPacketState) (h' : Took u ys v) :
    Took r (xs ++ ys) v := by
  refine ⟨?_, ?_⟩
  · rw [h.taken, h'.taken, List.append_assoc]
  · rw [feed_append, hrun]
    exact h'.led

/-- One dispatch takes bytes of one packet. -/
theorem Waiting.dispatch_smooth (h : Waiting r) :
    ∃ bytes, Took r bytes (dispatch ReceiverHandlers.passive r) ∧ Smooth r.toPacketState bytes ∧
      (r.input ≠ [] →
        readsLeft (dispatch ReceiverHandlers.passive r).input < readsLeft r.input) := by
  obtain ⟨bytes, htook, hless⟩ := h.dispatch_took
  refine ⟨bytes, htook, ?_, hless⟩
  cases hpacket : r.readPacket with
  | mk out v =>
    obtain ⟨bytes', hcounted⟩ := readPacket_counted h.onlyData hpacket
    have hinput : (dispatch ReceiverHandlers.passive r).input = v.input := by
      rw [dispatch_input h.watched h.intact]
      unfold read
      rw [hpacket]
      cases out with
      | complete => simp only [handlePacket_passive]
      | wait | failed | fault => rfl
    have htaken := hcounted.taken
    rw [← hinput, htook.taken] at htaken
    rw [List.append_cancel_right htaken]
    exact hcounted.smooth

/-- Any number of dispatches. -/
theorem Waiting.dispatched_took (h : Waiting r) (n : Nat) :
    ∃ bytes, Took r bytes (r.dispatched n) := by
  induction n generalizing r with
  | zero => exact ⟨[], Took.refl h⟩
  | succ n ih =>
    rw [dispatched_succ]
    obtain ⟨bytes, htook, _⟩ := h.dispatch_took
    have hstays : ∀ u : DBusLogReceiver, dispatch ReceiverHandlers.passive u = u →
        u.dispatched n = u := by
      intro u hu
      exact Function.iterate_fixed hu n
    obtain ⟨hwait, hrun⟩ | ⟨p, _, hclosed⟩ | ⟨p, _, hbroken⟩ := htook.led
    · obtain ⟨bytes', htook'⟩ := ih hwait
      exact ⟨bytes ++ bytes', htook.trans hrun htook'⟩
    · rw [hstays _ hclosed.dispatch_eq]
      exact ⟨bytes, htook⟩
    · rw [hstays _ hbroken.dispatch_eq]
      exact ⟨bytes, htook⟩

/-- A boundary in the bytes of the channel is a place where the receiver comes to rest. -/
theorem Waiting.rests (h : Waiting r) {bytes : List UInt8} {q : PacketState}
    (hpre : bytes <+: pendingBytes r.input)
    (hfeed : feed (.running r.toPacketState) bytes = .running q) (hq : q.packetRead = 0) :
    ∃ n, Took r bytes (r.dispatched n) := by
  -- by induction on what is left to read: the first dispatch does not go beyond the boundary
  induction hleft : readsLeft r.input using Nat.strong_induction_on generalizing r bytes with
  | _ left ih =>
    subst hleft
    by_cases hnil : bytes = []
    · subst hnil
      exact ⟨0, Took.refl h⟩
    · obtain ⟨xs, htook, hsmooth, hless⟩ := h.dispatch_smooth
      have hinput : r.input ≠ [] := by
        intro he
        rw [he, pendingBytes_nil] at hpre
        exact hnil (List.prefix_nil.mp hpre)
      have hxs : xs <+: pendingBytes r.input := ⟨_, htook.taken.symm⟩
      obtain ⟨ph, hph⟩ := h.waits
      rcases List.prefix_or_prefix_of_prefix hpre hxs with hshort | ⟨ys, rfl⟩
      · by_cases hsame : bytes = xs
        · exact ⟨1, hsame ▸ htook⟩
        · have hcount := hsmooth bytes hshort hsame q (by rwa [settle_running hph])
          have hpos := List.length_pos_iff.mpr hnil
          omega
      · rw [feed_append] at hfeed
        obtain ⟨hwait, hrun⟩ | ⟨p, hstopped, _⟩ | ⟨p, hfaulted, _⟩ := htook.led
        · have hrest : ys <+: pendingBytes (dispatch ReceiverHandlers.passive r).input := by
            rw [htook.taken] at hpre
            exact (List.prefix_append_right_inj xs).mp hpre
          rw [hrun] at hfeed
          obtain ⟨n, htook'⟩ := ih _ (hless hinput) hwait hrest hfeed rfl
          exact ⟨n + 1, htook.trans hrun htook'⟩
        · rw [hstopped, feed_stopped] at hfeed
          cases hfeed
        · rw [hfaulted, feed_faulted] at hfeed
          cases hfeed

end DBusLog.DBusLogReceiver

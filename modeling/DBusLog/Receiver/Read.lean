import DBusLog.Receiver.Feed

/-!
# Reading is feeding

Each section of `dbus_log_receiver_read` makes one channel read and hands its bytes to a phase of
the parser. With handlers that do not touch the receiver, a call of `read`, and a run of the main
loop, is `feed` on the bytes that have left the channel.
-/

namespace DBusLog.DBusLogReceiver

open PacketState Feed

/-! ## The channel -/

/-- The channel delivers bytes and nothing else. -/
def OnlyData (input : List ReadAnswer) : Prop := ∀ a ∈ input, ∃ bytes, a = .data bytes

/-- The bytes that the channel is going to deliver. -/
def pendingBytes (input : List ReadAnswer) : List UInt8 :=
  input.flatMap fun
    | .data bytes => bytes
    | _ => []

/-- How many reads the channel can still answer at most. -/
def readsLeft (input : List ReadAnswer) : Nat := (pendingBytes input).length + input.length

@[simp] theorem pendingBytes_nil : pendingBytes [] = [] := rfl

@[simp] theorem pendingBytes_data (bytes : List UInt8) (input : List ReadAnswer) :
    pendingBytes (.data bytes :: input) = bytes ++ pendingBytes input := rfl

theorem readChars_data {r : DBusLogReceiver} (h : OnlyData r.input) (count : Nat) :
    ∃ bytes input, r.readChars count = (some bytes, { r with input := input }) ∧
      OnlyData input ∧ pendingBytes r.input = bytes ++ pendingBytes input ∧
      bytes.length ≤ count ∧ readsLeft input ≤ readsLeft r.input ∧
      (0 < count → r.input ≠ [] → readsLeft input < readsLeft r.input) := by
  unfold readChars
  cases hin : r.input with
  | nil =>
    refine ⟨[], [], ?_, fun _ ha => (nomatch ha), rfl, Nat.zero_le _, le_rfl,
      fun _ hne => absurd rfl hne⟩
    simp only [← hin]
  | cons a input =>
    rw [hin] at h
    obtain ⟨bytes, rfl⟩ := h a List.mem_cons_self
    have hrest : OnlyData input := fun b hb => h b (List.mem_cons_of_mem _ hb)
    by_cases hle : bytes.length ≤ count
    · simp only [if_pos hle]
      have hless : readsLeft input < readsLeft (.data bytes :: input) := by
        simp only [readsLeft, pendingBytes_data, List.length_append, List.length_cons]
        omega
      refine ⟨_, input, rfl, hrest, ?_, List.length_take_le _ _, hless.le, fun _ _ => hless⟩
      rw [pendingBytes_data, List.take_of_length_le hle]
    · -- the rest of the bytes stays for the next read
      simp only [if_neg hle]
      refine ⟨_, .data (bytes.drop count) :: input, rfl, ?_, ?_, List.length_take_le _ _, ?_, ?_⟩
      · intro b hb
        rcases List.mem_cons.mp hb with rfl | hb
        · exact ⟨_, rfl⟩
        · exact hrest b hb
      · rw [pendingBytes_data, pendingBytes_data, ← List.append_assoc, List.take_append_drop]
      · simp only [readsLeft, pendingBytes_data, List.length_append, List.length_cons,
          List.length_drop]
        omega
      · intro hpos _
        simp only [readsLeft, pendingBytes_data, List.length_append, List.length_cons,
          List.length_drop]
        omega

/-! ## One section of `read` -/

/-- The three sections of `dbus_log_receiver_read` do the same for their phases. -/
def readPhase (r : DBusLogReceiver) (ph : Phase) : ReadOutcome × DBusLogReceiver :=
  match r.readChars (r.limit ph - r.packetRead) with
  | (none, r) => (.failed, r)
  | (some [], r) => (.wait, r)
  | (some bytes, r) =>
    match r.put bytes ph with
    | none => (.fault, { r with faulted := true })
    | some q =>
      if q.packetRead < r.limit ph then (.wait, { r with toPacketState := q })
      else (.complete, { r with toPacketState := q.after ph })

theorem readChars_frame {r u : DBusLogReceiver} {count : Nat} {result : Option (List UInt8)}
    (h : r.readChars count = (result, u)) : ∃ input, u = { r with input := input } := by
  unfold readChars at h
  split at h <;> cases h <;> exact ⟨_, rfl⟩

theorem readHeader_eq (r : DBusLogReceiver) :
    r.readHeader =
      if r.packetRead < packetHeaderSize then r.readPhase .header else (.complete, r) := by
  unfold readHeader readPhase
  by_cases hlt : r.packetRead < packetHeaderSize
  · rw [if_pos hlt, if_pos hlt]
    simp only [limit]
    cases hr : r.readChars (packetHeaderSize - r.packetRead) with
    | mk result u =>
      obtain ⟨input, rfl⟩ := readChars_frame hr
      obtain _ | (_ | ⟨b, bytes⟩) := result
      · rfl
      · exact if_pos hlt
      · rfl
  · rw [if_neg hlt, if_neg hlt]

theorem readFixedPart_eq (r : DBusLogReceiver) :
    r.readFixedPart =
      if r.packetRead < r.packetFixedPart then r.readPhase .fixed else (.complete, r) := by
  unfold readFixedPart readPhase
  by_cases hlt : r.packetRead < r.packetFixedPart
  · rw [if_pos hlt, if_pos hlt]
    simp only [limit]
    cases hr : r.readChars (r.packetFixedPart - r.packetRead) with
    | mk result u =>
      obtain ⟨input, rfl⟩ := readChars_frame hr
      obtain _ | (_ | ⟨b, bytes⟩) := result
      · rfl
      · exact if_pos hlt
      · rfl
  · rw [if_neg hlt, if_neg hlt]

theorem readData_eq (r : DBusLogReceiver) :
    r.readData =
      if r.packetRead < r.packetSize then r.readPhase .data else (.complete, r) := by
  unfold readData readPhase
  by_cases hlt : r.packetRead < r.packetSize
  · rw [if_pos hlt, if_pos hlt]
    simp only [limit]
    cases hr : r.readChars (r.packetSize - r.packetRead) with
    | mk result u =>
      obtain ⟨input, rfl⟩ := readChars_frame hr
      obtain _ | (_ | ⟨b, bytes⟩) := result
      · rfl
      · rfl
      · simp only [put]
        cases hb : r.packetBuffer with
        | none => rfl
        | some buffer =>
          simp only [Option.map_some]
          by_cases hless : r.packetRead + (b :: bytes).length < r.packetSize
          · simp only [if_pos hless]
            exact (if_pos hless).symm
          · simp only [if_neg hless]
            exact (if_neg hless).symm
  · rw [if_neg hlt, if_neg hlt]

/-- Some reading, as the parser sees it: the bytes that have left the channel were fed to it. -/
structure Reached (r : DBusLogReceiver) (out : ReadOutcome) (u : DBusLogReceiver) : Prop where
  frame : u = { r with
    toPacketState := u.toPacketState
    input := u.input
    faulted := u.faulted }
  onlyData : OnlyData u.input
  fed : ∃ bytes, pendingBytes r.input = bytes ++ pendingBytes u.input ∧
    match out with
    | .wait => feed (settle r.toPacketState) bytes = .running u.toPacketState ∧
        (∃ ph, u.phase = some ph) ∧ u.faulted = r.faulted
    | .failed => False
    | .fault => feed (settle r.toPacketState) bytes = .faulted u.toPacketState
    | .complete => feed (settle r.toPacketState) bytes = settle u.toPacketState ∧
        u.faulted = r.faulted
  left : readsLeft u.input ≤ readsLeft r.input
  progress : (out = .complete ∧ u = r) ∨ (r.input ≠ [] → readsLeft u.input < readsLeft r.input)

/-- A section whose phase is over does nothing. -/
theorem Reached.refl {r : DBusLogReceiver} (h : OnlyData r.input) : Reached r .complete r :=
  ⟨rfl, h, ⟨[], rfl, rfl, rfl⟩, le_rfl, .inl ⟨rfl, rfl⟩⟩

theorem Reached.trans {r u v : DBusLogReceiver} {out : ReadOutcome} (h : Reached r .complete u)
    (h' : Reached u out v) : Reached r out v := by
  obtain ⟨xs, hxs, hfeed, hfault⟩ := h.fed
  obtain ⟨ys, hys, hout⟩ := h'.fed
  refine ⟨?_, h'.onlyData, ⟨xs ++ ys, ?_, ?_⟩, h'.left.trans h.left, ?_⟩
  · rw [h'.frame, h.frame]
  · rw [hxs, hys, List.append_assoc]
  · rw [feed_append, hfeed]
    cases out with
    | wait => exact ⟨hout.1, hout.2.1, hout.2.2.trans hfault⟩
    | failed => exact hout
    | fault => exact hout
    | complete => exact ⟨hout.1, hout.2.trans hfault⟩
  · rcases h.progress with ⟨_, rfl⟩ | hless
    · exact h'.progress
    · exact .inr fun hne => lt_of_le_of_lt h'.left (hless hne)

/-- The section of the phase that the parser is in. -/
theorem readPhase_reached {r u : DBusLogReceiver} {ph : Phase} {out : ReadOutcome}
    (hdata : OnlyData r.input) (hp : r.phase = some ph) (h : r.readPhase ph = (out, u)) :
    Reached r out u ∧ (out = .complete → ∃ q : PacketState, u.toPacketState = q.after ph ∧
      q.packetSize = r.packetSize ∧ q.packetFixedPart = r.packetFixedPart ∧
      q.packetRead = r.limit ph) := by
  have hpos : 0 < r.limit ph - r.packetRead := Nat.sub_pos_of_lt (phase_limit hp)
  obtain ⟨bytes, input, hr, hinput, hbytes, hle, hleft, hless⟩ :=
    readChars_data hdata (r.limit ph - r.packetRead)
  unfold readPhase at h
  rw [hr] at h
  cases bytes with
  | nil =>
    cases h
    exact ⟨⟨rfl, hinput, ⟨[], hbytes, settle_running hp, ⟨ph, hp⟩, rfl⟩, hleft,
      .inr (hless hpos)⟩, fun hc => nomatch hc⟩
  | cons b bytes =>
    have hfeed := feed_phase hp (List.cons_ne_nil b bytes) (by omega)
    rw [← settle_running hp] at hfeed
    unfold arrive at hfeed
    simp only at h
    cases hput : r.put (b :: bytes) ph with
    | none =>
      simp only [hput] at h hfeed
      cases h
      exact ⟨⟨rfl, hinput, ⟨b :: bytes, hbytes, hfeed⟩, hleft, .inr (hless hpos)⟩,
        fun hc => nomatch hc⟩
    | some q =>
      obtain ⟨hsize, hfixed, hread, _⟩ := put_frame hput
      simp only [hput] at h hfeed
      by_cases hlt : q.packetRead < r.limit ph
      · rw [if_pos hlt] at h hfeed
        cases h
        exact ⟨⟨rfl, hinput, ⟨b :: bytes, hbytes, hfeed, ⟨ph, put_phase hp hput hlt⟩, rfl⟩, hleft,
          .inr (hless hpos)⟩, fun hc => nomatch hc⟩
      · rw [if_neg hlt] at h hfeed
        cases h
        exact ⟨⟨rfl, hinput, ⟨b :: bytes, hbytes, hfeed, rfl⟩, hleft, .inr (hless hpos)⟩,
          fun _ => ⟨q, rfl, hsize, hfixed, by omega⟩⟩

/-! ## The sections one after another -/

theorem allocBuffer_frame (p : PacketState) :
    p.allocBuffer.packetSize = p.packetSize ∧ p.allocBuffer.packetFixedPart = p.packetFixedPart ∧
      p.allocBuffer.packetRead = p.packetRead := by
  unfold allocBuffer
  split <;> exact ⟨rfl, rfl, rfl⟩

theorem readHeader_reached {r u : DBusLogReceiver} {out : ReadOutcome} (hdata : OnlyData r.input)
    (h : r.readHeader = (out, u)) :
    Reached r out u ∧ (out = .complete → packetHeaderSize ≤ u.packetRead) := by
  rw [readHeader_eq] at h
  by_cases hlt : r.packetRead < packetHeaderSize
  · rw [if_pos hlt] at h
    obtain ⟨hreached, hq⟩ := readPhase_reached hdata (if_pos hlt) h
    refine ⟨hreached, fun hout => ?_⟩
    obtain ⟨q, hu, _, _, hread⟩ := hq hout
    rw [hu]
    exact hread.ge
  · rw [if_neg hlt] at h
    cases h
    exact ⟨Reached.refl hdata, fun _ => Nat.le_of_not_lt hlt⟩

theorem readFixedPart_reached {r u : DBusLogReceiver} {out : ReadOutcome}
    (hdata : OnlyData r.input) (hheader : packetHeaderSize ≤ r.packetRead)
    (h : r.readFixedPart = (out, u)) :
    Reached r out u ∧ (out = .complete →
      packetHeaderSize ≤ u.packetRead ∧ u.packetFixedPart ≤ u.packetRead) := by
  rw [readFixedPart_eq] at h
  by_cases hlt : r.packetRead < r.packetFixedPart
  · rw [if_pos hlt] at h
    have hphase : r.phase = some .fixed :=
      (if_neg (Nat.not_lt.mpr hheader)).trans (if_pos hlt)
    obtain ⟨hreached, hq⟩ := readPhase_reached hdata hphase h
    refine ⟨hreached, fun hout => ?_⟩
    obtain ⟨q, hu, _, hfixed, hread⟩ := hq hout
    obtain ⟨_, hfixed', hread'⟩ := allocBuffer_frame q
    rw [hu]
    change packetHeaderSize ≤ q.allocBuffer.packetRead ∧
      q.allocBuffer.packetFixedPart ≤ q.allocBuffer.packetRead
    rw [hread', hfixed', hread, hfixed]
    exact ⟨hheader.trans hlt.le, le_rfl⟩
  · rw [if_neg hlt] at h
    cases h
    exact ⟨Reached.refl hdata, fun _ => ⟨hheader, Nat.le_of_not_lt hlt⟩⟩

theorem phase_none {p : PacketState} (hheader : packetHeaderSize ≤ p.packetRead)
    (hfixed : p.packetFixedPart ≤ p.packetRead) (hsize : p.packetSize ≤ p.packetRead) :
    p.phase = none := by
  unfold phase
  rw [if_neg (Nat.not_lt.mpr hheader), if_neg (Nat.not_lt.mpr hfixed),
    if_neg (Nat.not_lt.mpr hsize)]

theorem readData_reached {r u : DBusLogReceiver} {out : ReadOutcome} (hdata : OnlyData r.input)
    (hheader : packetHeaderSize ≤ r.packetRead) (hfixed : r.packetFixedPart ≤ r.packetRead)
    (h : r.readData = (out, u)) :
    Reached r out u ∧ (out = .complete → u.phase = none) := by
  rw [readData_eq] at h
  by_cases hlt : r.packetRead < r.packetSize
  · rw [if_pos hlt] at h
    have hphase : r.phase = some .data :=
      (if_neg (Nat.not_lt.mpr hheader)).trans
        ((if_neg (Nat.not_lt.mpr hfixed)).trans (if_pos hlt))
    obtain ⟨hreached, hq⟩ := readPhase_reached hdata hphase h
    refine ⟨hreached, fun hout => ?_⟩
    obtain ⟨q, hu, hsize', hfixed', hread⟩ := hq hout
    have hread : q.packetRead = r.packetSize := hread
    rw [hu]
    refine phase_none ?_ ?_ ?_
    · change packetHeaderSize ≤ q.packetRead
      omega
    · change q.packetFixedPart ≤ q.packetRead
      omega
    · change q.packetSize ≤ q.packetRead
      omega
  · rw [if_neg hlt] at h
    cases h
    exact ⟨Reached.refl hdata, fun _ => phase_none hheader hfixed (Nat.le_of_not_lt hlt)⟩

theorem readPacket_reached {r u : DBusLogReceiver} {out : ReadOutcome} (hdata : OnlyData r.input)
    (h : r.readPacket = (out, u)) : Reached r out u ∧ (out = .complete → u.phase = none) := by
  unfold readPacket at h
  cases hhead : r.readHeader with
  | mk out₁ r₁ =>
    obtain ⟨hr₁, hheader⟩ := readHeader_reached hdata hhead
    cases hfix : r₁.readFixedPart with
    | mk out₂ r₂ =>
      cases out₁ with
      | complete =>
        simp only [hhead, hfix] at h
        obtain ⟨hr₂, hfixed⟩ := readFixedPart_reached hr₁.onlyData (hheader rfl) hfix
        cases out₂ with
        | complete =>
          obtain ⟨hr₃, hdone⟩ :=
            readData_reached hr₂.onlyData (hfixed rfl).1 (hfixed rfl).2 h
          exact ⟨(hr₁.trans hr₂).trans hr₃, hdone⟩
        | wait | failed | fault =>
          cases h
          exact ⟨hr₁.trans hr₂, fun hc => nomatch hc⟩
      | wait | failed | fault =>
        simp only [hhead] at h
        cases h
        exact ⟨hr₁, fun hc => nomatch hc⟩

/-! ## A whole call -/

/-- Handlers that do not touch the receiver leave the parser's own result. -/
theorem handlePacket_passive (r : DBusLogReceiver) :
    r.handlePacket ReceiverHandlers.passive =
      ((r.toPacketState.handlePacket).1,
        { r with toPacketState := (r.toPacketState.handlePacket).2 }) := by
  unfold handlePacket PacketState.handlePacket
  by_cases hm : r.packetType = PacketType.message.toByte
  · have hskip : ({ r.toPacketState with packetBuffer := none } : PacketState).skipped
        r.receivedMessage.index = r.skipped r.receivedMessage.index := rfl
    rw [if_pos hm, if_pos hm]
    simp only [emit, ReceiverHandlers.passive, hskip]
    cases r.skipped r.receivedMessage.index with
    | none => simp only [Option.map_none, Option.toList_none, List.append_nil]
    | some count => simp only [Option.map_some, Option.toList_some]
  · rw [if_neg hm, if_neg hm]

/-- A packet that has been handled leaves the parser at a packet boundary. -/
theorem handlePacket_phase (p : PacketState) : p.handlePacket.2.phase = some .header := by
  unfold PacketState.handlePacket
  by_cases hm : p.packetType = PacketType.message.toByte
  · rw [if_pos hm]
    rfl
  · rw [if_neg hm]
    rfl

/-- A call of `read` by a waiting parser, with handlers that do not touch the receiver. -/
theorem read_feed {r u : DBusLogReceiver} {more : Option Bool} {ph : Phase}
    (hdata : OnlyData r.input) (hp : r.phase = some ph)
    (h : r.read ReceiverHandlers.passive = (more, u)) :
    u = { r with toPacketState := u.toPacketState, input := u.input, faulted := u.faulted } ∧
      OnlyData u.input ∧ (r.input ≠ [] → readsLeft u.input < readsLeft r.input) ∧
      ∃ bytes, pendingBytes r.input = bytes ++ pendingBytes u.input ∧
        match more with
        | some true => feed (.running r.toPacketState) bytes = .running u.toPacketState ∧
            (∃ ph, u.phase = some ph) ∧ u.faulted = r.faulted
        | some false => feed (.running r.toPacketState) bytes = .stopped u.toPacketState ∧
            u.faulted = r.faulted
        | none => feed (.running r.toPacketState) bytes = .faulted u.toPacketState := by
  unfold read at h
  cases hread : r.readPacket with
  | mk out v =>
    obtain ⟨hreached, hdone⟩ := readPacket_reached hdata hread
    obtain ⟨bytes, hbytes, hfed⟩ := hreached.fed
    have hprogress : r.input ≠ [] → readsLeft v.input < readsLeft r.input := by
      -- a packet is not complete before something has been read
      rcases hreached.progress with ⟨hc, hv⟩ | hless
      · have hphase := hdone hc
        rw [hv, hp] at hphase
        cases hphase
      · exact hless
    rw [settle_running hp] at hfed
    rw [hread] at h
    cases out with
    | wait =>
      cases h
      exact ⟨hreached.frame, hreached.onlyData, hprogress, bytes, hbytes, hfed⟩
    | failed => exact hfed.elim
    | fault =>
      cases h
      exact ⟨hreached.frame, hreached.onlyData, hprogress, bytes, hbytes, hfed⟩
    | complete =>
      simp only [handlePacket_passive] at h
      obtain ⟨hfed, hfault⟩ := hfed
      have hphase := handlePacket_phase v.toPacketState
      have hframe : ∀ q : PacketState, { v with toPacketState := q } =
          { r with toPacketState := q, input := v.input, faulted := v.faulted } := by
        intro q
        rw [hreached.frame]
      rw [settle_handled (hdone rfl)] at hfed
      unfold handled at hfed
      cases hres : v.toPacketState.handlePacket with
      | mk more' q =>
        rw [hres] at hfed h hphase
        cases h
        refine ⟨hframe q, hreached.onlyData, hprogress, bytes, hbytes, ?_⟩
        cases more' with
        | true => exact ⟨hfed, ⟨_, hphase⟩, hfault⟩
        | false => exact ⟨hfed, hfault⟩

end DBusLog.DBusLogReceiver

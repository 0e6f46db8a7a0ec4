import DBusLog.Sender.System

/-!
# The write watch of a sender

`WatchDiscipline` is what the sender should guarantee about its I/O watches. It can only break
in a scheduled write callback that finds no recorded watch: there `write` may finish the packet
in flight, prepare the next one and enter `schedule_write` again, and then the inner and the
outer call both add a watch, or the inner one closes the channel under the outer one.
-/

namespace DBusLog.DBusLogSender

/-- The live watches are exactly the recorded one, none outlives the channel, and none was ever
asked of a NULL channel. -/
structure WatchDiscipline (s : DBusLogSender) : Prop where
  recorded : s.watches = if s.writeWatchId = 0 then [] else [s.writeWatchId]
  closed : s.io = none → s.watches = []
  neverNull : s.nullWatches = 0

/-- The channel takes chunks of these sizes whole, one after another. -/
def takesAll : List Nat → List WriteAnswer → Bool
  | [], _ => true
  | n :: ns, .accept k :: answers => decide (n ≤ k) && takesAll ns answers
  | _ :: _, _ => false

/-- The channel writes that the packet in flight still needs: for the rest of its fixed part and
for the rest of its data. -/
def writesLeft (s : DBusLogSender) : List Nat :=
  if s.packetWritten < s.packetSize then
    [s.packetFixedPart - s.packetWritten,
      s.packetSize - max s.packetWritten s.packetFixedPart].filter (0 < ·)
  else []

/-- The channel writes that the packet of a message needs. -/
def messageWrites (m : DBusLogMessage) : List Nat :=
  [min packetMaxFixedPart m.wireSize, m.wireSize - packetMaxFixedPart].filter (0 < ·)

/-- A scheduled callback that finds an open channel without a recorded watch also finds nothing
queued behind the packet in flight, or does not get that packet out, or finds one last message
there and gets both out. -/
def CallbackSafe (s : DBusLogSender) : SenderStep → Prop
  | .callback answers => s.io.isSome = true → s.writeWatchId = 0 →
      s.buffer.items = [] ∧ s.bye = false ∨ takesAll s.writesLeft answers = false ∨
      s.bye = false ∧ s.done = false ∧ ∃ m ∈ s.buffer.items,
        s.buffer.items = [m] ∧ takesAll (s.writesLeft ++ messageWrites m) answers = true
  | _ => True

instance (s : DBusLogSender) : DecidablePred (CallbackSafe s)
  | .callback _ => inferInstanceAs (Decidable (_ → _ → _ ∨ _ ∨ _ ∧ _ ∧ ∃ m ∈ _, _ ∧ _))
  | .workerSend _ | .send _ _ | .ping _ | .close _ _ | .shutdown _ | .watch _ _ _ => isTrue trivial

/-! ## Getting a packet out -/

theorem takesAll_append {l l' : List Nat} {answers : List WriteAnswer}
    (h : takesAll (l ++ l') answers = true) :
    takesAll l answers = true ∧ takesAll l' (answers.drop l.length) = true := by
  induction l generalizing answers with
  | nil => exact ⟨rfl, h⟩
  | cons n l ih =>
    match answers, h with
    | .accept k :: answers, h =>
      simp only [List.cons_append, takesAll, Bool.and_eq_true] at h ⊢
      obtain ⟨h1, h2⟩ := ih h.2
      exact ⟨⟨h.1, h1⟩, h2⟩

/-- One channel write, when the channel takes all of it. -/
theorem writeUpTo_accept {s : DBusLogSender} {k : Nat} {answers : List WriteAnswer}
    (limit : Nat) (buf : List UInt8) (hio : s.io.isSome) (ha : s.answers = .accept k :: answers)
    (hk : limit - s.packetWritten ≤ k) (hle : s.packetWritten ≤ limit) :
    ∃ t, s.writeUpTo limit buf = (.sent, t) ∧ t.answers = answers ∧ t.packetWritten = limit := by
  obtain ⟨fd, hfd⟩ := Option.isSome_iff_exists.mp hio
  unfold writeUpTo writeChars
  simp only [hfd, ha, Nat.min_eq_right hk]
  rw [if_neg (by omega)]
  exact ⟨_, rfl, rfl, by simp only; omega⟩

theorem writeUpTo_sent {s t : DBusLogSender} {limit : Nat} {buf : List UInt8}
    (hio : s.io.isSome) (hlt : s.packetWritten < limit)
    (h : s.writeUpTo limit buf = (.sent, t)) :
    ∃ k answers, s.answers = .accept k :: answers ∧ limit - s.packetWritten ≤ k ∧
      t.answers = answers ∧ t.packetWritten = limit := by
  obtain ⟨fd, hfd⟩ := Option.isSome_iff_exists.mp hio
  cases ha : s.answers with
  | nil =>
    unfold writeUpTo writeChars at h
    simp only [hfd, ha, Nat.add_zero, if_pos hlt] at h
    cases h
  | cons a answers =>
    cases a with
    | error =>
      unfold writeUpTo writeChars at h
      simp only [hfd, ha] at h
      cases h
    | accept k =>
      by_cases hk : limit - s.packetWritten ≤ k
      · obtain ⟨t', ht', hat, hwt⟩ := writeUpTo_accept limit buf hio ha hk hlt.le
        cases ht'.symm.trans h
        exact ⟨k, answers, rfl, hk, hat, hwt⟩
      · unfold writeUpTo writeChars at h
        simp only [hfd, ha] at h
        rw [if_pos (by omega)] at h
        cases h

theorem writesLeft_fixed {s : DBusLogSender} (hlt : s.packetWritten < s.packetSize)
    (hfix : s.packetWritten < s.packetFixedPart) :
    s.writesLeft =
      (s.packetFixedPart - s.packetWritten) ::
        [s.packetSize - s.packetFixedPart].filter (0 < ·) := by
  unfold writesLeft
  rw [if_pos hlt, Nat.max_eq_right hfix.le, List.filter_cons_of_pos (by simp; omega)]

theorem writesLeft_data {s : DBusLogSender} (hlt : s.packetWritten < s.packetSize)
    (hfix : ¬s.packetWritten < s.packetFixedPart) :
    s.writesLeft = [s.packetSize - s.packetWritten] := by
  unfold writesLeft
  rw [if_pos hlt, Nat.max_eq_left (Nat.le_of_not_lt hfix), List.filter_cons_of_neg (by simp; omega),
    List.filter_cons_of_pos (by simp; omega), List.filter_nil]

theorem takesAll_cons {n : Nat} {ns : List Nat} {answers : List WriteAnswer}
    (h : takesAll (n :: ns) answers = true) :
    ∃ k rest, answers = .accept k :: rest ∧ n ≤ k ∧ takesAll ns rest = true := by
  match answers, h with
  | .accept k :: rest, h =>
    simp only [takesAll, Bool.and_eq_true, decide_eq_true_eq] at h
    exact ⟨k, rest, rfl, h⟩

/-- A packet gets out if the channel takes all the writes it still needs. -/
theorem writePacket_of_takesAll {s : DBusLogSender} (hio : s.io.isSome)
    (h : takesAll s.writesLeft s.answers = true) :
    ∃ t, s.writePacket = (.sent, t) ∧ t.answers = s.answers.drop s.writesLeft.length := by
  by_cases hlt : s.packetWritten < s.packetSize
  · unfold writePacket writeFixedPart
    rw [if_pos hlt]
    by_cases hfix : s.packetWritten < s.packetFixedPart
    · rw [writesLeft_fixed hlt hfix] at h ⊢
      obtain ⟨k, rest, ha, hk, hrest⟩ := takesAll_cons h
      obtain ⟨t, ht, hat, hwt⟩ :=
        writeUpTo_accept s.packetFixedPart (s.packet.bytes.drop s.packetWritten) hio ha hk hfix.le
      obtain ⟨_, _, _, hframe⟩ := writeUpTo_frame ht
      have htio : t.io.isSome := by rw [hframe]; exact hio
      have hsize : t.packetSize = s.packetSize := by rw [hframe]
      rw [if_pos hfix, ht]
      -- the data, if there is any behind the fixed part
      simp only [writeMessageData, hwt, hsize]
      by_cases hdata : s.packetFixedPart < s.packetSize
      · rw [List.filter_cons_of_pos (by simp; omega)] at hrest ⊢
        obtain ⟨k', rest', ha', hk', _⟩ := takesAll_cons hrest
        rw [if_pos hdata]
        obtain ⟨u, hu, hau, _⟩ := writeUpTo_accept s.packetSize
          (t.messageData.drop (s.packetFixedPart - t.packetFixedPart)) htio (hat.trans ha')
          (by rw [hwt]; exact hk') (by omega)
        refine ⟨u, hu, ?_⟩
        rw [hau, ha, ha']
        rfl
      · rw [List.filter_cons_of_neg (by simp; omega), if_neg hdata]
        refine ⟨t, rfl, ?_⟩
        rw [hat, ha]
        rfl
    · rw [writesLeft_data hlt hfix] at h ⊢
      obtain ⟨k, rest, ha, hk, _⟩ := takesAll_cons h
      rw [if_neg hfix]
      simp only [writeMessageData, if_pos hlt]
      obtain ⟨u, hu, hau, _⟩ := writeUpTo_accept s.packetSize
        (s.messageData.drop (s.packetWritten - s.packetFixedPart)) hio ha hk hlt.le
      refine ⟨u, hu, ?_⟩
      rw [hau, ha]
      rfl
  · refine ⟨s, if_neg hlt, ?_⟩
    unfold writesLeft
    rw [if_neg hlt]
    rfl

/-- A packet gets out only if the channel takes all the writes it still needs. -/
theorem takesAll_of_sent {s t : DBusLogSender} (hio : s.io.isSome)
    (h : s.writePacket = (.sent, t)) : takesAll s.writesLeft s.answers = true := by
  unfold writePacket at h
  split at h
  next hlt =>
    split at h
    next u hf =>
      unfold writeFixedPart at hf
      split at hf
      next hfix =>
        obtain ⟨k, answers, ha, hk, hua, huw⟩ := writeUpTo_sent hio hfix hf
        obtain ⟨_, _, _, hframe⟩ := writeUpTo_frame hf
        have huio : u.io.isSome := by rw [hframe]; exact hio
        have hsize : u.packetSize = s.packetSize := by rw [hframe]
        rw [writesLeft_fixed hlt hfix, ha]
        -- the data, if there is any behind the fixed part
        unfold writeMessageData at h
        split at h
        next hdata =>
          obtain ⟨k', answers', ha', hk', _⟩ := writeUpTo_sent huio hdata h
          rw [huw, hsize] at hdata hk'
          rw [List.filter_cons_of_pos (by simp; omega), ← hua, ha']
          simp [takesAll, hk, hk']
        next hdata =>
          rw [huw, hsize] at hdata
          rw [List.filter_cons_of_neg (by simp; omega)]
          simp [takesAll, hk]
      next hfix =>
        cases hf
        unfold writeMessageData at h
        rw [if_pos hlt] at h
        obtain ⟨k, answers, ha, hk, _⟩ := writeUpTo_sent hio hlt h
        rw [writesLeft_data hlt hfix, ha]
        simp [takesAll, hk]
    all_goals cases h
  next hge =>
    unfold writesLeft
    rw [if_neg hge]
    rfl

/-! ## The invariant -/

/-- The discipline, and what keeps the main thread away from nested calls: an idle open sender
without a watch has nothing queued. -/
structure WatchInv (s : DBusLogSender) : Prop extends WatchDiscipline s where
  drained : s.io.isSome → s.Idle → s.writeWatchId = 0 → s.buffer.items = [] ∧ s.bye = false

/-- A live watch is the recorded one, and its channel is open. -/
theorem WatchDiscipline.live {s : DBusLogSender} {id : Nat} (h : WatchDiscipline s)
    (hid : id ∈ s.watches) : s.io.isSome ∧ s.writeWatchId ≠ 0 := by
  refine ⟨Option.isSome_iff_ne_none.mpr fun hio => ?_, fun h0 => ?_⟩
  · rw [h.closed hio] at hid
    cases hid
  · rw [h.recorded, if_pos h0] at hid
    cases hid

theorem WatchInv.new (name : String) (backlog : Int32) (readfd writefd : Nat) :
    WatchInv (new name backlog readfd writefd) where
  recorded := rfl
  closed _ := rfl
  neverNull := rfl
  drained _ _ _ := ⟨rfl, rfl⟩

/-- No watch is live and none is recorded. -/
structure Unwatched (s : DBusLogSender) : Prop where
  watches : s.watches = []
  forgotten : s.writeWatchId = 0
  neverNull : s.nullWatches = 0

theorem WatchDiscipline.unwatched {s : DBusLogSender} (h : WatchDiscipline s)
    (hw : s.writeWatchId = 0) : Unwatched s where
  watches := by rw [h.recorded, if_pos hw]
  forgotten := hw
  neverNull := h.neverNull

theorem Unwatched.watchInv {s : DBusLogSender} (h : Unwatched s)
    (hd : s.io.isSome → s.Idle → s.buffer.items = [] ∧ s.bye = false) : WatchInv s where
  recorded := by rw [h.watches, if_pos h.forgotten]
  closed _ := h.watches
  neverNull := h.neverNull
  drained hio hidle _ := hd hio hidle

theorem Unwatched.addWatch {s : DBusLogSender} (h : Unwatched s) (hio : s.io.isSome) :
    WatchInv s.addWatch := by
  rw [addWatch_of_open hio]
  refine ⟨⟨?_, ?_, h.neverNull⟩, ?_⟩
  · simp [h.watches]
  · intro hnone
    simp only at hnone
    rw [hnone] at hio
    cases hio
  · intro _ _ h0
    cases h0

/-- `dbus_log_sender_shutdown` leaves no watch behind. -/
theorem WatchDiscipline.shutdown {s : DBusLogSender} (h : WatchDiscipline s) (flush : Bool) :
    WatchInv (s.shutdown flush) := by
  have hnil : (s.shutdown flush).watches = [] := by
    change (if s.writeWatchId = 0 then s.watches else s.watches.filter (· ≠ s.writeWatchId)) = []
    rw [h.recorded]
    split <;> simp
  refine Unwatched.watchInv ⟨hnil, rfl, h.neverNull⟩ ?_
  intro hio
  cases hio

theorem Unwatched.shutdown {s : DBusLogSender} (h : Unwatched s) (flush : Bool) :
    WatchInv ({ s with writeWatchId := 0 }.shutdown flush) := by
  refine Unwatched.watchInv ⟨h.watches, rfl, h.neverNull⟩ ?_
  intro hio
  cases hio

/-- Nothing was left to write. -/
theorem Unwatched.finish {s : DBusLogSender} (h : Unwatched s) (hb : s.buffer.items = [])
    (hbye : s.bye = false) : WatchInv s.finish := by
  unfold DBusLogSender.finish
  by_cases hdone : s.done = true
  · simp only [if_pos hdone]
    exact h.shutdown true
  · simp only [if_neg hdone]
    exact Unwatched.watchInv ⟨h.watches, rfl, h.neverNull⟩ fun _ _ => ⟨hb, hbye⟩

/-- What a new current message still has to have written. -/
theorem writesLeft_prepareCurrentMessage {s : DBusLogSender} {m : DBusLogMessage}
    (hm : s.currentMessage = some m) :
    s.prepareCurrentMessage.writesLeft = messageWrites m := by
  obtain ⟨packet, he⟩ := prepareCurrentMessage_frame hm
  rw [he]
  unfold writesLeft messageWrites
  simp only [Nat.sub_zero, Nat.zero_max]
  by_cases h0 : 0 < m.wireSize
  · rw [if_pos h0]
    congr 2
    simp only [List.cons.injEq, and_true]
    omega
  · rw [if_neg h0, Nat.eq_zero_of_not_pos h0]
    rfl

/-- A nested call that gets the last message out and ends with an empty queue: the outer call
then adds the only watch. -/
theorem Unwatched.scheduleWrite_last {u : DBusLogSender} (h : Unwatched u) (hio : u.io.isSome)
    (hb : u.buffer.items = []) (hbye : u.bye = false) (hdone : u.done = false)
    (htakes : takesAll u.writesLeft u.answers = true) :
    WatchInv u.scheduleWrite.addWatch := by
  obtain ⟨v, hv, _⟩ := writePacket_of_takesAll hio htakes
  obtain ⟨answers, accepted, written, hframe⟩ := writePacket_frame hv
  have hvb : v.buffer.items = [] := by rw [hframe]; exact hb
  have hvbye : v.bye = false := by rw [hframe]; exact hbye
  have hvdone : v.done = false := by rw [hframe]; exact hdone
  have hvio : v.io.isSome := by rw [hframe]; exact hio
  rcases nextPacket_cases v with ⟨m, rest, hcons, _⟩ | ⟨_, htrue, _⟩ | ⟨_, _, he⟩
  · cases hcons.symm.trans hvb
  · cases htrue.symm.trans hvbye
  · rw [scheduleWrite_stop ⟨hio, h.forgotten⟩ hv he]
    unfold DBusLogSender.finish
    simp only [hvdone, Bool.false_eq_true, if_false]
    refine Unwatched.addWatch ⟨?_, rfl, ?_⟩ hvio
    · rw [hframe]
      exact h.watches
    · rw [hframe]
      exact h.neverNull

/-- A call of `schedule_write` under the condition of a safe callback. -/
theorem WatchInv.scheduleWrite {s : DBusLogSender} (h : WatchInv s)
    (hsafe : CallbackSafe s (.callback s.answers)) : WatchInv s.scheduleWrite := by
  by_cases hc : s.io.isSome ∧ s.writeWatchId = 0
  · obtain ⟨hio, hw⟩ := hc
    have hun := h.unwatched hw
    cases hp : s.writePacket with
    | mk r t =>
      obtain ⟨answers, accepted, written, ht⟩ := writePacket_frame hp
      have hunt : Unwatched t := by rw [ht]; exact ⟨hun.watches, hw, hun.neverNull⟩
      have htio : t.io.isSome := by rw [ht]; exact hio
      have htb : t.buffer = s.buffer := by rw [ht]
      have htbye : t.bye = s.bye := by rw [ht]
      cases r with
      | wait =>
        rw [scheduleWrite_wait ⟨hio, hw⟩ hp]
        exact hunt.addWatch htio
      | failed =>
        rw [scheduleWrite_failed ⟨hio, hw⟩ hp]
        exact hunt.shutdown false
      | sent =>
        have htakes := takesAll_of_sent hio hp
        rcases nextPacket_cases t with ⟨m, rest, hb, he⟩ | ⟨hb, hbye, he⟩ | ⟨hb, hbye, he⟩
        · -- a nested call: only the last alternative is left
          rw [htb] at hb
          rcases hsafe hio hw with ⟨hnil, _⟩ | hnot | ⟨hbye, hdone, m', _, hb', htakes2⟩
          · cases hb.symm.trans hnil
          · cases hnot.symm.trans htakes
          · cases hb.symm.trans hb'
            obtain ⟨_, ht2, hat⟩ := writePacket_of_takesAll hio htakes
            cases hp.symm.trans ht2
            obtain ⟨packet, hu⟩ := prepareCurrentMessage_frame
              (s := { t with currentMessage := some m, buffer := t.buffer.get.2 }) rfl
            rw [scheduleWrite_next ⟨hio, hw⟩ hp he]
            refine Unwatched.scheduleWrite_last ?_ ?_ ?_ ?_ ?_ ?_
            · rw [hu]
              exact ⟨hunt.watches, hunt.forgotten, hunt.neverNull⟩
            · rw [hu]
              exact htio
            · rw [hu]
              simp [htb, hb]
            · rw [hu]
              exact htbye.trans hbye
            · rw [hu, ht]
              exact hdone
            · rw [writesLeft_prepareCurrentMessage rfl, hu]
              simp only
              rw [hat]
              exact (takesAll_append htakes2).2
        · rw [htbye] at hbye
          rcases hsafe hio hw with ⟨_, hbye'⟩ | hnot | ⟨hbye', _⟩
          · cases hbye.symm.trans hbye'
          · cases hnot.symm.trans htakes
          · cases hbye.symm.trans hbye'
        · rw [scheduleWrite_stop ⟨hio, hw⟩ hp he]
          refine Unwatched.finish ⟨hunt.watches, hunt.forgotten, hunt.neverNull⟩ ?_ hbye
          simp [hb]
  · rw [scheduleWrite_eq, if_neg hc]
    exact h

/-- The source that called `write` is removed after it returns FALSE. -/
theorem Unwatched.removeSource {s : DBusLogSender} {id : Nat} (hw : ∀ w ∈ s.watches, w = id)
    (h0 : s.writeWatchId = 0) (hn : s.nullWatches = 0) : Unwatched (s.removeSource id) where
  watches := by simpa [DBusLogSender.removeSource] using hw
  forgotten := h0
  neverNull := hn

/-- A live watch is the recorded one, so its callback makes no nested call. -/
theorem WatchInv.writeCallback {s : DBusLogSender} {id : Nat} (h : WatchInv s)
    (hid : id ∈ s.watches) (out : Bool) : WatchInv (s.writeCallback id out) := by
  have hw : s.writeWatchId ≠ 0 := (h.live hid).2
  have honly : ∀ w ∈ s.watches, w = id := by
    rw [h.recorded, if_neg hw, List.mem_singleton] at hid
    rw [h.recorded, if_neg hw, hid]
    simp
  have hclosed : ∀ t : DBusLogSender, t.watches = s.watches → t.nullWatches = 0 →
      ∀ flush, WatchInv (({ t with writeWatchId := 0 }.shutdown flush).removeSource id) := by
    intro t ht hn flush
    refine Unwatched.watchInv (Unwatched.removeSource ?_ rfl hn) ?_
    · change ∀ w ∈ t.watches, w = id
      rw [ht]
      exact honly
    · intro hio
      cases hio
  -- a nested `schedule_write` finds the recorded watch and does nothing
  have hnested : ∀ u : DBusLogSender, u.watches = s.watches → u.writeWatchId = s.writeWatchId →
      u.io = s.io → u.nullWatches = 0 → WatchInv u.scheduleWrite := by
    intro u huw hurec huio hun
    have hu : u.writeWatchId ≠ 0 := by rwa [hurec]
    rw [scheduleWrite_of_watch hu]
    refine ⟨⟨?_, ?_, hun⟩, fun _ _ h0 => absurd h0 hu⟩
    · rw [huw, hurec]
      exact h.recorded
    · rw [huw, huio]
      exact h.closed
  unfold DBusLogSender.writeCallback
  cases out with
  | false => exact hclosed s rfl h.neverNull false
  | true =>
    rw [if_pos rfl]
    cases hp : s.writePacket with
    | mk r t =>
      obtain ⟨answers, accepted, written, ht⟩ := writePacket_frame hp
      have htw : t.watches = s.watches := by rw [ht]
      have htn : t.nullWatches = 0 := by rw [ht]; exact h.neverNull
      cases r with
      | wait =>
        rw [write_wait hp, ht]
        exact ⟨⟨h.recorded, h.closed, h.neverNull⟩, fun _ _ h0 => absurd h0 hw⟩
      | failed =>
        rw [write_failed hp]
        exact hclosed t htw htn false
      | sent =>
        rcases nextPacket_cases t with ⟨m, rest, hb, he⟩ | ⟨hb, hbye, he⟩ | ⟨hb, hbye, he⟩
        · rw [write_next hp he]
          obtain ⟨packet, hu⟩ := prepareCurrentMessage_frame
            (s := { t with currentMessage := some m, buffer := t.buffer.get.2 }) rfl
          refine hnested _ ?_ ?_ ?_ ?_
          · rw [hu]
            exact htw
          · rw [hu, ht]
          · rw [hu, ht]
          · rw [hu]
            exact htn
        · rw [write_next hp he]
          refine hnested _ htw ?_ ?_ htn
          · rw [ht]
            rfl
          · rw [ht]
            rfl
        · rw [write_stop hp he]
          unfold DBusLogSender.finish
          by_cases hdone : t.done = true
          · simp only [if_pos hdone]
            exact hclosed { t with
              currentMessage := none, buffer := t.buffer.get.2, packetWritten := 0,
              packetSize := 0, packetFixedPart := 0 } htw htn true
          · simp only [if_neg hdone]
            refine Unwatched.watchInv (Unwatched.removeSource ?_ rfl htn) fun _ _ => ⟨?_, hbye⟩
            · simp only
              rw [htw]
              exact honly
            · simp [DBusLogSender.removeSource, hb]

/-! ## Steps and runs -/

section Prepared

variable {s t : DBusLogSender}

/-- A step that keeps the watches and the channel of a sender keeps the invariant, if an open
sender without a watch has nothing queued after it. -/
theorem WatchInv.of_frame (h : WatchInv s) (hw : t.watches = s.watches)
    (hrec : t.writeWatchId = s.writeWatchId) (hn : t.nullWatches = s.nullWatches)
    (hio : t.io = s.io)
    (hd : s.io.isSome → t.Idle → s.writeWatchId = 0 → t.buffer.items = [] ∧ t.bye = false) :
    WatchInv t := by
  refine ⟨⟨?_, ?_, ?_⟩, ?_⟩
  · rw [hw, hrec]
    exact h.recorded
  · rw [hw, hio]
    exact h.closed
  · rw [hn]
    exact h.neverNull
  · rwa [hio, hrec]

/-- The calls of the main thread enter `schedule_write` with nothing queued. -/
theorem WatchInv.scheduleWrite_of_frame (h : WatchInv s) (hw : t.watches = s.watches)
    (hrec : t.writeWatchId = s.writeWatchId) (hn : t.nullWatches = s.nullWatches)
    (hio : t.io = s.io)
    (hd : s.io.isSome → s.writeWatchId = 0 → t.buffer.items = [] ∧ t.bye = false) :
    WatchInv t.scheduleWrite := by
  have ht : WatchInv t := h.of_frame hw hrec hn hio fun ho _ => hd ho
  refine ht.scheduleWrite ?_
  intro ho h0
  rw [hio] at ho
  rw [hrec] at h0
  exact .inl (hd ho h0)

end Prepared

theorem WatchInv.sendFromWorker {s : DBusLogSender} (h : WatchInv s) (msg : DBusLogMessage) :
    WatchInv (s.sendFromWorker msg) := by
  unfold DBusLogSender.sendFromWorker
  rcases sendLocked_cases s msg with ⟨_, he⟩ | ⟨_, hidle, he⟩ | ⟨_, hidle, he⟩
  · rw [he]
    exact h
  · rw [he]
    obtain ⟨packet, hp⟩ := prepareCurrentMessage_frame
      (s := { s with currentMessage := some msg }) rfl
    rw [hp]
    exact h.of_frame rfl rfl rfl rfl fun ho _ => h.drained ho hidle
  · rw [he]
    exact h.of_frame rfl rfl rfl rfl fun _ hidle' => absurd hidle' hidle

theorem WatchInv.send {s : DBusLogSender} (h : WatchInv s) (msg : DBusLogMessage) :
    WatchInv (s.send msg) := by
  unfold DBusLogSender.send
  rcases sendLocked_cases s msg with ⟨_, he⟩ | ⟨_, hidle, he⟩ | ⟨_, hidle, he⟩
  · rw [he]
    exact h
  · rw [he]
    obtain ⟨packet, hp⟩ := prepareCurrentMessage_frame
      (s := { s with currentMessage := some msg }) rfl
    rw [hp]
    exact h.scheduleWrite_of_frame rfl rfl rfl rfl fun ho => h.drained ho hidle
  · rw [he]
    exact h.of_frame rfl rfl rfl rfl fun _ hidle' => absurd hidle' hidle

theorem WatchInv.ping {s : DBusLogSender} (h : WatchInv s) (hidle : s.Idle) :
    WatchInv s.ping.2 := by
  rcases ping_cases s with ⟨_, he⟩ | ⟨_, he⟩
  · rw [he]
    exact h.scheduleWrite_of_frame rfl rfl rfl rfl fun ho => h.drained ho hidle
  · rw [he]
    exact h

theorem WatchInv.close {s : DBusLogSender} (h : WatchInv s) (bye : Bool) :
    WatchInv (s.close bye) := by
  unfold DBusLogSender.close
  rcases closeLocked_cases s with ⟨_, he⟩ | ⟨_, _, hb, he⟩ | ⟨_, hnot, he⟩
  · rw [he]
    exact h
  · rw [he]
    exact h.scheduleWrite_of_frame rfl rfl rfl rfl fun _ _ => ⟨hb, rfl⟩
  · rw [he]
    refine h.of_frame rfl rfl rfl rfl ?_
    -- an idle sender without a watch would have had an empty ring
    intro ho hidle h0
    exact absurd ⟨hidle, (h.drained ho hidle h0).1⟩ hnot

theorem WatchInv.answers {s : DBusLogSender} (h : WatchInv s) (answers : List WriteAnswer) :
    WatchInv { s with answers := answers } :=
  ⟨⟨h.recorded, h.closed, h.neverNull⟩, h.drained⟩

theorem WatchInv.step {s t : DBusLogSender} {a : SenderStep} (h : WatchInv s)
    (hsafe : CallbackSafe s a) (ht : s.step a = some t) : WatchInv t := by
  have hanswers := h.answers
  cases a with
  | workerSend msg =>
    cases ht
    exact h.sendFromWorker msg
  | send msg answers =>
    cases ht
    exact (hanswers answers).send msg
  | ping answers =>
    obtain ⟨hidle, he⟩ := Option.ite_none_right_eq_some.mp ht
    cases he
    exact (hanswers answers).ping hidle
  | close bye answers =>
    cases ht
    exact (hanswers answers).close bye
  | shutdown flush =>
    cases ht
    exact h.shutdown flush
  | callback answers =>
    obtain ⟨_, he⟩ := Option.ite_none_right_eq_some.mp ht
    cases he
    have hp : WatchInv { s with answers := answers, pending := s.pending - 1 } :=
      ⟨⟨h.recorded, h.closed, h.neverNull⟩, h.drained⟩
    exact hp.scheduleWrite hsafe
  | watch id out answers =>
    obtain ⟨hid, he⟩ := Option.ite_none_right_eq_some.mp ht
    cases he
    exact (hanswers answers).writeCallback hid out

/-- In every run from a fresh sender whose scheduled callbacks are safe, the watches of the
sender are exactly the recorded one. -/
theorem watchDiscipline_of_callbackSafe (name : String) (backlog : Int32) (readfd writefd : Nat)
    {steps : List SenderStep} {t : DBusLogSender}
    (hsafe : Runs.Meets step CallbackSafe (new name backlog readfd writefd) steps)
    (hrun : run (new name backlog readfd writefd) steps = some t) : WatchDiscipline t :=
  (Runs.invariant_of_meets (fun _ _ _ h hc ht => h.step hc ht) hsafe hrun
    (WatchInv.new name backlog readfd writefd)).toWatchDiscipline

/-- A message from a worker whose packet takes two writes to get out. -/
theorem watchDiscipline_of_callbackSafe_run : ∃ t,
    run (new "peer" 0 3 4) [.workerSend (.new (some [104, 105])), .callback [.accept 10],
      .watch 1 true [.accept 22, .accept 2]] = some t ∧ WatchDiscipline t := by
  obtain ⟨t, ht⟩ := Option.isSome_iff_exists.mp (by decide : (run (new "peer" 0 3 4)
    [.workerSend (.new (some [104, 105])), .callback [.accept 10],
      .watch 1 true [.accept 22, .accept 2]]).isSome)
  exact ⟨t, ht, watchDiscipline_of_callbackSafe "peer" 0 3 4 (by decide) ht⟩

/-- Two queued messages of a worker make a scheduled callback add two watches, and a close behind
a message of a worker makes it watch a NULL channel. -/
theorem scheduledCallback_watchesTwice :
    (∃ t, run (new "peer" 0 3 4) [.workerSend (.new (some [104])), .workerSend (.new (some [105])),
        .callback [.accept 22, .accept 1]] = some t ∧ t.watches = [2, 1] ∧ ¬WatchDiscipline t) ∧
    (∃ t, run (new "peer" 0 3 4) [.workerSend (.new (some [104])), .close true [],
        .callback [.accept 22, .accept 1, .accept 5]] = some t ∧ t.nullWatches = 1 ∧
      ¬WatchDiscipline t) := by
  constructor
  · obtain ⟨t, ht, hw⟩ := Option.map_eq_some_iff.mp (by decide : (run (new "peer" 0 3 4)
      [.workerSend (.new (some [104])), .workerSend (.new (some [105])),
        .callback [.accept 22, .accept 1]]).map (·.watches) = some [2, 1])
    refine ⟨t, ht, hw, ?_⟩
    intro h
    have hrec := hw.symm.trans h.recorded
    split at hrec <;> simp at hrec
  · obtain ⟨t, ht, hn⟩ := Option.map_eq_some_iff.mp (by decide : (run (new "peer" 0 3 4)
      [.workerSend (.new (some [104])), .close true [],
        .callback [.accept 22, .accept 1, .accept 5]]).map (·.nullWatches) = some 1)
    refine ⟨t, ht, hn, ?_⟩
    intro h
    cases hn.symm.trans h.neverNull

end DBusLog.DBusLogSender

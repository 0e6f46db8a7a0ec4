import DBusLog.Server.Dbus
import DBusLog.Server.Gio
import DBusLog.Server.Sessions

/-!
# Who reads the pipes

A sender learns that its peer is gone from a write or a poll that fails, and that happens only if
nobody has the read end of the pipe open any more. The GIO back end hands the read end over to its
reply; the libdbus one lets the reply duplicate it and keeps its own.
-/

namespace DBusLog

namespace DBusLogServerDbus

variable {Cred Policy : Type} (lib : Libraries Cred Policy)

/-- A step of a libdbus server, with its handlers. -/
def step (s : DBusLogServer Policy DBusLogServerDbus) :
    SessionOp → Option (DBusLogServer Policy DBusLogServerDbus)
  | .logOpen ctx name => some (handleLogOpen lib ctx s (message s.path name .logOpen)).2
  | .logClose ctx name cookie =>
    some (handleLogClose ctx s (message s.path name (.logClose cookie))).2
  | op => s.sessionStep lib klass false op

/-- The handlers do what the functions behind them do. -/
theorem step_eq (s : DBusLogServer Policy DBusLogServerDbus) (op : SessionOp) :
    step lib s op = s.sessionStep lib klass false op := by
  cases op with
  | logOpen ctx name =>
    change some (handleLogOpen lib ctx s (message s.path name .logOpen)).2 =
      some (s.openLog lib klass false ctx name)
    rw [handleLogOpen_snd]
    unfold DBusLogServer.openLog
    dsimp only
    rw [if_neg fun h => Bool.false_ne_true h.1]
    rfl
  | _ => rfl

end DBusLogServerDbus

namespace DBusLogServerGio

variable {Cred Policy : Type} (lib : Libraries Cred Policy)

/-- A step of a GIO server, with its handlers. -/
def step (s : DBusLogServer Policy DBusLogServerGio) :
    SessionOp → Option (DBusLogServer Policy DBusLogServerGio)
  | .logOpen ctx name => some (handleOpen lib ctx s name).2
  | .logClose ctx name cookie => some (handleClose ctx s name cookie).2
  | op => s.sessionStep lib klass true op

theorem step_eq {s : DBusLogServer Policy DBusLogServerGio} (h : s.backend.bus = true)
    (op : SessionOp) : step lib s op = s.sessionStep lib klass true op := by
  cases op with
  | logOpen ctx name =>
    change some (handleOpen lib ctx s name).2 = some (s.openLog lib klass true ctx name)
    unfold handleOpen DBusLogServer.openLog
    rw [if_pos h]
    cases hcall : s.callLogOpen lib klass ctx name with
    | mk fd s' =>
      simp only [true_and]
      split <;> rfl
  | _ => rfl

end DBusLogServerGio

namespace DBusLogSender

variable {s : DBusLogSender}

theorem writeUpTo_refused (hio : s.io.isSome) (herror : s.answers.head? = some .error)
    (limit : Nat) (buf : List UInt8) : ∃ t, s.writeUpTo limit buf = (.failed, t) := by
  obtain ⟨fd, hfd⟩ := Option.isSome_iff_exists.mp hio
  obtain ⟨rest, hrest⟩ := List.head?_eq_some_iff.mp herror
  unfold writeUpTo writeChars
  rw [hfd, hrest]
  exact ⟨_, rfl⟩

theorem writePacket_refused (hio : s.io.isSome) (herror : s.answers.head? = some .error)
    (hflight : s.packetWritten < s.packetSize) : ∃ t, s.writePacket = (.failed, t) := by
  unfold writePacket writeFixedPart
  rw [if_pos hflight]
  by_cases hfixed : s.packetWritten < s.packetFixedPart
  · rw [if_pos hfixed]
    obtain ⟨t, ht⟩ := writeUpTo_refused hio herror s.packetFixedPart
      (s.packet.bytes.drop s.packetWritten)
    rw [ht]
    exact ⟨t, rfl⟩
  · rw [if_neg hfixed]
    unfold writeMessageData
    dsimp only
    rw [if_pos hflight]
    exact writeUpTo_refused hio herror _ _

/-- A callback that has to write on a pipe without readers. -/
theorem writeCallback_refused (hio : s.io.isSome) (herror : s.answers.head? = some .error)
    (hflight : s.packetWritten < s.packetSize) (id : Nat) : (s.writeCallback id true).io = none := by
  obtain ⟨t, ht⟩ := writePacket_refused hio herror hflight
  unfold writeCallback
  rw [if_pos rfl, write_failed ht]
  rfl

end DBusLogSender

namespace DBusLogServer

/-- The server has the read end of no pipe. -/
def NoReader {Policy β : Type} (s : DBusLogServer Policy β) : Prop :=
  ∀ i d, s.core.senderAt i = some d → d.readfd = none

/-- The sender is shut down and out of the core. -/
def Gone {Policy β : Type} (s : DBusLogServer Policy β) (i : Nat) : Prop :=
  ∃ d, s.core.senderAt i = some d ∧ d.io = none ∧ d.done = true ∧ i ∉ s.core.registered

section Readers

variable {Cred Policy β : Type} (lib : Libraries Cred Policy) (klass : DBusLogServerClass β)

/-- The operation is a call of `LogOpen` that goes through. -/
def Opens (s : DBusLogServer Policy β) (op : SessionOp) : Prop :=
  ∃ ctx name, op = .logOpen ctx name ∧ s.accessAllowed lib name .logOpen = true ∧
    ctx.pipe.isSome = true

/-- If the operation calls into the sender, what the channel of the sender answers. -/
def answersFor (s : DBusLogServer Policy β) (i : Nat) : SessionOp → Option (List WriteAnswer)
  | .logOpen ctx name =>
    if (s.peers.lookup name).map (·.sender) = some i ∧
        0 ≤ (s.callLogOpen lib klass ctx name).1 then some (ctx.answers i)
    else none
  | .logClose ctx name _ | .vanished ctx name =>
    if (s.peers.lookup name).map (·.sender) = some i then some (ctx.answers i) else none
  | .log ctx level cname _ | .logv ctx level cname _ =>
    if i ∈ s.core.registered ∧ (s.core.shouldLog level cname).1 = true ∧ ctx.worker = false then
      some (ctx.answers i)
    else none
  | .sender j a => if j = i then a.answers? else none

/-- A pipe that nobody reads refuses every write. `left` are the senders whose clients have closed
their descriptors. -/
def KernelAllows (left : List Nat) (s : DBusLogServer Policy β) (op : SessionOp) : Prop :=
  ∀ i ∈ left, (∀ d, s.core.senderAt i = some d → d.readfd = none) →
    ∀ answers, s.answersFor lib klass i op = some answers → answers.head? = some .error

/-- The operation makes the sender write to its channel. -/
def Writes (s s' : DBusLogServer Policy β) (i : Nat) (op : SessionOp) : Prop :=
  ∃ answers, s.answersFor lib klass i op = some answers ∧
    ∀ d', s'.core.senderAt i = some d' → d'.answers ≠ answers

/-- The operation is the callback of a poll that has found the pipe without a reader: there is
nothing but an error or a hang-up to report, or a packet is in flight. -/
def Polls (s : DBusLogServer Policy β) (i : Nat) (op : SessionOp) : Prop :=
  ∃ id out answers, op = .sender i (.watch id out answers) ∧
    (out = true → ∀ d, s.core.senderAt i = some d → d.packetWritten < d.packetSize)

/-- A sender whose client has left goes with the next write or poll. -/
def Notices (step : DBusLogServer Policy β → SessionOp → Option (DBusLogServer Policy β))
    (s : DBusLogServer Policy β) : Prop :=
  ∀ left i op s', i ∈ left → i ∈ s.core.registered → step s op = some s' →
    KernelAllows lib klass left s op → (Writes lib klass s s' i op ∨ Polls s i op) → Gone s' i

variable {lib klass} {handsOver : Bool} {s s' : DBusLogServer Policy β}

/-! ## Noticing -/

/-- What the descriptor that is handed over changes in the core. -/
theorem stealReadfd_core (s : DBusLogServer Policy β) (name : String) (fd : Int) :
    (s.stealReadfd name fd).2 = s ∨ ∃ peer, s.peers.lookup name = some peer ∧
      (s.stealReadfd name fd).2 =
        { s with core := s.core.runSender peer.sender fun d => { d with readfd := none } } := by
  unfold stealReadfd
  cases hlookup : (if fd ≥ 0 then s.peers.lookup name else none) with
  | none => exact .inl rfl
  | some peer =>
    dsimp only
    split
    · exact .inr ⟨peer, (Option.ite_none_right_eq_some.mp hlookup).2, rfl⟩
    · exact .inl rfl

theorem removePeer_later (h : Bookkept s) (ctx : ServerContext) {name : String} {i : Nat}
    {d : DBusLogSender} (hd : s.core.senderAt i = some d)
    (hpeer : (s.peers.lookup name).map (·.sender) = some i) :
    ∃ d', (s.removePeer klass ctx name).core.senderAt i = some d' ∧
      DBusLogSender.Later { d with answers := ctx.answers i } d' := by
  obtain ⟨peer, hlookup, rfl⟩ := Option.map_eq_some_iff.mp hpeer
  obtain ⟨_, _, hclosed⟩ := h.runPeer (KeyedTable.mem_of_lookup hlookup)
    (close_onward (ctx.answers peer.sender))
  unfold removePeer
  rw [hlookup]
  exact ⟨_, hclosed d hd, DBusLogSender.close_later _ true⟩

theorem logMessage_later (h : DBusLogCore.Sound [] s.core) {i : Nat} {d : DBusLogSender}
    (hd : s.core.senderAt i = some d) {ctx : LogContext} {level : Level} {cname : Option String}
    (msg : DBusLogMessage) (hcategory : msg.category = 0) (hi : i ∈ s.core.registered)
    (haccepted : (s.core.shouldLog level cname).1 = true) (hworker : ctx.worker = false) :
    ∃ d', (s.core.logMessage ctx level cname msg).2.senderAt i = some d' ∧
      DBusLogSender.Later { d with answers := ctx.answers i } d' := by
  obtain hsame | ⟨_, hcall⟩ := DBusLogCore.logMessage_cases h ctx level cname hcategory
  · exfalso
    unfold DBusLogCore.logMessage at hsame
    cases hshould : s.core.shouldLog level cname with
    | mk accepted cat =>
      rw [hshould] at haccepted hsame
      cases haccepted
      cases congrArg Prod.fst hsame
  · rw [hcall.senders i, if_pos hi]
    change ∃ d', (s.core.senderAt i).map _ = some d' ∧ _
    rw [hd]
    refine ⟨_, rfl, ?_⟩
    unfold DBusLogCore.handCall
    rw [if_neg (by rw [hworker]; exact Bool.false_ne_true)]
    exact DBusLogSender.send_later _ _

/-- A `LogOpen` that goes through closes the older sender of the peer. What follows is about the new
one. -/
theorem openLog_closed (h : Bookkept s) (ctx : ServerContext) {name : String}
    {old : DBusLogServerPeer} (hlookup : s.peers.lookup name = some old)
    (hfd : (s.callLogOpen lib klass ctx name).1 ≥ 0) {d : DBusLogSender}
    (hd : s.core.senderAt old.sender = some d) :
    (s.openLog lib klass handsOver ctx name).core.senderAt old.sender =
      some ({ d with answers := ctx.answers old.sender }.close true) := by
  obtain ⟨_, err, hneg, hcall⟩ |
    ⟨readfd, writefd, core, watchId, backend, _, _, hjoined, hcall⟩ :=
    callLogOpen_cases h.sound lib klass ctx name
  · rw [hcall] at hfd
    exact absurd hfd (not_le.mpr hneg)
  · have hknown := h.known (KeyedTable.mem_of_lookup hlookup)
    have hgrown : old.sender < core.objects.length := by
      rw [hjoined.objects, List.length_append]
      exact Nat.lt_add_right _ hknown
    have hrun := DBusLogCore.runSender_call hjoined.sound hgrown fun d =>
      { d with answers := ctx.answers old.sender }.close true
    have hkept := (closeOld_opened h ctx hjoined watchId backend).2.bookkept
    generalize hopened : ({ s with
      core := closeOld ctx core (s.peers.lookup name)
      backend := backend
      peers := s.peers.insert ⟨name, watchId, s.core.objects.length⟩ } :
        DBusLogServer Policy β) = opened at hcall hkept
    have hclosed : opened.core.senderAt old.sender =
        some ({ d with answers := ctx.answers old.sender }.close true) := by
      rw [← hopened, hlookup]
      change (core.runSender old.sender _).senderAt old.sender = _
      rw [hrun.senders, if_pos rfl, hjoined.senderAt_old hknown, hd]
      rfl
    unfold openLog
    rw [hcall]
    dsimp only
    split
    · obtain hsame | ⟨peer, hpeer, hstolen⟩ := stealReadfd_core opened name (readfd : Int)
      · rw [hsame]
        exact hclosed
      · -- the descriptor is taken from the new sender
        have hnew : peer.sender = s.core.objects.length := by
          rw [← hopened] at hpeer
          change (s.peers.insert ⟨name, watchId, s.core.objects.length⟩).lookup name =
            some peer at hpeer
          rw [KeyedTable.lookup_insert s.peers ⟨name, watchId, s.core.objects.length⟩] at hpeer
          cases hpeer
          rfl
        rw [hstolen]
        refine ((DBusLogCore.runSender_call hkept.sound
          (hkept.known (KeyedTable.mem_of_lookup hpeer)) _).senders old.sender).trans ?_
        rw [if_neg]
        · exact hclosed
        · rw [hnew]
          exact Nat.ne_of_lt hknown
    · exact hclosed

/-- A step that calls into a sender, with the answers of its channel. -/
theorem step_later (h : Bookkept s) {op : SessionOp}
    (hs : s.sessionStep lib klass handsOver op = some s') {i : Nat} {d : DBusLogSender}
    (hd : s.core.senderAt i = some d) {answers : List WriteAnswer}
    (hanswers : s.answersFor lib klass i op = some answers) :
    ∃ d', s'.core.senderAt i = some d' ∧
      DBusLogSender.Later { d with answers := answers } d' := by
  cases op with
  | logOpen ctx name =>
    cases hs
    obtain ⟨⟨hpeer, hfd⟩, he⟩ := Option.ite_none_right_eq_some.mp hanswers
    cases he
    obtain ⟨old, hlookup, rfl⟩ := Option.map_eq_some_iff.mp hpeer
    exact ⟨_, openLog_closed h ctx hlookup hfd hd, DBusLogSender.close_later _ true⟩
  | logClose ctx name cookie =>
    cases hs
    obtain ⟨hpeer, he⟩ := Option.ite_none_right_eq_some.mp hanswers
    cases he
    exact removePeer_later h ctx hd hpeer
  | vanished ctx name =>
    cases hs
    obtain ⟨hpeer, he⟩ := Option.ite_none_right_eq_some.mp hanswers
    cases he
    exact removePeer_later h ctx hd hpeer
  | log ctx level cname message =>
    cases hs
    obtain ⟨⟨hi, haccepted, hworker⟩, he⟩ := Option.ite_none_right_eq_some.mp hanswers
    cases he
    exact logMessage_later h.sound hd (.new message) (by cases message <;> rfl) hi haccepted hworker
  | logv ctx level cname formatted =>
    cases hs
    obtain ⟨⟨hi, haccepted, hworker⟩, he⟩ := Option.ite_none_right_eq_some.mp hanswers
    cases he
    exact logMessage_later h.sound hd (.newVa formatted) (by cases formatted <;> rfl) hi haccepted
      hworker
  | sender j a =>
    obtain ⟨rfl, hgiven⟩ := Option.ite_none_right_eq_some.mp hanswers
    obtain ⟨core, hcore, rfl⟩ := Option.map_eq_some_iff.mp hs
    obtain ⟨d₀, d', hd₀, hstep, hj, rfl⟩ := DBusLogCore.step_callback hcore
    cases hd.symm.trans hd₀
    refine ⟨d', ?_, ?_⟩
    · refine ((DBusLogCore.runSender_call h.sound hj fun _ => d').senders j).trans ?_
      rw [if_pos rfl, hd]
      rfl
    · have hlater := DBusLogSender.step_later hstep
      rw [hgiven] at hlater
      exact hlater

/-- A registered sender whose channel is gone after a step is out of the core. -/
theorem Bookkept.gone (h : Bookkept s) (h' : Bookkept s') {i : Nat} (hi : i ∈ s.core.registered)
    {d d' : DBusLogSender} (hd : s.core.senderAt i = some d) (hd' : s'.core.senderAt i = some d')
    (honward : DBusLogSender.Onward d d') (hio : d'.io = none) : Gone s' i := by
  have hopen := h.connected.opened i hi d hd
  have hdone : d'.done = true := by
    obtain ⟨hsame, _⟩ | ⟨_, _, hdone, _, _⟩ := honward.channel
    · rw [← hsame, hio] at hopen
      cases hopen
    · exact hdone
  refine ⟨d', hd', hio, hdone, fun hin => ?_⟩
  have hopen' := h'.connected.opened i hin d' hd'
  rw [hio] at hopen'
  cases hopen'

theorem Bookkept.notices (h : Bookkept s) (hreader : NoReader s) :
    Notices lib klass (sessionStep lib klass handsOver) s := by
  intro left i op s' hleft hi hs hallows huse
  have h' := (sessionStep_bookkept h hs).1
  obtain ⟨d, hd⟩ := DBusLogCore.exists_senderAt (h.sound.known i hi)
  obtain ⟨answers, hanswers, hwritten⟩ | ⟨id, out, answers, rfl, hpolled⟩ := huse
  · obtain ⟨d', hd', hlater⟩ := step_later h hs hd hanswers
    obtain hsame | hio := hlater.refused (hallows i hleft (hreader i) answers hanswers)
    · exact absurd hsame (hwritten d' hd')
    · exact h.gone h' hi hd hd' hlater.onward hio
  · have hanswers : s.answersFor lib klass i (.sender i (.watch id out answers)) = some answers :=
      if_pos rfl
    have herror := hallows i hleft (hreader i) answers hanswers
    obtain ⟨d', hd', hlater⟩ := step_later h hs hd hanswers
    refine h.gone h' hi hd hd' hlater.onward ?_
    -- the callback that has made `d'` of `d`
    obtain ⟨core, hcore, rfl⟩ := Option.map_eq_some_iff.mp hs
    obtain ⟨d₀, d₁, hd₀, hstep, hlt, rfl⟩ := DBusLogCore.step_callback hcore
    cases hd.symm.trans hd₀
    have hsame := ((DBusLogCore.runSender_call h.sound hlt fun _ => d₁).senders i).symm.trans hd'
    rw [if_pos rfl, hd] at hsame
    cases hsame
    obtain ⟨_, he⟩ := Option.ite_none_right_eq_some.mp hstep
    cases he
    cases out with
    | false => rfl
    | true =>
      exact DBusLogSender.writeCallback_refused
        (s := { d with answers := answers }) (h.connected.opened i hi d hd) herror (hpolled rfl d hd)
        id

/-! ## No reader -/

theorem NoReader.carried (h : NoReader s) {core : DBusLogCore}
    (hc : DBusLogCore.Carried s.core core) : NoReader { s with core := core } := by
  intro i d' hd'
  have hlt : i < s.core.objects.length := hc.objects ▸ DBusLogCore.lt_of_senderAt hd'
  obtain ⟨d, hd⟩ := DBusLogCore.exists_senderAt hlt
  obtain ⟨d₁, hd₁, honward⟩ := hc.senders i d hd
  cases (show core.senderAt i = some d' from hd').symm.trans hd₁
  obtain hsame | hnone := honward.readfd
  · rw [hsame]
    exact h i _ hd
  · exact hnone

theorem NoReader.removePeer (h : NoReader s) (hb : Bookkept s) (ctx : ServerContext)
    (name : String) : NoReader (s.removePeer klass ctx name) := by
  unfold DBusLogServer.removePeer
  cases hlookup : s.peers.lookup name with
  | none => exact h
  | some peer =>
    exact h.carried (hb.runPeer (KeyedTable.mem_of_lookup hlookup)
      (close_onward (ctx.answers peer.sender))).1

/-- A new sender in the core is as it has been made, whatever becomes of an older one. -/
theorem closeOld_new (h : Bookkept s) (ctx : ServerContext) {name : String}
    {readfd writefd : Nat} {core : DBusLogCore}
    (hj : DBusLogCore.Joined name readfd writefd s.core core) :
    (closeOld ctx core (s.peers.lookup name)).senderAt s.core.objects.length =
      some (.new name s.core.backlog readfd writefd) := by
  cases hlookup : s.peers.lookup name with
  | none => exact hj.senderAt_new
  | some old =>
    have hknown := h.known (KeyedTable.mem_of_lookup hlookup)
    have hgrown : old.sender < core.objects.length := by
      rw [hj.objects, List.length_append]
      exact Nat.lt_add_right _ hknown
    refine ((DBusLogCore.runSender_call hj.sound hgrown _).senders _).trans ?_
    rw [if_neg (Nat.ne_of_gt hknown)]
    exact hj.senderAt_new

/-- After `LogOpen` the new sender is the only one that may have its read end open. -/
theorem closeOld_noReader (h : NoReader s) (hb : Bookkept s) (ctx : ServerContext) {name : String}
    {readfd writefd : Nat} {core : DBusLogCore}
    (hj : DBusLogCore.Joined name readfd writefd s.core core) {i : Nat} {d' : DBusLogSender}
    (hd' : (closeOld ctx core (s.peers.lookup name)).senderAt i = some d')
    (hne : i ≠ s.core.objects.length) : d'.readfd = none := by
  have hcarried := (closeOld_opened hb ctx hj 0 s.backend).1
  have hlt := DBusLogCore.lt_of_senderAt hd'
  rw [hcarried.objects, hj.objects, List.length_append, List.length_singleton] at hlt
  have hold : i < s.core.objects.length := by omega
  obtain ⟨d, hd⟩ := DBusLogCore.exists_senderAt hold
  obtain ⟨d₁, hd₁, honward⟩ := hcarried.senders i d ((hj.senderAt_old hold).trans hd)
  cases hd'.symm.trans hd₁
  obtain hsame | hnone := honward.readfd
  · rw [hsame]
    exact h i _ hd
  · exact hnone

/-- The entry of the new sender has the descriptor that is handed over. -/
theorem stealReadfd_new (h : Bookkept s) (ctx : ServerContext) {name : String}
    {readfd writefd : Nat} {core : DBusLogCore}
    (hj : DBusLogCore.Joined name readfd writefd s.core core) {t : DBusLogServer Policy β}
    {watchId : UInt64} (hcore : t.core = closeOld ctx core (s.peers.lookup name))
    (hpeers : t.peers = s.peers.insert ⟨name, watchId, s.core.objects.length⟩) :
    t.stealReadfd name (readfd : Int) = (true, { t with
      core := t.core.runSender s.core.objects.length fun d => { d with readfd := none } }) := by
  unfold stealReadfd
  rw [if_pos (Int.natCast_nonneg readfd), hpeers, KeyedTable.lookup_insert s.peers
    ⟨name, watchId, s.core.objects.length⟩]
  dsimp only
  rw [if_pos]
  unfold DBusLogServer.readfd
  rw [hcore, closeOld_new h ctx hj]
  rfl

/-- `LogOpen` of a back end that hands the read end over. -/
theorem NoReader.openLog (h : NoReader s) (hb : Bookkept s) (ctx : ServerContext)
    (name : String) : NoReader (s.openLog lib klass true ctx name) := by
  unfold DBusLogServer.openLog
  obtain ⟨_, err, hneg, he⟩ | ⟨readfd, writefd, core, watchId, backend, _, _, hj, he⟩ :=
    callLogOpen_cases hb.sound lib klass ctx name
  · rw [he]
    dsimp only
    rw [if_neg fun hboth => absurd hboth.2 (not_le.mpr hneg)]
    exact h
  · have hopened := (closeOld_opened hb ctx hj watchId backend).2.bookkept
    have hnew := closeOld_new hb ctx hj
    rw [he]
    dsimp only
    rw [if_pos ⟨rfl, Int.natCast_nonneg readfd⟩, stealReadfd_new hb ctx hj rfl rfl]
    intro i d' hd'
    have hlt : s.core.objects.length <
        (closeOld ctx core (s.peers.lookup name)).objects.length :=
      DBusLogCore.lt_of_senderAt hnew
    have hcall := (DBusLogCore.runSender_call hopened.sound hlt
      fun d => { d with readfd := none }).senders i
    have hd₁ := hcall.symm.trans hd'
    by_cases hi : i = s.core.objects.length
    · rw [if_pos hi] at hd₁
      obtain ⟨_, _, rfl⟩ := Option.map_eq_some_iff.mp hd₁
      rfl
    · rw [if_neg hi] at hd₁
      exact closeOld_noReader h hb ctx hj hd₁ hi

/-- The steps other than `LogOpen`. -/
theorem NoReader.quiet (h : NoReader s) (hb : Bookkept s) {op : SessionOp}
    (hs : s.sessionStep lib klass handsOver op = some s')
    (hop : ∀ ctx name, op ≠ .logOpen ctx name) : NoReader s' := by
  cases op with
  | logOpen ctx name => exact absurd rfl (hop ctx name)
  | logClose ctx name cookie =>
    cases hs
    exact h.removePeer hb ctx name
  | vanished ctx name =>
    cases hs
    exact h.removePeer hb ctx name
  | log ctx level cname message =>
    cases hs
    exact h.carried (log_carried hb ctx level cname message)
  | logv ctx level cname formatted =>
    cases hs
    exact h.carried (logv_carried hb ctx level cname formatted)
  | sender i a =>
    obtain ⟨core, hcore, rfl⟩ := Option.map_eq_some_iff.mp hs
    exact h.carried (sender_carried hb hcore)

/-- Step lemma for a back end that hands the read end over. -/
theorem NoReader.step (h : NoReader s) (hb : Bookkept s) {op : SessionOp}
    (hs : s.sessionStep lib klass true op = some s') : NoReader s' := by
  by_cases hop : ∃ ctx name, op = .logOpen ctx name
  · obtain ⟨ctx, name, rfl⟩ := hop
    cases hs
    exact h.openLog hb ctx name
  · exact h.quiet hb hs fun ctx name he => hop ⟨ctx, name, he⟩

/-- Step lemma for one that does not. -/
theorem noReader_iff_of_kept (h : NoReader s) (hb : Bookkept s) {op : SessionOp}
    (hs : s.sessionStep lib klass false op = some s') : NoReader s' ↔ ¬Opens lib s op := by
  by_cases hop : ∃ ctx name, op = .logOpen ctx name
  · obtain ⟨ctx, name, rfl⟩ := hop
    cases hs
    unfold DBusLogServer.openLog
    obtain ⟨hrefused, err, _, he⟩ |
      ⟨readfd, writefd, core, watchId, backend, hallowed, hpipe, hj, he⟩ :=
      callLogOpen_cases hb.sound lib klass ctx name
    · rw [he]
      refine iff_of_true h ?_
      rintro ⟨ctx', name', hsame, hopens⟩
      cases hsame
      exact hrefused hopens
    · rw [he]
      refine iff_of_false (fun hnone => ?_) (not_not.mpr ⟨ctx, name, rfl, hallowed, ?_⟩)
      · cases hnone s.core.objects.length _ (closeOld_new hb ctx hj)
      · rw [hpipe]
        rfl
  · refine iff_of_true (h.quiet hb hs fun ctx name he => hop ⟨ctx, name, he⟩) ?_
    rintro ⟨ctx, name, he, _⟩
    exact hop ⟨ctx, name, he⟩

/-- What the sessions do to the data of a back end goes through its two functions for watches. -/
theorem sessionStep_backend {P : β → Prop} (hwatch : ∀ b name, P b → P (klass.watchName b name).2)
    (hunwatch : ∀ b id, P b → P (klass.unwatchName b id)) (hb : P s.backend) {op : SessionOp}
    (hs : s.sessionStep lib klass handsOver op = some s') : P s'.backend := by
  have hremove : ∀ (ctx : ServerContext) (name : String),
      P (s.removePeer klass ctx name).backend := by
    intro ctx name
    unfold DBusLogServer.removePeer
    split
    · exact hunwatch _ _ hb
    · exact hb
  cases op with
  | logOpen ctx name =>
    cases hs
    have hcall : P (s.callLogOpen lib klass ctx name).2.backend := by
      obtain ⟨_, hsame⟩ | ⟨_, _, _, hwatched⟩ := callLogOpen_watches s lib klass ctx name
      · rw [hsame]
        exact hb
      · rw [hwatched]
        cases s.peers.lookup name with
        | none => exact hwatch _ _ hb
        | some old => exact hunwatch _ _ (hwatch _ _ hb)
    unfold DBusLogServer.openLog
    generalize s.callLogOpen lib klass ctx name = result at hcall
    obtain ⟨fd, t⟩ := result
    dsimp only
    split
    · obtain hsame | ⟨_, _, hstolen⟩ := stealReadfd_core t name fd
      · rw [hsame]
        exact hcall
      · rw [hstolen]
        exact hcall
    · exact hcall
  | logClose ctx name cookie =>
    cases hs
    exact hremove ctx name
  | vanished ctx name =>
    cases hs
    exact hremove ctx name
  | log _ _ _ _ =>
    cases hs
    exact hb
  | logv _ _ _ _ =>
    cases hs
    exact hb
  | sender i a =>
    obtain ⟨core, _, rfl⟩ := Option.map_eq_some_iff.mp hs
    exact hb

/-! ## Runs -/

/-- A server that has just been started. -/
theorem start_fresh (klass : DBusLogServerClass β) (bus : DABus) (path : String)
    (policy : Policy) (backend : β) :
    Bookkept ((new bus path policy backend).start klass) ∧
      NoReader ((new bus path policy backend).start klass) := by
  have h := new_bookkept bus path policy backend
  exact ⟨⟨h.sound, h.connected, h.owned, h.listed⟩, fun _ _ hd => by cases hd⟩

end Readers

section Runs

variable {Cred Policy : Type} (lib : Libraries Cred Policy) (bus : DABus) (path : String)
  (policy : Policy)

/-- A GIO server never keeps a read end. -/
theorem gio_run {ops : List SessionOp} {s : DBusLogServer Policy DBusLogServerGio}
    (hrun : Runs.run (DBusLogServerGio.step lib)
      ((DBusLogServerGio.newServer bus path policy).start DBusLogServerGio.klass) ops = some s) :
    Bookkept s ∧ NoReader s ∧ s.backend.bus = true := by
  obtain ⟨hb, hr⟩ := start_fresh DBusLogServerGio.klass bus path policy
    DBusLogServerGio.new
  refine Runs.invariant_of_forall (C := fun _ => True)
    (P := fun s => Bookkept s ∧ NoReader s ∧ s.backend.bus = true) ?_ (fun _ _ => trivial) hrun
    ⟨hb, hr, rfl⟩
  rintro s op s' ⟨hb, hr, hbus⟩ _ hs
  rw [DBusLogServerGio.step_eq lib hbus] at hs
  refine ⟨(sessionStep_bookkept hb hs).1, hr.step hb hs,
    sessionStep_backend (P := fun b => b.bus = true) ?_ (fun _ _ h => h) hbus hs⟩
  intro b name hb
  change (b.watchName name).2.bus = true
  unfold DBusLogServerGio.watchName
  rw [if_pos hb]
  exact hb

/-- A libdbus server keeps the tables in order, and no read end as long as nobody opens the log. -/
theorem dbus_run {ops : List SessionOp} {s : DBusLogServer Policy DBusLogServerDbus}
    (hrun : Runs.run (DBusLogServerDbus.step lib)
      ((DBusLogServerDbus.newFull bus path policy).start DBusLogServerDbus.klass) ops = some s) :
    Bookkept s ∧ (Runs.Meets (DBusLogServerDbus.step lib) (fun s op => ¬Opens lib s op)
      ((DBusLogServerDbus.newFull bus path policy).start DBusLogServerDbus.klass) ops →
        NoReader s) := by
  obtain ⟨hb, hr⟩ := start_fresh DBusLogServerDbus.klass bus path policy
    DBusLogServerDbus.new
  have hstep : ∀ s op s', Bookkept s → DBusLogServerDbus.step lib s op = some s' →
      Bookkept s' := by
    intro s op s' hb hs
    rw [DBusLogServerDbus.step_eq] at hs
    exact (sessionStep_bookkept hb hs).1
  refine ⟨Runs.invariant_of_forall (C := fun _ => True) (fun s op s' hb _ => hstep s op s' hb)
    (fun _ _ => trivial) hrun hb, fun hmeets => ?_⟩
  refine (Runs.invariant_of_meets (P := fun s => Bookkept s ∧ NoReader s) ?_ hmeets hrun
    ⟨hb, hr⟩).2
  rintro s op s' ⟨hb, hr⟩ hclosed hs
  refine ⟨hstep s op s' hb hs, ?_⟩
  rw [DBusLogServerDbus.step_eq] at hs
  exact (noReader_iff_of_kept hr hb hs).mpr hclosed

/-- The server keeps no reader of its own pipes. A GIO server never has the read end of a pipe
between two steps, and a sender whose client has left goes with the next write or poll. A libdbus
server is like that in all states of a run if and only if no call of `LogOpen` goes through. -/
theorem keepsNoReader (ops : List SessionOp) :
    (∀ before after s, before ++ after = ops →
      Runs.run (DBusLogServerGio.step lib)
        ((DBusLogServerGio.newServer bus path policy).start DBusLogServerGio.klass) before =
          some s →
        NoReader s ∧ Notices lib DBusLogServerGio.klass (DBusLogServerGio.step lib) s) ∧
    ((∀ before after s, before ++ after = ops →
      Runs.run (DBusLogServerDbus.step lib)
        ((DBusLogServerDbus.newFull bus path policy).start DBusLogServerDbus.klass) before =
          some s →
        NoReader s ∧ Notices lib DBusLogServerDbus.klass (DBusLogServerDbus.step lib) s) ↔
    ∀ before op after s, before ++ op :: after = ops →
      Runs.run (DBusLogServerDbus.step lib)
        ((DBusLogServerDbus.newFull bus path policy).start DBusLogServerDbus.klass) before =
          some s →
        ¬Opens lib s op) := by
  refine ⟨fun before after s _ hrun => ?_, ?_⟩
  · obtain ⟨hb, hr, hbus⟩ := gio_run lib bus path policy hrun
    refine ⟨hr, ?_⟩
    have hnotices : Notices lib DBusLogServerGio.klass
      (sessionStep lib DBusLogServerGio.klass true) s := hb.notices hr
    intro left i op s' hleft hi hs
    rw [DBusLogServerGio.step_eq lib hbus] at hs
    exact hnotices left i op s' hleft hi hs
  · constructor
    · intro h before op after s hsplit hrun hopens
      obtain ⟨hb, _⟩ := dbus_run lib bus path policy hrun
      have hr := (h before (op :: after) s hsplit hrun).1
      obtain ⟨s', hs⟩ : ∃ s', DBusLogServerDbus.step lib s op = some s' := by
        obtain ⟨ctx, name, rfl, _⟩ := hopens
        exact ⟨_, rfl⟩
      have hr' : NoReader s' := by
        refine (h (before ++ [op]) after s' ?_ (Runs.run_concat_iff.mpr ⟨s, hrun, hs⟩)).1
        rw [← hsplit, List.append_assoc]
        rfl
      rw [DBusLogServerDbus.step_eq] at hs
      exact (noReader_iff_of_kept hr hb hs).mp hr' hopens
    · intro h before after s hsplit hrun
      obtain ⟨hb, hquiet⟩ := dbus_run lib bus path policy hrun
      have hr : NoReader s := by
        refine hquiet (Runs.meets_of_split fun first op rest t hpart hfirst => ?_)
        refine h first op (rest ++ after) t ?_ hfirst
        rw [← hsplit, ← hpart, List.append_assoc]
        rfl
      refine ⟨hr, ?_⟩
      have hnotices : Notices lib DBusLogServerDbus.klass
        (sessionStep lib DBusLogServerDbus.klass false) s := hb.notices hr
      intro left i op s' hleft hi hs
      rw [DBusLogServerDbus.step_eq] at hs
      exact hnotices left i op s' hleft hi hs

/-- A peer opens the log of a libdbus server, and the server still has the read end. -/
theorem keepsNoReader_dbus :
    ∃ s d, Runs.run (DBusLogServerDbus.step anybody)
        ((DBusLogServerDbus.newFull .system "/logger" ()).start DBusLogServerDbus.klass)
        [.logOpen ⟨some (3, 4), fun _ => []⟩ ":1.1"] = some s ∧
      s.core.senderAt 0 = some d ∧ d.readfd = some 3 ∧ ¬NoReader s := by
  obtain ⟨s, hs, he⟩ := Option.map_eq_some_iff.mp (by decide +kernel :
    (Runs.run (DBusLogServerDbus.step anybody)
      ((DBusLogServerDbus.newFull .system "/logger" ()).start DBusLogServerDbus.klass)
      [.logOpen ⟨some (3, 4), fun _ => []⟩ ":1.1"]).map
        (fun s => (s.core.senderAt 0).map (·.readfd)) = some (some (some 3)))
  obtain ⟨d, hd, hfd⟩ := Option.map_eq_some_iff.mp he
  refine ⟨s, d, hs, hd, hfd, fun hnone => ?_⟩
  cases hfd.symm.trans (hnone 0 d hd)

end Runs

end DBusLogServer

end DBusLog

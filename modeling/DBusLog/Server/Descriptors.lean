import DBusLog.Core.Descriptors
import DBusLog.Server.NameWatches
import DBusLog.Server.Readers

/-!
# Who closes the pipes

A sender has both ends of its pipe. The libdbus back end lets the reply to `LogOpen` duplicate the
read end; the GIO one gives it to the descriptor list of the reply, and then takes it from the
sender. A sender lives as long as the array of the core, a peer or a scheduled callback refers to
it, which can be longer than the server lives.
-/

namespace DBusLog

/-- A `GUnixFDList` that has taken over one descriptor: the read end of the pipe of a sender. -/
structure GUnixFDList where
  sender : Nat
  fd : Nat
  freed : Bool
  deriving DecidableEq

/-- A server and what its process has besides. The senders can outlive the server. -/
structure ServerProcess (Policy β : Type) where
  server : DBusLogServer Policy β
  /-- What `pipe` has returned for each sender. -/
  pipes : List (Nat × Nat)
  fdLists : List GUnixFDList
  /-- The senders whose read end `dbus_log_server_steal_readfd` has given away. -/
  stolen : List Nat
  finalized : List Nat
  disposed : Bool

/-- How a back end deals with descriptors: the lists that an operation makes for its reply, and
the senders that it calls `dbus_log_server_steal_readfd` for with success. -/
structure DescriptorUse (Policy β : Type) where
  klass : DBusLogServerClass β
  step : DBusLogServer Policy β → SessionOp → Option (DBusLogServer Policy β)
  fdLists : DBusLogServer Policy β → SessionOp → List GUnixFDList
  stolen : DBusLogServer Policy β → SessionOp → List Nat

/-- What happens in the process of a server. -/
inductive ProcessOp
  | session (op : SessionOp)
  | freeFdList (index : Nat)
  | dispose (ctx : ServerContext) (order : List DBusLogServerPeer)

/-- The result of the call of `pipe` in an operation. -/
def SessionOp.pipe? : SessionOp → Option (Nat × Nat)
  | .logOpen ctx _ => ctx.pipe
  | .logClose _ _ _ | .vanished _ _ | .log _ _ _ _ | .logv _ _ _ _ | .sender _ _ => none

namespace DBusLogServer

variable {Cred Policy β : Type}

/-- `dbus_log_server_dispose`. The table of peers is empty when its values are destroyed, in the
given order. -/
def dispose (klass : DBusLogServerClass β) (ctx : ServerContext) (s : DBusLogServer Policy β)
    (order : List DBusLogServerPeer) : DBusLogServer Policy β :=
  order.foldl (peerDestroy klass ctx) { s.stop klass with peers := .empty }

/-- `dbus_log_server_finalize` releases the only reference to the core. -/
def finalize (s : DBusLogServer Policy β) : DBusLogServer Policy β :=
  { s with core := s.core.dispose.finalize }

/-- The sender that `dbus_log_server_steal_readfd` takes a descriptor from. -/
def stolenFrom (s : DBusLogServer Policy β) (name : String) (fd : Int) : List Nat :=
  if (s.stealReadfd name fd).1 then ((s.peers.lookup name).map (·.sender)).toList else []

end DBusLogServer

namespace DBusLogServerGio

variable {Cred Policy : Type} (lib : Libraries Cred Policy)

/-- `g_unix_fd_list_new_from_array` in `dbus_log_server_handle_open` takes over the descriptor in
the reply. -/
def fdLists (s : DBusLogServer Policy DBusLogServerGio) : SessionOp → List GUnixFDList
  | .logOpen ctx name =>
    match (handleOpen lib ctx s name).1 with
    | .methodReturn (.unixFd fd :: _) => [⟨s.core.objects.length, fd.toNat, false⟩]
    | _ => []
  | _ => []

/-- The call of `dbus_log_server_steal_readfd` in `dbus_log_server_handle_open` -/
def stolen (s : DBusLogServer Policy DBusLogServerGio) : SessionOp → List Nat
  | .logOpen ctx name =>
    if s.backend.bus then
      let (fd, s) := s.callLogOpen lib klass ctx name
      if fd ≥ 0 then s.stolenFrom name fd else []
    else []
  | _ => []

def descriptorUse : DescriptorUse Policy DBusLogServerGio :=
  ⟨klass, step lib, fdLists lib, stolen lib⟩

end DBusLogServerGio

/-- `dbus_message_iter_append_basic` duplicates the descriptor. -/
def DBusLogServerDbus.descriptorUse {Cred Policy : Type} (lib : Libraries Cred Policy) :
    DescriptorUse Policy DBusLogServerDbus :=
  ⟨klass, step lib, fun _ _ => [], fun _ _ => []⟩

theorem DBusLogServerDbus.dispose_eq {Policy : Type} (ctx : ServerContext)
    (s : DBusLogServer Policy DBusLogServerDbus) (order : List DBusLogServerPeer) :
    dispose ctx s order = s.dispose klass ctx order := rfl

namespace ServerProcess

variable {Cred Policy β : Type}

/-- A process with a server that has no senders yet. -/
def new (server : DBusLogServer Policy β) : ServerProcess Policy β := ⟨server, [], [], [], [], false⟩

/-- The references to a sender between two operations. -/
def senderRefs (w : ServerProcess Policy β) (i : Nat) : Nat :=
  w.server.core.registered.count i +
    (w.server.peers.values.filter fun peer => peer.sender = i).length +
    ((w.server.core.senderAt i).map (·.pending)).getD 0

/-- `dbus_log_sender_dispose` and `dbus_log_sender_finalize` -/
def finalizeSender (w : ServerProcess Policy β) (i : Nat) : ServerProcess Policy β :=
  { w with
    server := { w.server with core := w.server.core.runSender i DBusLogSender.dispose }
    finalized := w.finalized ++ [i] }

/-- The senders to which nothing refers any more go. -/
def collect (w : ServerProcess Policy β) : ServerProcess Policy β :=
  (List.range w.server.core.objects.length).foldl (fun w i =>
    if i ∉ w.finalized ∧ w.senderRefs i = 0 then w.finalizeSender i else w) w

/-- The operation can happen: `pipe` returns two descriptors, a server that has been disposed is
not called, and a sender that has been finalized does nothing. -/
def Enabled (w : ServerProcess Policy β) : SessionOp → Prop
  | .logOpen ctx _ => w.disposed = false ∧ ∀ p ∈ ctx.pipe, p.1 ≠ p.2
  | .logClose _ _ _ | .vanished _ _ | .log _ _ _ _ | .logv _ _ _ _ => w.disposed = false
  | .sender i _ => i ∉ w.finalized

instance (w : ServerProcess Policy β) : DecidablePred w.Enabled
  | .logOpen _ _ => inferInstanceAs (Decidable (_ ∧ _))
  | .logClose _ _ _ | .vanished _ _ | .log _ _ _ _ | .logv _ _ _ _ =>
    inferInstanceAs (Decidable (_ = _))
  | .sender _ _ => inferInstanceAs (Decidable (¬_))

/-- An operation has turned the server into `s`. -/
def record (use : DescriptorUse Policy β) (w : ServerProcess Policy β) (op : SessionOp)
    (s : DBusLogServer Policy β) : ServerProcess Policy β :=
  { w with
    server := s
    pipes := w.pipes ++
      if w.server.core.objects.length < s.core.objects.length then op.pipe?.toList else []
    fdLists := w.fdLists ++ use.fdLists w.server op
    stolen := w.stolen ++ use.stolen w.server op }

/-- A step; `none` when it is not enabled. -/
def step (use : DescriptorUse Policy β) (w : ServerProcess Policy β) :
    ProcessOp → Option (ServerProcess Policy β)
  | .session op =>
    if w.Enabled op then (use.step w.server op).map fun s => (w.record use op s).collect else none
  | .freeFdList index =>
    if (w.fdLists[index]?).any fun list => !list.freed then
      some { w with fdLists := w.fdLists.modify index fun list => { list with freed := true } }
    else none
  | .dispose ctx order =>
    if w.disposed = false ∧ order.Perm w.server.peers.values then
      some { w with
        server := (w.server.dispose use.klass ctx order).finalize
        disposed := true }.collect
    else none

/-! ## What has been closed -/

/-- The descriptors that a sender has closed. -/
def closedBySender (w : ServerProcess Policy β) (i : Nat) : List Nat :=
  ((w.server.core.senderAt i).map (·.closedFds)).getD []

/-- The descriptors of a sender's pipe that descriptor lists have closed. -/
def closedByLists (w : ServerProcess Policy β) (i : Nat) : List Nat :=
  (w.fdLists.filter fun list => list.sender = i ∧ list.freed).map (·.fd)

/-- What has become of the pipe `(readfd, writefd)` of a sender. -/
structure ClosedOnce (w : ServerProcess Policy β) (i readfd writefd : Nat) : Prop where
  read : (w.closedBySender i ++ w.closedByLists i).count readfd ≤ 1
  write : (w.closedBySender i ++ w.closedByLists i).count writefd ≤ 1
  /-- The sender does not close a descriptor that it has given away. -/
  given : i ∈ w.stolen → readfd ∉ w.closedBySender i
  /-- A sender that is finalized leaves nothing open. -/
  released : i ∈ w.finalized →
    writefd ∈ w.closedBySender i ∧ (readfd ∈ w.closedBySender i ∨ i ∈ w.stolen)
  /-- Each descriptor that has been given away has one list that closes it. -/
  owner : i ∈ w.stolen ↔ ∃ list ∈ w.fdLists, list.sender = i ∧ list.fd = readfd

/-- What the steps keep. `Good` is about the data of the back end. -/
structure Tallied (Good : β → Prop) (w : ServerProcess Policy β) : Prop where
  bookkept : w.disposed = false → w.server.Bookkept ∧ Good w.server.backend
  pipes : w.pipes.length = w.server.core.objects.length
  total : ∀ i d, w.server.core.senderAt i = some d → ∃ readfd writefd,
    w.pipes[i]? = some (readfd, writefd) ∧ readfd ≠ writefd ∧
    d.closedFds ++ d.openFds = if i ∈ w.stolen then [writefd] else [readfd, writefd]
  lists : w.fdLists.map (·.sender) = w.stolen
  nodup : w.stolen.Nodup
  known : ∀ i ∈ w.stolen, i < w.server.core.objects.length
  fds : ∀ list ∈ w.fdLists, (w.pipes[list.sender]?).map Prod.fst = some list.fd
  finalized : ∀ i ∈ w.finalized, ∃ d, w.server.core.senderAt i = some d ∧ d.openFds = []

/-! ## Descriptors during a session -/

end ServerProcess

namespace DBusLogServer

section Sessions

variable {Cred Policy β : Type} {lib : Libraries Cred Policy} {klass : DBusLogServerClass β}
  {handsOver : Bool} {s s' : DBusLogServer Policy β}

/-- The pipe of a call of `LogOpen` that goes through. -/
def openedPipe (lib : Libraries Cred Policy) (s : DBusLogServer Policy β) :
    SessionOp → Option (Nat × Nat)
  | .logOpen ctx name => if s.accessAllowed lib name .logOpen then ctx.pipe else none
  | .logClose _ _ _ | .vanished _ _ | .log _ _ _ _ | .logv _ _ _ _ | .sender _ _ => none

theorem close_conserved (answers : List WriteAnswer) (d : DBusLogSender) :
    DBusLogSender.Conserved d ({ d with answers := answers }.close true) :=
  (DBusLogSender.Conserved.of_frame rfl rfl rfl :
    DBusLogSender.Conserved d { d with answers := answers }).trans
    (DBusLogSender.close_conserved _ true)

theorem peerDestroy_conserves (ctx : ServerContext) (s : DBusLogServer Policy β)
    (peer : DBusLogServerPeer) :
    DBusLogCore.Conserves s.core (s.peerDestroy klass ctx peer).core :=
  DBusLogCore.runSender_conserves s.core peer.sender fun d _ => close_conserved _ d

theorem removePeer_conserves (ctx : ServerContext) (s : DBusLogServer Policy β) (name : String) :
    DBusLogCore.Conserves s.core (s.removePeer klass ctx name).core := by
  unfold removePeer
  cases s.peers.lookup name with
  | none => exact .refl _
  | some peer => exact peerDestroy_conserves ctx { s with peers := s.peers.erase name } peer

theorem closeOld_conserves (ctx : ServerContext) (core : DBusLogCore)
    (old : Option DBusLogServerPeer) : DBusLogCore.Conserves core (closeOld ctx core old) := by
  cases old with
  | none => exact .refl core
  | some peer => exact DBusLogCore.runSender_conserves core peer.sender fun d _ => close_conserved _ d

theorem sender_conserves {i : Nat} {a : SenderStep}
    (hs : s.sessionStep lib klass handsOver (.sender i a) = some s') :
    DBusLogCore.Conserves s.core s'.core := by
  obtain ⟨core, hcore, rfl⟩ := Option.map_eq_some_iff.mp hs
  obtain ⟨d, d', hd, hstep, _, rfl⟩ := DBusLogCore.step_callback hcore
  refine DBusLogCore.runSender_conserves (f := fun _ => d') s.core i fun d₀ hd₀ => ?_
  cases hd.symm.trans hd₀
  exact DBusLogSender.step_conserved hstep

/-- The operations that make no pipe. -/
theorem sessionStep_conserves (h : Bookkept s) {op : SessionOp}
    (hs : s.sessionStep lib klass handsOver op = some s') (hop : s.openedPipe lib op = none) :
    DBusLogCore.Conserves s.core s'.core := by
  cases op with
  | logOpen ctx name =>
    cases hs
    unfold openLog
    obtain ⟨_, err, hneg, he⟩ | ⟨readfd, writefd, _, _, _, hallowed, hpipe, _, _⟩ :=
      callLogOpen_cases h.sound lib klass ctx name
    · rw [he]
      dsimp only
      rw [if_neg fun hboth => absurd hboth.2 (not_le.mpr hneg)]
      exact .refl _
    · rw [openedPipe, if_pos hallowed, hpipe] at hop
      cases hop
  | logClose ctx name cookie =>
    cases hs
    exact removePeer_conserves ctx s name
  | vanished ctx name =>
    cases hs
    exact removePeer_conserves ctx s name
  | log ctx level cname message =>
    cases hs
    exact DBusLogCore.logMessage_conserves h.sound ctx level cname (by cases message <;> rfl)
  | logv ctx level cname formatted =>
    cases hs
    exact DBusLogCore.logMessage_conserves h.sound ctx level cname (by cases formatted <;> rfl)
  | sender i a => exact sender_conserves hs

/-- A call of `LogOpen` makes no pipe, or the new sender is the one that the descriptor can be
taken from. -/
theorem callLogOpen_pipe (h : Bookkept s) (lib : Libraries Cred Policy)
    (klass : DBusLogServerClass β) (ctx : ServerContext) (name : String) :
    (s.openedPipe lib (.logOpen ctx name) = none ∧
      ∃ err < 0, s.callLogOpen lib klass ctx name = (err, s)) ∨
    ∃ readfd writefd t, s.openedPipe lib (.logOpen ctx name) = some (readfd, writefd) ∧
      s.callLogOpen lib klass ctx name = ((readfd : Int), t) ∧
      t.stolenFrom name readfd = [s.core.objects.length] := by
  unfold openedPipe
  dsimp only
  obtain ⟨hrefused, err, hneg, he⟩ |
    ⟨readfd, writefd, core, watchId, backend, hallowed, hpipe, hj, he⟩ :=
    callLogOpen_cases h.sound lib klass ctx name
  · refine .inl ⟨?_, err, hneg, he⟩
    by_cases hallowed : s.accessAllowed lib name .logOpen = true
    · rw [if_pos hallowed, ← Option.not_isSome_iff_eq_none]
      exact fun hsome => hrefused ⟨hallowed, hsome⟩
    · exact if_neg hallowed
  · refine .inr ⟨readfd, writefd, _, (if_pos hallowed).trans hpipe, he, ?_⟩
    unfold stolenFrom
    rw [stealReadfd_new h ctx hj rfl rfl, if_pos rfl]
    dsimp only
    rw [KeyedTable.lookup_insert s.peers ⟨name, watchId, s.core.objects.length⟩]
    rfl

/-- A sender with a pipe has been made. It has both ends, or the read end has been taken from it. -/
structure PipeMade (handsOver : Bool) (readfd writefd : Nat) (c c' : DBusLogCore) : Prop where
  objects : c'.objects.length = c.objects.length + 1
  old : ∀ i d, c.senderAt i = some d →
    ∃ d', c'.senderAt i = some d' ∧ DBusLogSender.Conserved d d'
  new : ∃ d, c'.senderAt c.objects.length = some d ∧
    d.closedFds ++ d.openFds = if handsOver then [writefd] else [readfd, writefd]

theorem openLog_pipeMade (h : Bookkept s) (ctx : ServerContext) {name : String}
    {readfd writefd : Nat}
    (hop : s.openedPipe lib (.logOpen ctx name) = some (readfd, writefd)) :
    PipeMade handsOver readfd writefd s.core (s.openLog lib klass handsOver ctx name).core := by
  obtain ⟨hallowed, hpipe⟩ := Option.ite_none_right_eq_some.mp hop
  unfold openLog
  obtain ⟨hrefused, _⟩ | ⟨r, w, core, watchId, backend, _, hpipe', hj, he⟩ :=
    callLogOpen_cases h.sound lib klass ctx name
  · exact absurd ⟨hallowed, by rw [hpipe]; rfl⟩ hrefused
  · cases hpipe.symm.trans hpipe'
    have hclosed := closeOld_conserves ctx core (s.peers.lookup name)
    have hnew := closeOld_new h ctx hj
    have hlength : (closeOld ctx core (s.peers.lookup name)).objects.length =
        s.core.objects.length + 1 := by
      rw [hclosed.objects, hj.objects, List.length_append, List.length_singleton]
    have hold : ∀ i d, s.core.senderAt i = some d → ∃ d',
        (closeOld ctx core (s.peers.lookup name)).senderAt i = some d' ∧
          DBusLogSender.Conserved d d' := by
      intro i d hd
      refine hclosed.senders i d ?_
      rw [hj.senderAt_old (DBusLogCore.lt_of_senderAt hd)]
      exact hd
    rw [he]
    dsimp only
    cases handsOver with
    | false =>
      rw [if_neg fun hboth => Bool.false_ne_true hboth.1]
      exact ⟨hlength, hold, _, hnew, rfl⟩
    | true =>
      rw [if_pos ⟨rfl, Int.natCast_nonneg readfd⟩, stealReadfd_new h ctx hj rfl rfl]
      dsimp only
      obtain ⟨hsame, hsenders⟩ := DBusLogCore.runSender_senderAt
        (DBusLogCore.lt_of_senderAt hnew) fun d => { d with readfd := none }
      refine ⟨hsame.trans hlength, fun i d hd => ?_, ?_⟩
      · rw [hsenders i, if_neg (Nat.ne_of_lt (DBusLogCore.lt_of_senderAt hd))]
        exact hold i d hd
      · rw [hsenders, if_pos rfl, hnew]
        exact ⟨_, rfl, rfl⟩

/-- What an operation does to the senders that were there before. -/
theorem sessionStep_old (h : Bookkept s) {op : SessionOp}
    (hs : s.sessionStep lib klass handsOver op = some s') :
    ∀ i d, s.core.senderAt i = some d →
      ∃ d', s'.core.senderAt i = some d' ∧ DBusLogSender.Conserved d d' := by
  cases hpipe : s.openedPipe lib op with
  | none => exact (sessionStep_conserves h hs hpipe).senders
  | some p =>
    cases op with
    | logOpen ctx name =>
      cases hs
      have hmade : PipeMade handsOver p.1 p.2 s.core (s.openLog lib klass handsOver ctx name).core :=
        openLog_pipeMade h ctx hpipe
      exact hmade.old
    | _ => cases hpipe

theorem dispose_conserves (ctx : ServerContext) (s : DBusLogServer Policy β)
    (order : List DBusLogServerPeer) :
    DBusLogCore.Conserves s.core (s.dispose klass ctx order).finalize.core := by
  have hpeers : ∀ (order : List DBusLogServerPeer) (t : DBusLogServer Policy β),
      DBusLogCore.Conserves t.core (order.foldl (peerDestroy klass ctx) t).core := by
    intro order
    induction order with
    | nil => exact fun t => .refl t.core
    | cons peer order ih => exact fun t => (peerDestroy_conserves ctx t peer).trans (ih _)
  have hstop : (s.stop klass).core = s.core := by
    unfold stop
    split
    · split
      · rfl
      · rfl
    · rfl
  have hdestroyed := hpeers order { s.stop klass with peers := .empty }
  rw [hstop] at hdestroyed
  exact (hdestroyed.trans (DBusLogCore.dispose_conserves _)).trans
    (DBusLogCore.finalize_conserves _)

end Sessions

end DBusLogServer

/-! ## The two back ends -/

/-- What a back end has to do with the descriptor of a new sender. -/
structure Follows {Cred Policy β : Type} (use : DescriptorUse Policy β)
    (lib : Libraries Cred Policy) (handsOver : Bool) (s : DBusLogServer Policy β) : Prop where
  step : ∀ op, use.step s op = s.sessionStep lib use.klass handsOver op
  fdLists : ∀ op, use.fdLists s op =
    if handsOver then ((s.openedPipe lib op).map fun p =>
      GUnixFDList.mk s.core.objects.length p.1 false).toList else []
  stolen : ∀ op, use.stolen s op =
    if handsOver then ((s.openedPipe lib op).map fun _ => s.core.objects.length).toList else []

/-- A back end deals with descriptors in one of the two ways, as long as its data is `Good`. -/
structure Consistent {Cred Policy β : Type} (use : DescriptorUse Policy β)
    (lib : Libraries Cred Policy) (handsOver : Bool) (Good : β → Prop) : Prop where
  follows : ∀ s : DBusLogServer Policy β, s.Bookkept → Good s.backend → Follows use lib handsOver s
  watch : ∀ b name, Good b → Good (use.klass.watchName b name).2
  unwatch : ∀ b id, Good b → Good (use.klass.unwatchName b id)
  sender : ∀ s i a, use.step s (.sender i a) = s.sessionStep lib use.klass handsOver (.sender i a) ∧
    use.fdLists s (.sender i a) = [] ∧ use.stolen s (.sender i a) = []

theorem DBusLogServerDbus.follows {Cred Policy : Type} (lib : Libraries Cred Policy)
    (s : DBusLogServer Policy DBusLogServerDbus) : Follows (descriptorUse lib) lib false s :=
  ⟨step_eq lib s, fun _ => rfl, fun _ => rfl⟩

/-- A GIO server makes the list and takes the descriptor from the sender in the same call. -/
theorem DBusLogServerGio.follows {Cred Policy : Type} (lib : Libraries Cred Policy)
    {s : DBusLogServer Policy DBusLogServerGio} (h : s.Bookkept) (hbus : s.backend.bus = true) :
    Follows (descriptorUse lib) lib true s := by
  have hopen : ∀ ctx name,
      fdLists lib s (.logOpen ctx name) = ((s.openedPipe lib (.logOpen ctx name)).map fun p =>
        GUnixFDList.mk s.core.objects.length p.1 false).toList ∧
      stolen lib s (.logOpen ctx name) =
        ((s.openedPipe lib (.logOpen ctx name)).map fun _ => s.core.objects.length).toList := by
    intro ctx name
    simp only [fdLists, stolen, handleOpen, if_pos hbus]
    obtain ⟨hnone, err, hneg, he⟩ | ⟨readfd, writefd, t, hpipe, he, hstolen⟩ :=
      DBusLogServer.callLogOpen_pipe h lib klass ctx name
    · rw [he, hnone]
      dsimp only
      rw [if_neg (not_le.mpr hneg), if_neg (not_le.mpr hneg)]
      obtain ⟨type, text, herror⟩ : ∃ type text, returnError err = .error type text := by
        unfold returnError
        split
        · exact ⟨_, _, rfl⟩
        · split
          · exact ⟨_, _, rfl⟩
          · exact ⟨_, _, rfl⟩
      rw [herror]
      exact ⟨rfl, rfl⟩
    · rw [he, hpipe]
      dsimp only
      rw [if_pos (Int.natCast_nonneg readfd), if_pos (Int.natCast_nonneg readfd), hstolen]
      exact ⟨rfl, rfl⟩
  refine ⟨step_eq lib hbus, fun op => ?_, fun op => ?_⟩
  · cases op with
    | logOpen ctx name => exact (hopen ctx name).1
    | _ => rfl
  · cases op with
    | logOpen ctx name => exact (hopen ctx name).2
    | _ => rfl

namespace ServerProcess

section Tallied

variable {Cred Policy β : Type} {lib : Libraries Cred Policy} {use : DescriptorUse Policy β}
  {handsOver : Bool} {Good : β → Prop} {w w' : ServerProcess Policy β}

/-! ## Steps -/

/-- A change of the server that makes no pipe. -/
theorem Tallied.moved (h : Tallied Good w) {s : DBusLogServer Policy β}
    (hbookkept : w.disposed = false → s.Bookkept ∧ Good s.backend)
    (hmoved : DBusLogCore.Conserves w.server.core s.core) : Tallied Good { w with server := s } where
  bookkept := hbookkept
  pipes := h.pipes.trans hmoved.objects.symm
  total i d' hd' := by
    obtain ⟨d, hd, hkept⟩ := hmoved.senderAt hd'
    obtain ⟨readfd, writefd, hpipe, hne, htotal⟩ := h.total i d hd
    exact ⟨readfd, writefd, hpipe, hne, hkept.total.trans htotal⟩
  lists := h.lists
  nodup := h.nodup
  known i hi := hmoved.objects ▸ h.known i hi
  fds := h.fds
  finalized i hi := by
    obtain ⟨d, hd, hnone⟩ := h.finalized i hi
    obtain ⟨d', hd', hkept⟩ := hmoved.senders i d hd
    exact ⟨d', hd', (hkept.closedFds_eq hnone).1⟩

/-- A sender is finalized. -/
theorem Tallied.finalizeSender (h : Tallied Good w) {i : Nat} (hi : i < w.server.core.objects.length) :
    Tallied Good (w.finalizeSender i) := by
  have honward : ∀ d : DBusLogSender, DBusLogSender.Onward d d.dispose := fun d =>
    (DBusLogSender.shutdown_later d false).toOnward.trans (.of_frame rfl rfl rfl rfl rfl)
  have hmoved := DBusLogCore.runSender_conserves w.server.core i
    (f := DBusLogSender.dispose) fun d _ => DBusLogSender.dispose_conserved d
  have hkept := h.moved (s := { w.server with
    core := w.server.core.runSender i DBusLogSender.dispose }) (fun hnot => by
      obtain ⟨hb, hgood⟩ := h.bookkept hnot
      exact ⟨hb.carried (DBusLogCore.runSender_carried hb.sound hb.connected hi
        fun d _ => honward d), hgood⟩) hmoved
  refine { hkept with finalized := fun j hj => ?_ }
  obtain hold | hnew := List.mem_append.mp hj
  · exact hkept.finalized j hold
  · cases List.mem_singleton.mp hnew
    obtain ⟨d, hd⟩ := DBusLogCore.exists_senderAt hi
    refine ⟨d.dispose, ((DBusLogCore.runSender_senderAt hi _).2 i).trans ?_, rfl⟩
    rw [if_pos rfl, hd]
    rfl

theorem finalizeSender_objects {i : Nat} (hi : i < w.server.core.objects.length) :
    (w.finalizeSender i).server.core.objects.length = w.server.core.objects.length :=
  (DBusLogCore.runSender_senderAt hi _).1

theorem Tallied.collect (h : Tallied Good w) : Tallied Good w.collect := by
  have hloop : ∀ (items : List Nat) (w : ServerProcess Policy β), Tallied Good w →
      (∀ i ∈ items, i < w.server.core.objects.length) →
      Tallied Good (items.foldl (fun w i =>
        if i ∉ w.finalized ∧ w.senderRefs i = 0 then w.finalizeSender i else w) w) := by
    intro items
    induction items with
    | nil => exact fun w h _ => h
    | cons i items ih =>
      intro w h hknown
      have hi := hknown i List.mem_cons_self
      rw [List.foldl_cons]
      split
      · refine ih _ (h.finalizeSender hi) fun j hj => ?_
        rw [finalizeSender_objects hi]
        exact hknown j (List.mem_cons_of_mem i hj)
      · exact ih w h fun j hj => hknown j (List.mem_cons_of_mem i hj)
  exact hloop _ w h fun i hi => List.mem_range.mp hi

/-- `LogOpen` has made a pipe. -/
theorem Tallied.opened (h : Tallied Good w) {op : SessionOp} {s : DBusLogServer Policy β}
    {readfd writefd : Nat} (hbookkept : s.Bookkept ∧ Good s.backend)
    (hmade : DBusLogServer.PipeMade handsOver readfd writefd w.server.core s.core)
    (hpipe : op.pipe? = some (readfd, writefd)) (hne : readfd ≠ writefd)
    (hlists : use.fdLists w.server op =
      if handsOver then [⟨w.server.core.objects.length, readfd, false⟩] else [])
    (hstolen : use.stolen w.server op =
      if handsOver then [w.server.core.objects.length] else []) :
    Tallied Good (w.record use op s) := by
  have hpipes : (w.record use op s).pipes = w.pipes ++ [(readfd, writefd)] := by
    unfold record
    dsimp only
    rw [if_pos (by rw [hmade.objects]; exact Nat.lt_succ_self _), hpipe]
    rfl
  have hfresh : w.server.core.objects.length ∉ w.stolen := fun hmem => lt_irrefl _ (h.known _ hmem)
  have hmem : ∀ i, i ∈ (w.record use op s).stolen ↔
      i ∈ w.stolen ∨ handsOver = true ∧ i = w.server.core.objects.length := by
    intro i
    change i ∈ w.stolen ++ use.stolen w.server op ↔ _
    rw [hstolen, List.mem_append]
    cases handsOver <;> simp
  have hold : ∀ {i}, i < w.server.core.objects.length →
      (w.record use op s).pipes[i]? = w.pipes[i]? := by
    intro i hi
    rw [hpipes, List.getElem?_append_left (h.pipes ▸ hi)]
  have hnew : (w.record use op s).pipes[w.server.core.objects.length]? =
      some (readfd, writefd) := by
    rw [hpipes, ← h.pipes, List.getElem?_concat_length]
  refine ⟨fun _ => hbookkept, ?_, fun i d' hd' => ?_, ?_, ?_, fun i hi => ?_, fun list hlist => ?_,
    fun i hi => ?_⟩
  · rw [hpipes, List.length_append, h.pipes]
    exact hmade.objects.symm
  · have hlt := DBusLogCore.lt_of_senderAt hd'
    change i < s.core.objects.length at hlt
    rw [hmade.objects] at hlt
    by_cases hi : i < w.server.core.objects.length
    · obtain ⟨d, hd⟩ := DBusLogCore.exists_senderAt hi
      obtain ⟨d₁, hd₁, hkept⟩ := hmade.old i d hd
      cases (show s.core.senderAt i = some d' from hd').symm.trans hd₁
      obtain ⟨r, wr, hp, hdiff, htotal⟩ := h.total i d hd
      have hsame : i ∈ (w.record use op s).stolen ↔ i ∈ w.stolen := by
        rw [hmem i]
        exact or_iff_left fun hboth => Nat.ne_of_lt hi hboth.2
      simp only [hsame]
      exact ⟨r, wr, (hold hi).trans hp, hdiff, hkept.total.trans htotal⟩
    · have hi' : i = w.server.core.objects.length := by omega
      subst hi'
      obtain ⟨d₁, hd₁, htotal⟩ := hmade.new
      cases (show s.core.senderAt _ = some d' from hd').symm.trans hd₁
      refine ⟨readfd, writefd, hnew, hne, htotal.trans ?_⟩
      simp only [hmem, hfresh, false_or, and_true]
  · change (w.fdLists ++ use.fdLists w.server op).map _ = w.stolen ++ use.stolen w.server op
    rw [List.map_append, h.lists, hlists, hstolen]
    cases handsOver <;> rfl
  · change (w.stolen ++ use.stolen w.server op).Nodup
    rw [hstolen]
    cases handsOver with
    | false => exact (List.append_nil w.stolen).symm ▸ h.nodup
    | true =>
      exact List.Nodup.append h.nodup (List.nodup_singleton _) (List.disjoint_singleton.mpr hfresh)
  · change i < s.core.objects.length
    rw [hmade.objects]
    obtain hin | ⟨_, rfl⟩ := (hmem i).mp hi
    · exact Nat.lt_succ_of_lt (h.known i hin)
    · exact Nat.lt_succ_self _
  · obtain hin | hin := List.mem_append.mp hlist
    · rw [hold (h.known _ (h.lists ▸ List.mem_map_of_mem hin))]
      exact h.fds list hin
    · rw [hlists] at hin
      cases handsOver with
      | false => cases hin
      | true =>
        cases List.mem_singleton.mp hin
        rw [hnew]
        rfl
  · obtain ⟨d, hd, hnone⟩ := h.finalized i hi
    obtain ⟨d', hd', hkept⟩ := hmade.old i d hd
    exact ⟨d', hd', (hkept.closedFds_eq hnone).1⟩

/-- An operation that makes no pipe has turned the server into `s`. -/
theorem Tallied.quiet (h : Tallied Good w) {op : SessionOp} {s : DBusLogServer Policy β}
    (hbookkept : w.disposed = false → s.Bookkept ∧ Good s.backend)
    (hmoved : DBusLogCore.Conserves w.server.core s.core) (hlists : use.fdLists w.server op = [])
    (hstolen : use.stolen w.server op = []) : Tallied Good (w.record use op s) := by
  have hsame : w.record use op s = { w with server := s } := by
    unfold record
    rw [if_neg (by rw [hmoved.objects]; exact lt_irrefl _), hlists, hstolen]
    simp only [List.append_nil]
  rw [hsame]
  exact h.moved hbookkept hmoved

/-- An operation of a session. -/
theorem Tallied.session (h : Tallied Good w) (hdisposed : w.disposed = false) {op : SessionOp}
    (henabled : w.Enabled op) (hf : Follows use lib handsOver w.server)
    {s : DBusLogServer Policy β} (hs : use.step w.server op = some s) (hgood : Good s.backend) :
    Tallied Good (w.record use op s) := by
  obtain ⟨hb, _⟩ := h.bookkept hdisposed
  rw [hf.step op] at hs
  have hkept := (DBusLogServer.sessionStep_bookkept hb hs).1
  cases hpipe : w.server.openedPipe lib op with
  | none =>
    refine h.quiet (fun _ => ⟨hkept, hgood⟩)
      (DBusLogServer.sessionStep_conserves hb hs hpipe) ?_ ?_
    · rw [hf.fdLists, hpipe]
      exact ite_self _
    · rw [hf.stolen, hpipe]
      exact ite_self _
  | some p =>
    obtain ⟨readfd, writefd⟩ := p
    cases op with
    | logOpen ctx name =>
      have hresult := (Option.ite_none_right_eq_some.mp hpipe).2
      cases hs
      have hmade : DBusLogServer.PipeMade handsOver readfd writefd w.server.core
        (w.server.openLog lib use.klass handsOver ctx name).core :=
        DBusLogServer.openLog_pipeMade hb ctx hpipe
      refine h.opened ⟨hkept, hgood⟩ hmade hresult (henabled.2 _ hresult) ?_ ?_
      · rw [hf.fdLists, hpipe]
        rfl
      · rw [hf.stolen, hpipe]
        rfl
    | _ => cases hpipe

theorem map_freed {α : Type} (g : GUnixFDList → α) (lists : List GUnixFDList) (index : Nat)
    (hg : ∀ list, g { list with freed := true } = g list) :
    (lists.modify index fun list => { list with freed := true }).map g = lists.map g := by
  refine List.ext_getElem? fun i => ?_
  rw [List.getElem?_map, List.getElem?_map, List.getElem?_modify]
  cases lists[i]? with
  | none => rfl
  | some list => by_cases hi : index = i <;> simp [hi, hg]

/-- The last reference to a descriptor list is gone. -/
theorem Tallied.freeFdList (h : Tallied Good w) (index : Nat) : Tallied Good { w with
    fdLists := w.fdLists.modify index fun list => { list with freed := true } } := by
  have hsenders := map_freed (·.sender) w.fdLists index fun _ => rfl
  have hpairs := map_freed (fun list => (list.sender, list.fd)) w.fdLists index fun _ => rfl
  refine { h with lists := hsenders.trans h.lists, fds := fun list hlist => ?_ }
  have hin := List.mem_map_of_mem (f := fun list : GUnixFDList => (list.sender, list.fd)) hlist
  rw [hpairs] at hin
  obtain ⟨old, hold, hsame⟩ := List.mem_map.mp hin
  obtain ⟨hsender, hfd⟩ := Prod.mk.inj hsame
  rw [← hsender, ← hfd]
  exact h.fds old hold

/-- Only the senders that are left do anything. -/
theorem sender_of_disposed (hdisposed : w.disposed = true) {op : SessionOp}
    (henabled : w.Enabled op) : ∃ i a, op = .sender i a := by
  have hnot : ¬w.disposed = false := fun hfalse => by cases hdisposed.symm.trans hfalse
  cases op with
  | logOpen ctx name => exact absurd henabled.1 hnot
  | sender i a => exact ⟨i, a, rfl⟩
  | _ => exact absurd henabled hnot

/-- Step lemma. -/
theorem Tallied.step (h : Tallied Good w) (hu : Consistent use lib handsOver Good) {op : ProcessOp}
    (hs : step use w op = some w') : Tallied Good w' := by
  cases op with
  | session op =>
    obtain ⟨henabled, hmap⟩ := Option.ite_none_right_eq_some.mp hs
    obtain ⟨s, hstep, rfl⟩ := Option.map_eq_some_iff.mp hmap
    refine Tallied.collect ?_
    cases hdisposed : w.disposed with
    | false =>
      obtain ⟨hb, hgood⟩ := h.bookkept hdisposed
      have hf := hu.follows w.server hb hgood
      refine h.session hdisposed henabled hf hstep ?_
      exact DBusLogServer.sessionStep_backend hu.watch hu.unwatch hgood (hf.step op ▸ hstep)
    | true =>
      obtain ⟨i, a, rfl⟩ := sender_of_disposed hdisposed henabled
      obtain ⟨hsame, hlists, hstolen⟩ := hu.sender w.server i a
      rw [hsame] at hstep
      refine h.quiet (fun hnot => ?_) (DBusLogServer.sender_conserves hstep) hlists hstolen
      cases hdisposed.symm.trans hnot
  | freeFdList index =>
    obtain ⟨_, he⟩ := Option.ite_none_right_eq_some.mp hs
    cases he
    exact h.freeFdList index
  | dispose ctx order =>
    obtain ⟨_, he⟩ := Option.ite_none_right_eq_some.mp hs
    cases he
    have hdisposed : Tallied Good { w with disposed := true } :=
      { h with bookkept := fun hnot => by cases hnot }
    exact (hdisposed.moved (fun hnot => by cases hnot)
      (DBusLogServer.dispose_conserves ctx w.server order)).collect

theorem Tallied.new {server : DBusLogServer Policy β} (hb : server.Bookkept)
    (hgood : Good server.backend) (hnone : server.core.objects = []) :
    Tallied Good (new server) where
  bookkept _ := ⟨hb, hgood⟩
  pipes := (congrArg List.length hnone).symm
  total i d hd := by
    have hlt := DBusLogCore.lt_of_senderAt hd
    rw [show (ServerProcess.new server).server.core.objects = [] from hnone] at hlt
    cases hlt
  lists := rfl
  nodup := List.nodup_nil
  known i hi := by cases hi
  fds list hlist := by cases hlist
  finalized i hi := by cases hi

/-- Run lemma. -/
theorem Tallied.run (h : Tallied Good w) (hu : Consistent use lib handsOver Good)
    {ops : List ProcessOp} (hrun : Runs.run (ServerProcess.step use) w ops = some w') :
    Tallied Good w' :=
  Runs.invariant_of_forall (C := fun _ => True) (fun _ _ _ h _ hs => h.step hu hs)
    (fun _ _ => trivial) hrun h

/-! ## The whole -/

/-- The lists have closed no descriptor of a sender more often than it has been given away. -/
theorem Tallied.closedByLists (h : Tallied Good w) {i readfd writefd : Nat}
    (hpipe : w.pipes[i]? = some (readfd, writefd)) :
    (w.closedByLists i).length ≤ w.stolen.count i ∧ ∀ fd ∈ w.closedByLists i, fd = readfd := by
  constructor
  · unfold ServerProcess.closedByLists
    rw [List.length_map, ← List.countP_eq_length_filter, ← h.lists, List.count_eq_countP,
      List.countP_map]
    refine List.countP_mono_left fun list _ hlist => ?_
    rw [decide_eq_true_eq] at hlist
    exact beq_iff_eq.mpr hlist.1
  · intro fd hfd
    obtain ⟨list, hlist, rfl⟩ := List.mem_map.mp hfd
    obtain ⟨hin, hof⟩ := List.mem_filter.mp hlist
    rw [decide_eq_true_eq] at hof
    have hown := h.fds list hin
    rw [hof.1, hpipe] at hown
    exact (Option.some.inj hown).symm

theorem Tallied.closedOnce (h : Tallied Good w) {i : Nat} {d : DBusLogSender}
    (hd : w.server.core.senderAt i = some d) :
    ∃ readfd writefd, w.pipes[i]? = some (readfd, writefd) ∧ ClosedOnce w i readfd writefd := by
  obtain ⟨readfd, writefd, hpipe, hne, htotal⟩ := h.total i d hd
  obtain ⟨hlists, hread⟩ := h.closedByLists hpipe
  have hclosed : w.closedBySender i = d.closedFds := by
    unfold closedBySender
    rw [hd]
    rfl
  refine ⟨readfd, writefd, hpipe, ?_, ?_, fun hstolen => ?_, fun hfinal => ?_, ?_⟩
  · -- the sender closes the read end, or a list does
    have hcount := congrArg (List.count readfd) htotal
    have hle := List.count_le_length (a := readfd) (l := w.closedByLists i)
    rw [List.count_append] at hcount ⊢
    rw [hclosed]
    by_cases hstolen : i ∈ w.stolen
    · have honce := List.nodup_iff_count_le_one.mp h.nodup i
      rw [if_pos hstolen, List.count_singleton, if_neg (by simpa using hne.symm)] at hcount
      omega
    · have hnever := List.count_eq_zero.mpr hstolen
      rw [if_neg hstolen, List.count_cons_self, List.count_singleton,
        if_neg (by simpa using hne.symm)] at hcount
      omega
  · have hcount := congrArg (List.count writefd) htotal
    have hnone : (w.closedByLists i).count writefd = 0 :=
      List.count_eq_zero.mpr fun hin => hne (hread _ hin).symm
    have hone : List.count writefd (if i ∈ w.stolen then [writefd] else [readfd, writefd]) = 1 := by
      split
      · exact List.count_singleton_self
      · rw [List.count_cons_of_ne hne, List.count_singleton_self]
    rw [hone, List.count_append] at hcount
    rw [List.count_append, hnone, hclosed]
    omega
  · rw [hclosed]
    intro hin
    have hmem := List.mem_append_left d.openFds hin
    rw [htotal, if_pos hstolen, List.mem_singleton] at hmem
    exact hne hmem
  · obtain ⟨d₁, hd₁, hnone⟩ := h.finalized i hfinal
    cases hd.symm.trans hd₁
    rw [hnone, List.append_nil] at htotal
    rw [hclosed, htotal]
    by_cases hstolen : i ∈ w.stolen
    · rw [if_pos hstolen]
      exact ⟨List.mem_singleton_self _, .inr hstolen⟩
    · rw [if_neg hstolen]
      exact ⟨List.mem_cons_of_mem _ (List.mem_singleton_self _), .inl List.mem_cons_self⟩
  · rw [← h.lists, List.mem_map]
    constructor
    · rintro ⟨list, hlist, rfl⟩
      have hfd := h.fds list hlist
      rw [hpipe] at hfd
      exact ⟨list, hlist, rfl, (Option.some.inj hfd).symm⟩
    · rintro ⟨list, hlist, hof, _⟩
      exact ⟨list, hlist, hof⟩

/-- Each sender has one pipe, of which no end is closed twice. -/
def PipesClosedOnce (w : ServerProcess Policy β) : Prop :=
  ∀ i d, w.server.core.senderAt i = some d →
    ∃ readfd writefd, w.pipes[i]? = some (readfd, writefd) ∧ ClosedOnce w i readfd writefd

/-- What has been closed remains on record. -/
structure Recorded (w w' : ServerProcess Policy β) : Prop where
  senders : ∀ i d, w.server.core.senderAt i = some d →
    ∃ d', w'.server.core.senderAt i = some d' ∧ d.closedFds <+: d'.closedFds
  lists : ∀ (k : Nat) list, w.fdLists[k]? = some list → ∃ list', w'.fdLists[k]? = some list' ∧
    list'.sender = list.sender ∧ list'.fd = list.fd ∧ (list.freed = true → list'.freed = true)

theorem collect_frame (w : ServerProcess Policy β) :
    w.collect.fdLists = w.fdLists ∧ DBusLogCore.Conserves w.server.core w.collect.server.core := by
  have hloop : ∀ (items : List Nat) (w : ServerProcess Policy β),
      let w' := items.foldl (fun w i =>
        if i ∉ w.finalized ∧ w.senderRefs i = 0 then w.finalizeSender i else w) w
      w'.fdLists = w.fdLists ∧ DBusLogCore.Conserves w.server.core w'.server.core := by
    intro items
    induction items with
    | nil => exact fun w => ⟨rfl, .refl _⟩
    | cons i items ih =>
      intro w
      dsimp only
      rw [List.foldl_cons]
      split
      · obtain ⟨hlists, hmoved⟩ := ih (w.finalizeSender i)
        exact ⟨hlists, (DBusLogCore.runSender_conserves w.server.core i
          fun d _ => DBusLogSender.dispose_conserved d).trans hmoved⟩
      · exact ih w
  exact hloop _ w

theorem Recorded.of_collect {core : DBusLogCore} {lists : List GUnixFDList}
    (hsenders : ∀ i d, w.server.core.senderAt i = some d →
      ∃ d', core.senderAt i = some d' ∧ DBusLogSender.Conserved d d')
    (hcore : w'.server.core = core) (hlists : w'.fdLists = w.fdLists ++ lists) :
    Recorded w w'.collect := by
  obtain ⟨hkept, hmoved⟩ := collect_frame w'
  refine ⟨fun i d hd => ?_, fun k list hlist => ⟨list, ?_, rfl, rfl, id⟩⟩
  · obtain ⟨d', hd', hconserved⟩ := hsenders i d hd
    obtain ⟨d'', hd'', hconserved'⟩ := hmoved.senders i d' (hcore ▸ hd')
    exact ⟨d'', hd'', hconserved.closed.trans hconserved'.closed⟩
  · rw [hkept, hlists, List.getElem?_append_left (List.getElem?_eq_some_iff.mp hlist).1]
    exact hlist

theorem Tallied.recorded (h : Tallied Good w) (hu : Consistent use lib handsOver Good)
    {op : ProcessOp} (hs : ServerProcess.step use w op = some w') : Recorded w w' := by
  cases op with
  | session op =>
    obtain ⟨henabled, hmap⟩ := Option.ite_none_right_eq_some.mp hs
    obtain ⟨s, hstep, rfl⟩ := Option.map_eq_some_iff.mp hmap
    refine Recorded.of_collect ?_ rfl rfl
    cases hdisposed : w.disposed with
    | false =>
      obtain ⟨hb, hgood⟩ := h.bookkept hdisposed
      rw [(hu.follows w.server hb hgood).step op] at hstep
      exact DBusLogServer.sessionStep_old hb hstep
    | true =>
      obtain ⟨i, a, rfl⟩ := sender_of_disposed hdisposed henabled
      rw [(hu.sender w.server i a).1] at hstep
      exact (DBusLogServer.sender_conserves hstep).senders
  | freeFdList index =>
    obtain ⟨_, he⟩ := Option.ite_none_right_eq_some.mp hs
    cases he
    refine ⟨fun i d hd => ⟨d, hd, List.prefix_refl _⟩, fun k list hlist => ?_⟩
    rw [List.getElem?_modify, hlist]
    by_cases hk : index = k
    · subst hk
      exact ⟨_, rfl, by simp⟩
    · exact ⟨list, by simp [hk], rfl, rfl, id⟩
  | dispose ctx order =>
    obtain ⟨_, he⟩ := Option.ite_none_right_eq_some.mp hs
    cases he
    exact Recorded.of_collect (DBusLogServer.dispose_conserves ctx w.server order).senders rfl
      (List.append_nil _).symm

end Tallied

section Runs

variable {Cred Policy : Type} (lib : Libraries Cred Policy)

theorem gio_consistent : Consistent (DBusLogServerGio.descriptorUse lib) lib true
    fun b => b.bus = true where
  follows s hb hbus := DBusLogServerGio.follows lib hb hbus
  watch b name hbus := by
    change (b.watchName name).2.bus = true
    unfold DBusLogServerGio.watchName
    rw [if_pos hbus]
    exact hbus
  unwatch _ _ hbus := hbus
  sender _ _ _ := ⟨rfl, rfl, rfl⟩

theorem dbus_consistent :
    Consistent (DBusLogServerDbus.descriptorUse lib) lib false fun _ => True where
  follows s _ _ := DBusLogServerDbus.follows lib s
  watch _ _ _ := trivial
  unwatch _ _ _ := trivial
  sender _ _ _ := ⟨rfl, rfl, rfl⟩

/-- Each end of a pipe is closed at most once. With either back end, whatever peers, log calls and
channels do, and also when the server goes before its senders: a sender does not close a read end
that has been given away, and when it is finalized it leaves nothing open. -/
theorem pipesClosedOnce (bus : DABus) (path : String) (policy : Policy) (ops : List ProcessOp) :
    (∀ w, Runs.run (step (DBusLogServerGio.descriptorUse lib))
        (new ((DBusLogServerGio.newServer bus path policy).start DBusLogServerGio.klass)) ops =
          some w →
      PipesClosedOnce w ∧ ∀ op w', step (DBusLogServerGio.descriptorUse lib) w op = some w' →
        Recorded w w') ∧
    ∀ w, Runs.run (step (DBusLogServerDbus.descriptorUse lib))
        (new ((DBusLogServerDbus.newFull bus path policy).start DBusLogServerDbus.klass)) ops =
          some w →
      PipesClosedOnce w ∧ ∀ op w', step (DBusLogServerDbus.descriptorUse lib) w op = some w' →
        Recorded w w' := by
  constructor
  · intro w hrun
    have hnew : Tallied (fun b : DBusLogServerGio => b.bus = true) (new
        ((DBusLogServerGio.newServer bus path policy).start DBusLogServerGio.klass)) :=
      .new (DBusLogServer.start_fresh DBusLogServerGio.klass bus path policy
        DBusLogServerGio.new).1 rfl rfl
    have h := hnew.run (gio_consistent lib) hrun
    exact ⟨fun i d hd => h.closedOnce hd, fun op w' hs => h.recorded (gio_consistent lib) hs⟩
  · intro w hrun
    have hnew : Tallied (fun _ : DBusLogServerDbus => True) (new
        ((DBusLogServerDbus.newFull bus path policy).start DBusLogServerDbus.klass)) :=
      .new (DBusLogServer.start_fresh DBusLogServerDbus.klass bus path policy
        DBusLogServerDbus.new).1 trivial rfl
    have h := hnew.run (dbus_consistent lib) hrun
    exact ⟨fun i d hd => h.closedOnce hd, fun op w' hs => h.recorded (dbus_consistent lib) hs⟩

/-- A peer opens the log twice, the pipe of its first session breaks, and the server goes. -/
def reopened : List ProcessOp :=
  [.session (.logOpen ⟨some (3, 4), fun _ => []⟩ ":1.1"),
    .session (.log ⟨false, 0, fun _ => []⟩ Level.info none (some [104])),
    .session (.logOpen ⟨some (5, 6), fun _ => []⟩ ":1.1"),
    .session (.sender 0 (.watch 1 true [.error])),
    .dispose ⟨none, fun _ => []⟩ [⟨":1.1", 2, 1⟩]]

theorem pipesClosedOnce_reopened :
    (∃ w, Runs.run (step (DBusLogServerGio.descriptorUse DBusLogServer.anybody))
        (new ((DBusLogServerGio.newServer .system "/logger" ()).start DBusLogServerGio.klass))
        (reopened ++ [.freeFdList 0]) = some w ∧ w.finalized = [0, 1] ∧
      w.closedBySender 0 = [4] ∧ w.closedByLists 0 = [3] ∧ PipesClosedOnce w) ∧
    ∃ w, Runs.run (step (DBusLogServerDbus.descriptorUse DBusLogServer.anybody))
        (new ((DBusLogServerDbus.newFull .system "/logger" ()).start DBusLogServerDbus.klass))
        reopened = some w ∧ w.finalized = [0, 1] ∧
      w.closedBySender 0 = [3, 4] ∧ w.closedByLists 0 = [] ∧ PipesClosedOnce w := by
  constructor
  · obtain ⟨w, hw, he⟩ := Option.map_eq_some_iff.mp (by decide +kernel :
      (Runs.run (step (DBusLogServerGio.descriptorUse DBusLogServer.anybody))
        (new ((DBusLogServerGio.newServer .system "/logger" ()).start DBusLogServerGio.klass))
        (reopened ++ [.freeFdList 0])).map
          (fun w => (w.finalized, w.closedBySender 0, w.closedByLists 0)) =
        some ([0, 1], [4], [3]))
    simp only [Prod.mk.injEq] at he
    exact ⟨w, hw, he.1, he.2.1, he.2.2,
      ((pipesClosedOnce DBusLogServer.anybody .system "/logger" () _).1 w hw).1⟩
  · obtain ⟨w, hw, he⟩ := Option.map_eq_some_iff.mp (by decide +kernel :
      (Runs.run (step (DBusLogServerDbus.descriptorUse DBusLogServer.anybody))
        (new ((DBusLogServerDbus.newFull .system "/logger" ()).start DBusLogServerDbus.klass))
        reopened).map (fun w => (w.finalized, w.closedBySender 0, w.closedByLists 0)) =
        some ([0, 1], [3, 4], []))
    simp only [Prod.mk.injEq] at he
    exact ⟨w, hw, he.1, he.2.1, he.2.2,
      ((pipesClosedOnce DBusLogServer.anybody .system "/logger" () _).2 w hw).1⟩

end Runs

end ServerProcess

end DBusLog

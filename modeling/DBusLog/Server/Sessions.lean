import DBusLog.Core.Handlers
import DBusLog.Server.Model

/-!
# The sessions of a server

Peers open the log, close it and vanish, messages are logged, and channels fail, in any order. The
table of peers, the array of senders and the table of signal ids go together all along: a sender
that still takes messages is the one that the table of peers has for its bus name.
-/

namespace DBusLog

/-- What happens to the sessions of a server. -/
inductive SessionOp
  | logOpen (ctx : ServerContext) (name : String)
  | logClose (ctx : ServerContext) (name : String) (cookie : UInt32)
  | vanished (ctx : ServerContext) (name : String)
  | log (ctx : LogContext) (level : Level) (cname : Option String)
      (message : Option (List UInt8))
  | logv (ctx : LogContext) (level : Level) (cname : Option String)
      (formatted : Option (List UInt8))
  | sender (sender : Nat) (a : SenderStep)

namespace SessionOp

/-- The peer whose operation it is. -/
def peer? : SessionOp → Option String
  | .logOpen _ name | .logClose _ name _ | .vanished _ name => some name
  | .log _ _ _ _ | .logv _ _ _ _ | .sender _ _ => none

/-- The peer whose session ends. -/
def ends? : SessionOp → Option String
  | .logClose _ name _ | .vanished _ name => some name
  | .logOpen _ _ | .log _ _ _ _ | .logv _ _ _ _ | .sender _ _ => none

/-- It is a log call. -/
def Logs : SessionOp → Prop
  | .log _ _ _ _ | .logv _ _ _ _ => True
  | .logOpen _ _ | .logClose _ _ _ | .vanished _ _ | .sender _ _ => False

end SessionOp

namespace DBusLogSender

/-- The messages that a sender has still to get out. -/
def held (d : DBusLogSender) : List DBusLogMessage := d.currentMessage.toList ++ d.buffer.items

/-- A sender that is done queues nothing. -/
theorem send_of_done {d : DBusLogSender} (h : d.done = true) (msg : DBusLogMessage) :
    d.send msg = d := by
  unfold send sendLocked
  rw [if_pos h]

theorem sendFromWorker_of_done {d : DBusLogSender} (h : d.done = true) (msg : DBusLogMessage) :
    d.sendFromWorker msg = d := by
  unfold sendFromWorker sendLocked
  rw [if_pos h]

end DBusLogSender

namespace DBusLogServer

section Sessions

variable {Cred Policy β : Type} (lib : Libraries Cred Policy) (klass : DBusLogServerClass β)
  (handsOver : Bool)

/-- `dbus_log_server_log` -/
def log (s : DBusLogServer Policy β) (ctx : LogContext) (level : Level) (cname : Option String)
    (message : Option (List UInt8)) : DBusLogServer Policy β :=
  { s with core := (s.core.log ctx level cname message).2 }

/-- `dbus_log_server_logv` -/
def logv (s : DBusLogServer Policy β) (ctx : LogContext) (level : Level) (cname : Option String)
    (formatted : Option (List UInt8)) : DBusLogServer Policy β :=
  { s with core := (s.core.logv ctx level cname formatted).2 }

/-- What the handler of `LogOpen` does to a server. One of the back ends hands the descriptor over
to its reply. -/
def openLog (ctx : ServerContext) (s : DBusLogServer Policy β) (name : String) :
    DBusLogServer Policy β :=
  let (fd, s) := s.callLogOpen lib klass ctx name
  if handsOver ∧ fd ≥ 0 then (s.stealReadfd name fd).2 else s

/-- A step; `none` when it is not enabled. -/
def sessionStep (s : DBusLogServer Policy β) : SessionOp → Option (DBusLogServer Policy β)
  | .logOpen ctx name => some (s.openLog lib klass handsOver ctx name)
  | .logClose ctx name cookie => some (s.callLogClose klass ctx name cookie)
  | .vanished ctx name => some (s.peerVanished klass ctx name)
  | .log ctx level cname message => some (s.log ctx level cname message)
  | .logv ctx level cname formatted => some (s.logv ctx level cname formatted)
  | .sender sender a => (s.core.step (.sender sender a)).map fun core => { s with core := core }

/-- The three tables go together. -/
structure Bookkept (s : DBusLogServer Policy β) : Prop where
  sound : DBusLogCore.Sound [] s.core
  connected : DBusLogCore.Connected s.core
  owned : ∀ peer ∈ s.peers.values, ∃ d, s.core.senderAt peer.sender = some d ∧ d.name = peer.name
  listed : ∀ i ∈ s.core.registered, ∀ d, s.core.senderAt i = some d → d.done = false →
    ∃ peer ∈ s.peers.values, peer.sender = i

/-- Nothing of a peer other than `name` has changed. -/
structure OthersKept (name : String) (s s' : DBusLogServer Policy β) : Prop where
  peers : ∀ other ≠ name, s'.peers.lookup other = s.peers.lookup other
  senders : ∀ i d, s.core.senderAt i = some d → d.name ≠ name → s'.core.senderAt i = some d

/-- All senders have moved on, and those that have left the array are not back. -/
structure SendersOnward (s s' : DBusLogServer Policy β) : Prop where
  senders : ∀ i d, s.core.senderAt i = some d →
    ∃ d', s'.core.senderAt i = some d' ∧ DBusLogSender.Onward d d'
  registered : ∀ i ∈ s'.core.registered, i ∈ s.core.registered ∨ s.core.objects.length ≤ i
  objects : s.core.objects.length ≤ s'.core.objects.length

variable {lib klass handsOver} {s s' s'' : DBusLogServer Policy β} {name : String}

/-- There is at most one entry for a sender, and it is under the name of the sender. -/
theorem Bookkept.name_eq (h : Bookkept s) {peer : DBusLogServerPeer} (hpeer : peer ∈ s.peers.values)
    {d : DBusLogSender} (hd : s.core.senderAt peer.sender = some d) : peer.name = d.name := by
  obtain ⟨d', hd', hname⟩ := h.owned peer hpeer
  cases hd.symm.trans hd'
  exact hname.symm

theorem SendersOnward.refl (s : DBusLogServer Policy β) : SendersOnward s s :=
  ⟨fun _ d hd => ⟨d, hd, DBusLogSender.Onward.refl d⟩, fun _ hi => .inl hi, le_rfl⟩

theorem SendersOnward.of_carried {s s' : DBusLogServer Policy β}
    (h : DBusLogCore.Carried s.core s'.core) : SendersOnward s s' :=
  ⟨h.senders, fun i hi => .inl (h.registered i hi), h.objects.ge⟩

/-! ## Steps that leave the table of peers alone -/

theorem Bookkept.carried (h : Bookkept s) {core : DBusLogCore}
    (hc : DBusLogCore.Carried s.core core) : Bookkept { s with core := core } where
  sound := hc.sound
  connected := hc.connected
  owned peer hpeer := by
    obtain ⟨d, hd, hname⟩ := h.owned peer hpeer
    obtain ⟨d', hd', honward⟩ := hc.senders _ d hd
    exact ⟨d', hd', honward.name.trans hname⟩
  listed i hi d' hd' hopen := by
    have hold := hc.registered i hi
    obtain ⟨d, hd⟩ := DBusLogCore.exists_senderAt (h.sound.known i hold)
    obtain ⟨d₁, hd₁, honward⟩ := hc.senders i d hd
    cases hd'.symm.trans hd₁
    refine h.listed i hold d hd ?_
    cases hdone : d.done with
    | false => rfl
    | true => exact absurd (hopen.symm.trans (honward.done hdone)) Bool.false_ne_true

theorem Bookkept.known (h : Bookkept s) {peer : DBusLogServerPeer}
    (hpeer : peer ∈ s.peers.values) : peer.sender < s.core.objects.length := by
  obtain ⟨d, hd, _⟩ := h.owned peer hpeer
  exact DBusLogCore.lt_of_senderAt hd

/-- A change of the sender that the table of peers has under a name. -/
theorem Bookkept.runPeer (h : Bookkept s) {peer : DBusLogServerPeer}
    (hpeer : peer ∈ s.peers.values) {f : DBusLogSender → DBusLogSender}
    (hf : ∀ d, DBusLogSender.Onward d (f d)) :
    DBusLogCore.Carried s.core (s.core.runSender peer.sender f) ∧
      (∀ i d, s.core.senderAt i = some d → d.name ≠ peer.name →
        (s.core.runSender peer.sender f).senderAt i = some d) ∧
      ∀ d, s.core.senderAt peer.sender = some d →
        (s.core.runSender peer.sender f).senderAt peer.sender = some (f d) := by
  have hcall := DBusLogCore.runSender_call h.sound (h.known hpeer) f
  refine ⟨DBusLogCore.runSender_carried h.sound h.connected (h.known hpeer) fun d _ => hf d,
    fun i d hd hne => ?_, fun d hd => ?_⟩
  · rw [hcall.senders i, if_neg]
    · exact hd
    · rintro rfl
      exact hne (h.name_eq hpeer hd).symm
  · rw [hcall.senders peer.sender, if_pos rfl, hd]
    rfl

/-! ## A session ends -/

/-- What `dbus_log_server_peer_destroy` does to the sender of a peer. -/
theorem close_onward (answers : List WriteAnswer) (d : DBusLogSender) :
    DBusLogSender.Onward d ({ d with answers := answers }.close true) :=
  (DBusLogSender.close_later _ true).onward

/-- What the end of a session leaves. -/
structure Ended (name : String) (s s' : DBusLogServer Policy β) : Prop where
  bookkept : Bookkept s'
  others : OthersKept name s s'
  onward : SendersOnward s s'
  lookup : s'.peers.lookup name = none

theorem removePeer_ended (h : Bookkept s) (ctx : ServerContext) (name : String) :
    Ended name s (s.removePeer klass ctx name) := by
  unfold removePeer
  cases hlookup : s.peers.lookup name with
  | none =>
    exact ⟨h, ⟨fun _ _ => rfl, fun _ _ hd _ => hd⟩, SendersOnward.refl s, hlookup⟩
  | some peer =>
    have hpeer := KeyedTable.mem_of_lookup hlookup
    have hname := KeyedTable.key_of_lookup hlookup
    obtain ⟨hcarried, hothers, hclosed⟩ := h.runPeer hpeer (close_onward (ctx.answers peer.sender))
    have hafter := h.carried hcarried
    refine ⟨⟨hcarried.sound, hcarried.connected, ?_, ?_⟩, ⟨?_, ?_⟩, .of_carried hcarried,
      KeyedTable.lookup_erase _ _⟩
    · intro other hother
      exact hafter.owned other ((KeyedTable.mem_erase_iff _).mp hother).1
    · intro i hi d hd hopen
      obtain ⟨other, hother, rfl⟩ := hafter.listed i hi d hd hopen
      refine ⟨other, (KeyedTable.mem_erase_iff _).mpr ⟨hother, fun hsame => ?_⟩, rfl⟩
      -- the entry that is gone is that of a sender that is done
      cases KeyedTable.eq_of_key_eq hother hpeer (hsame.trans hname.symm)
      obtain ⟨d₀, hd₀, _⟩ := h.owned peer hpeer
      cases hd.symm.trans (hclosed d₀ hd₀)
      rw [DBusLogSender.done_of_close] at hopen
      cases hopen
    · intro other hne
      exact KeyedTable.lookup_erase_ne _ hne
    · intro i d hd hne
      exact hothers i d hd (hname ▸ hne)

/-! ## A session begins -/

/-- The core after the sender of the entry that has been replaced is destroyed. -/
def closeOld (ctx : ServerContext) (core : DBusLogCore) : Option DBusLogServerPeer → DBusLogCore
  | some old => core.runSender old.sender fun d =>
    { d with answers := ctx.answers old.sender }.close true
  | none => core

/-- `LogOpen` is refused, or there is a new sender with an entry of its own. -/
theorem callLogOpen_cases (h : DBusLogCore.Sound [] s.core) (lib : Libraries Cred Policy)
    (klass : DBusLogServerClass β) (ctx : ServerContext) (name : String) :
    (¬(s.accessAllowed lib name .logOpen = true ∧ ctx.pipe.isSome = true) ∧
      ∃ err < 0, s.callLogOpen lib klass ctx name = (err, s)) ∨
    ∃ readfd writefd core watchId backend, s.accessAllowed lib name .logOpen = true ∧
      ctx.pipe = some (readfd, writefd) ∧
      DBusLogCore.Joined name readfd writefd s.core core ∧
      s.callLogOpen lib klass ctx name = ((readfd : Int), { s with
        core := closeOld ctx core (s.peers.lookup name)
        backend := backend
        peers := s.peers.insert ⟨name, watchId, s.core.objects.length⟩ }) := by
  unfold callLogOpen
  by_cases hallowed : ¬s.accessAllowed lib name .logOpen
  · rw [if_pos hallowed]
    exact .inl ⟨fun hboth => hallowed hboth.1, -eacces, by decide, rfl⟩
  · rw [if_neg hallowed]
    cases hpipe : ctx.pipe with
    | none => exact .inl ⟨fun hboth => Bool.false_ne_true hboth.2, -eio, by decide, rfl⟩
    | some fds =>
      obtain ⟨readfd, writefd⟩ := fds
      obtain ⟨hnew, hjoined⟩ := DBusLogCore.newSender_joined h name readfd writefd
      generalize hcall : s.core.newSender name (some (readfd, writefd)) = result at hnew hjoined
      obtain ⟨sender, core⟩ := result
      cases hnew
      have hfd : DBusLogServer.readfd core s.core.objects.length = (readfd : Int) := by
        unfold DBusLogServer.readfd
        rw [hjoined.senderAt_new]
        rfl
      refine .inr ⟨readfd, writefd, core, (klass.watchName s.backend name).1, ?_⟩
      dsimp only
      rw [hfd]
      unfold replacePeer
      dsimp only
      cases s.peers.lookup name with
      | none => exact ⟨_, not_not.mp hallowed, rfl, hjoined, rfl⟩
      | some old => exact ⟨_, not_not.mp hallowed, rfl, hjoined, rfl⟩

/-- The data of the back end after the entry that has been replaced is destroyed. -/
def unwatchOld (klass : DBusLogServerClass β) (backend : β) : Option DBusLogServerPeer → β
  | some old => klass.unwatchName backend old.watchId
  | none => backend

/-- What `LogOpen` does to the peers and to the back end. -/
theorem callLogOpen_watches (s : DBusLogServer Policy β) (lib : Libraries Cred Policy)
    (klass : DBusLogServerClass β) (ctx : ServerContext) (name : String) :
    ((s.callLogOpen lib klass ctx name).2.peers = s.peers ∧
      (s.callLogOpen lib klass ctx name).2.backend = s.backend) ∨
    ∃ sender, (s.accessAllowed lib name .logOpen = true ∧ ctx.pipe.isSome = true) ∧
      (s.callLogOpen lib klass ctx name).2.peers =
        s.peers.insert ⟨name, (klass.watchName s.backend name).1, sender⟩ ∧
      (s.callLogOpen lib klass ctx name).2.backend =
        unwatchOld klass (klass.watchName s.backend name).2 (s.peers.lookup name) := by
  unfold callLogOpen
  by_cases hallowed : ¬s.accessAllowed lib name .logOpen
  · rw [if_pos hallowed]
    exact .inl ⟨rfl, rfl⟩
  · rw [if_neg hallowed]
    cases hpipe : ctx.pipe with
    | none => exact .inl ⟨rfl, rfl⟩
    | some fds =>
      unfold replacePeer DBusLogCore.newSender
      dsimp only
      cases s.peers.lookup name with
      | none => exact .inr ⟨_, ⟨not_not.mp hallowed, rfl⟩, rfl, rfl⟩
      | some old => exact .inr ⟨_, ⟨not_not.mp hallowed, rfl⟩, rfl, rfl⟩

/-- What `LogOpen` leaves: the entry of the new sender has taken the place of an older one. -/
structure Opened (name : String) (s s' : DBusLogServer Policy β) : Prop where
  bookkept : Bookkept s'
  others : OthersKept name s s'
  onward : SendersOnward s s'

/-- What the end of the older session does to the core with the new sender. -/
theorem closeOld_carried (h : Bookkept s) (ctx : ServerContext) {readfd writefd : Nat}
    {core : DBusLogCore} (hj : DBusLogCore.Joined name readfd writefd s.core core) :
    DBusLogCore.Carried core (closeOld ctx core (s.peers.lookup name)) ∧
      (∀ i d, s.core.senderAt i = some d → d.name ≠ name →
        (closeOld ctx core (s.peers.lookup name)).senderAt i = some d) ∧
      ∀ old d, s.peers.lookup name = some old →
        (closeOld ctx core (s.peers.lookup name)).senderAt old.sender = some d →
        d.done = true := by
  have hconnected := hj.connected h.sound h.connected
  have hold : ∀ {i d}, s.core.senderAt i = some d → core.senderAt i = some d := by
    intro i d hd
    rw [hj.senderAt_old (DBusLogCore.lt_of_senderAt hd)]
    exact hd
  cases hlookup : s.peers.lookup name with
  | none =>
    exact ⟨.refl hj.sound hconnected, fun i d hd _ => hold hd, fun old d hsome => by cases hsome⟩
  | some old =>
    have hpeer := KeyedTable.mem_of_lookup hlookup
    have hknown : old.sender < core.objects.length := by
      rw [hj.objects, List.length_append]
      exact Nat.lt_add_right _ (h.known hpeer)
    have hcall := DBusLogCore.runSender_call hj.sound hknown fun d =>
      { d with answers := ctx.answers old.sender }.close true
    refine ⟨DBusLogCore.runSender_carried hj.sound hconnected hknown
      fun d _ => close_onward _ d, fun i d hd hne => ?_, fun other d hsome hd => ?_⟩
    · refine (hcall.senders i).trans ?_
      rw [if_neg]
      · exact hold hd
      · rintro rfl
        exact hne ((h.name_eq hpeer hd).symm.trans (KeyedTable.key_of_lookup hlookup))
    · cases hsome
      have hd' := (hcall.senders old.sender).symm.trans hd
      rw [if_pos rfl] at hd'
      obtain ⟨d₀, _, rfl⟩ := Option.map_eq_some_iff.mp hd'
      exact DBusLogSender.done_of_close _ true

theorem closeOld_opened (h : Bookkept s) (ctx : ServerContext) {readfd writefd : Nat}
    {core : DBusLogCore} (hj : DBusLogCore.Joined name readfd writefd s.core core)
    (watchId : UInt64) (backend : β) :
    DBusLogCore.Carried core (closeOld ctx core (s.peers.lookup name)) ∧
      Opened name s { s with
        core := closeOld ctx core (s.peers.lookup name)
        backend := backend
        peers := s.peers.insert ⟨name, watchId, s.core.objects.length⟩ } := by
  have hlength : core.objects.length = s.core.objects.length + 1 := by
    rw [hj.objects, List.length_append]
    rfl
  obtain ⟨hcarried, hothers, hclosed⟩ := closeOld_carried h ctx hj
  have honward : ∀ i d, s.core.senderAt i = some d →
      ∃ d', (closeOld ctx core (s.peers.lookup name)).senderAt i = some d' ∧
        DBusLogSender.Onward d d' := by
    intro i d hd
    refine hcarried.senders i d ?_
    rw [hj.senderAt_old (DBusLogCore.lt_of_senderAt hd)]
    exact hd
  have hgrown : s.core.objects.length ≤ (closeOld ctx core (s.peers.lookup name)).objects.length := by
    rw [hcarried.objects, hlength]
    exact Nat.le_succ _
  refine ⟨hcarried, ⟨hcarried.sound, hcarried.connected, ?_, ?_⟩, ⟨?_, hothers⟩, honward, ?_, hgrown⟩
  · intro peer hpeer
    obtain rfl | ⟨hmem, _⟩ := (KeyedTable.mem_insert_iff _).mp hpeer
    · obtain ⟨d, hd, hmoved⟩ := hcarried.senders _ _ hj.senderAt_new
      exact ⟨d, hd, hmoved.name⟩
    · obtain ⟨d, hd, hname⟩ := h.owned peer hmem
      obtain ⟨d', hd', hmoved⟩ := honward _ d hd
      exact ⟨d', hd', hmoved.name.trans hname⟩
  · intro i hi d hd hopen
    have hin := hcarried.registered i hi
    rw [hj.registered] at hin
    obtain hold | hnew := List.mem_append.mp hin
    · -- a sender that still takes messages is not the one that has been closed
      obtain ⟨d₀, hd₀⟩ := DBusLogCore.exists_senderAt (h.sound.known i hold)
      obtain ⟨d₁, hd₁, hmoved⟩ := honward i d₀ hd₀
      cases hd.symm.trans hd₁
      have hopen₀ : d₀.done = false := by
        cases hdone : d₀.done with
        | false => rfl
        | true => exact absurd (hopen.symm.trans (hmoved.done hdone)) Bool.false_ne_true
      obtain ⟨peer, hpeer, rfl⟩ := h.listed i hold d₀ hd₀ hopen₀
      refine ⟨peer, (KeyedTable.mem_insert_iff _).mpr (.inr ⟨hpeer, fun hsame => ?_⟩), rfl⟩
      have hlookup : s.peers.lookup name = some peer :=
        KeyedTable.lookup_eq_some_iff.mpr ⟨hpeer, hsame⟩
      rw [hclosed peer d hlookup hd] at hopen
      cases hopen
    · rw [List.mem_singleton.mp hnew]
      exact ⟨_, (KeyedTable.mem_insert_iff _).mpr (.inl rfl), rfl⟩
  · intro other hne
    exact KeyedTable.lookup_insert_ne _ hne
  · intro i hi
    have hin := hcarried.registered i hi
    rw [hj.registered] at hin
    obtain hold | hnew := List.mem_append.mp hin
    · exact .inl hold
    · exact .inr (List.mem_singleton.mp hnew).ge

/-- The descriptor of a sender is handed over. -/
theorem stealReadfd_opened (h : Bookkept s) (name : String) (fd : Int) :
    Opened name s (s.stealReadfd name fd).2 := by
  have hsame : Opened name s s :=
    ⟨h, ⟨fun _ _ => rfl, fun _ _ hd _ => hd⟩, SendersOnward.refl s⟩
  unfold stealReadfd
  cases hlookup : (if fd ≥ 0 then s.peers.lookup name else none) with
  | none => exact hsame
  | some peer =>
    have hfound := (Option.ite_none_right_eq_some.mp hlookup).2
    have hpeer := KeyedTable.mem_of_lookup hfound
    dsimp only
    by_cases hfd : DBusLogServer.readfd s.core peer.sender = fd
    · rw [if_pos hfd]
      obtain ⟨hcarried, hothers, _⟩ := h.runPeer (f := fun d => { d with readfd := none }) hpeer
        fun d => ⟨rfl, id, .inr rfl, .kept rfl rfl⟩
      refine ⟨h.carried hcarried, ⟨fun _ _ => rfl, fun i d hd hne => ?_⟩, .of_carried hcarried⟩
      exact hothers i d hd (KeyedTable.key_of_lookup hfound ▸ hne)
    · rw [if_neg hfd]
      exact hsame

theorem SendersOnward.trans (h : SendersOnward s s') (h' : SendersOnward s' s'') :
    SendersOnward s s'' where
  senders i d hd := by
    obtain ⟨d', hd', honward⟩ := h.senders i d hd
    obtain ⟨d'', hd'', honward'⟩ := h'.senders i d' hd'
    exact ⟨d'', hd'', honward.trans honward'⟩
  registered i hi := by
    obtain hin | hge := h'.registered i hi
    · exact h.registered i hin
    · exact .inr (h.objects.trans hge)
  objects := h.objects.trans h'.objects

theorem openLog_opened (h : Bookkept s) (ctx : ServerContext) (name : String) :
    Opened name s (s.openLog lib klass handsOver ctx name) := by
  have hsame : Opened name s s :=
    ⟨h, ⟨fun _ _ => rfl, fun _ _ hd _ => hd⟩, SendersOnward.refl s⟩
  unfold openLog
  obtain ⟨_, err, hneg, he⟩ | ⟨readfd, writefd, core, watchId, backend, _, _, hjoined, he⟩ :=
    callLogOpen_cases h.sound lib klass ctx name
  · rw [he]
    dsimp only
    rw [if_neg fun hboth => absurd hboth.2 (not_le.mpr hneg)]
    exact hsame
  · obtain ⟨_, hopened⟩ := closeOld_opened h ctx hjoined watchId backend
    rw [he]
    dsimp only
    split
    · have hstolen := stealReadfd_opened hopened.bookkept name (readfd : Int)
      refine ⟨hstolen.bookkept, ⟨fun other hne => ?_, fun i d hd hne => ?_⟩,
        hopened.onward.trans hstolen.onward⟩
      · exact (hstolen.others.peers other hne).trans (hopened.others.peers other hne)
      · exact hstolen.others.senders i d (hopened.others.senders i d hd hne) hne
    · exact hopened

/-! ## Every step -/

theorem sender_carried (h : Bookkept s) {i : Nat} {a : SenderStep} {core : DBusLogCore}
    (hs : s.core.step (.sender i a) = some core) : DBusLogCore.Carried s.core core := by
  obtain ⟨d, d', hd, hstep, hi, rfl⟩ := DBusLogCore.step_callback hs
  refine DBusLogCore.runSender_carried h.sound h.connected hi fun d₀ hd₀ => ?_
  cases hd.symm.trans hd₀
  exact (DBusLogSender.step_later hstep).onward

theorem log_carried (h : Bookkept s) (ctx : LogContext) (level : Level) (cname : Option String)
    (message : Option (List UInt8)) :
    DBusLogCore.Carried s.core (s.core.log ctx level cname message).2 :=
  DBusLogCore.logMessage_carried h.sound h.connected ctx level cname (by cases message <;> rfl)

theorem logv_carried (h : Bookkept s) (ctx : LogContext) (level : Level) (cname : Option String)
    (formatted : Option (List UInt8)) :
    DBusLogCore.Carried s.core (s.core.logv ctx level cname formatted).2 :=
  DBusLogCore.logMessage_carried h.sound h.connected ctx level cname (by cases formatted <;> rfl)

/-- Step lemma. -/
theorem sessionStep_bookkept {op : SessionOp} (h : Bookkept s)
    (hs : s.sessionStep lib klass handsOver op = some s') :
    Bookkept s' ∧ SendersOnward s s' ∧ ∀ name ∈ op.peer?, OthersKept name s s' := by
  have hquiet : ∀ {core : DBusLogCore}, DBusLogCore.Carried s.core core → op.peer? = none →
      Bookkept { s with core := core } ∧ SendersOnward s { s with core := core } ∧
        ∀ name ∈ op.peer?, OthersKept name s { s with core := core } := by
    intro core hcarried hnone
    refine ⟨h.carried hcarried, .of_carried hcarried, fun name hname => ?_⟩
    rw [hnone] at hname
    cases hname
  cases op with
  | logOpen ctx name =>
    cases hs
    have hopened : Opened name s (s.openLog lib klass handsOver ctx name) :=
      openLog_opened h ctx name
    refine ⟨hopened.bookkept, hopened.onward, fun other hother => ?_⟩
    cases hother
    exact hopened.others
  | logClose ctx name cookie =>
    cases hs
    have hended : Ended name s (s.removePeer klass ctx name) := removePeer_ended h ctx name
    refine ⟨hended.bookkept, hended.onward, fun other hother => ?_⟩
    cases hother
    exact hended.others
  | vanished ctx name =>
    cases hs
    have hended : Ended name s (s.removePeer klass ctx name) := removePeer_ended h ctx name
    refine ⟨hended.bookkept, hended.onward, fun other hother => ?_⟩
    cases hother
    exact hended.others
  | log ctx level cname message =>
    cases hs
    exact hquiet (log_carried h ctx level cname message) rfl
  | logv ctx level cname formatted =>
    cases hs
    exact hquiet (logv_carried h ctx level cname formatted) rfl
  | sender i a =>
    obtain ⟨core, hcore, rfl⟩ := Option.map_eq_some_iff.mp hs
    exact hquiet (sender_carried h hcore) rfl

theorem new_bookkept (bus : DABus) (path : String) (policy : Policy) (backend : β) :
    Bookkept (new bus path policy backend) where
  sound := DBusLogCore.new_sound 0 true
  connected := DBusLogCore.new_connected 0 true
  owned _ hpeer := by cases hpeer
  listed _ hi := by cases hi

/-- Run lemma. -/
theorem run_bookkept {ops : List SessionOp} (h : Bookkept s)
    (hrun : Runs.run (sessionStep lib klass handsOver) s ops = some s') :
    Bookkept s' ∧ SendersOnward s s' := by
  induction ops generalizing s with
  | nil =>
    cases hrun
    exact ⟨h, SendersOnward.refl _⟩
  | cons op ops ih =>
    obtain ⟨s₁, hs, hrest⟩ := Runs.run_cons_iff.mp hrun
    obtain ⟨hkept, honward, _⟩ := sessionStep_bookkept h hs
    obtain ⟨hkept', honward'⟩ := ih hkept hrest
    exact ⟨hkept', honward.trans honward'⟩

/-! ## Earlier senders -/

/-- The sender takes no more messages: it is done, or it has left the array. -/
def Retired (s : DBusLogServer Policy β) (i : Nat) : Prop :=
  ∃ d, s.core.senderAt i = some d ∧ (d.done = true ∨ i ∉ s.core.registered)

theorem Retired.onward {i : Nat} (h : Retired s i) (hmoved : SendersOnward s s') :
    Retired s' i := by
  obtain ⟨d, hd, hretired⟩ := h
  obtain ⟨d', hd', honward⟩ := hmoved.senders i d hd
  refine ⟨d', hd', hretired.imp honward.done fun hout hin => ?_⟩
  obtain hold | hge := hmoved.registered i hin
  · exact hout hold
  · exact absurd (DBusLogCore.lt_of_senderAt hd) (not_lt.mpr hge)

/-- All senders of a peer whose session has ended are retired. -/
theorem Ended.retired (h : Ended name s s') {i : Nat} {d : DBusLogSender}
    (hd : s.core.senderAt i = some d) (hname : d.name = name) : Retired s' i := by
  obtain ⟨d', hd', honward⟩ := h.onward.senders i d hd
  refine ⟨d', hd', ?_⟩
  cases hdone : d'.done with
  | true => exact .inl rfl
  | false =>
    refine .inr fun hin => ?_
    obtain ⟨peer, hpeer, rfl⟩ := h.bookkept.listed i hin d' hd' hdone
    refine (KeyedTable.lookup_eq_none_iff _).mp h.lookup peer hpeer ?_
    exact (h.bookkept.name_eq hpeer hd').trans (honward.name.trans hname)

/-- A log call leaves the messages of a retired sender alone. -/
theorem logMessage_held {i : Nat} {d : DBusLogSender} (h : DBusLogCore.Sound [] s.core)
    (hd : s.core.senderAt i = some d) (hretired : d.done = true ∨ i ∉ s.core.registered)
    (ctx : LogContext) (level : Level) (cname : Option String) (msg : DBusLogMessage)
    (hcategory : msg.category = 0) :
    ∃ d', (s.core.logMessage ctx level cname msg).2.senderAt i = some d' ∧ d'.held = d.held := by
  obtain hsame | ⟨_, hcall⟩ := DBusLogCore.logMessage_cases h ctx level cname hcategory
  · rw [hsame]
    exact ⟨d, hd, rfl⟩
  · rw [hcall.senders i]
    by_cases hin : i ∈ s.core.registered
    · have hdone := hretired.resolve_right (not_not.mpr hin)
      rw [if_pos hin]
      change ∃ d', (s.core.senderAt i).map _ = some d' ∧ _
      rw [hd]
      refine ⟨_, rfl, ?_⟩
      unfold DBusLogCore.handCall
      split
      · rw [DBusLogSender.sendFromWorker_of_done hdone]
      · rw [DBusLogSender.send_of_done (d := { d with answers := ctx.answers i }) hdone]
        rfl
    · rw [if_neg hin]
      exact ⟨d, hd, rfl⟩

theorem Retired.held {i : Nat} {op : SessionOp} (hretired : Retired s i) (h : Bookkept s)
    (hop : op.Logs) (hs : s.sessionStep lib klass handsOver op = some s') :
    ∃ d d', s.core.senderAt i = some d ∧ s'.core.senderAt i = some d' ∧ d'.held = d.held := by
  obtain ⟨d, hd, hquiet⟩ := hretired
  cases op with
  | log ctx level cname message =>
    cases hs
    obtain ⟨d', hd', hheld⟩ := logMessage_held h.sound hd hquiet ctx level cname
      (.new message) (by cases message <;> rfl)
    exact ⟨d, d', hd, hd', hheld⟩
  | logv ctx level cname formatted =>
    cases hs
    obtain ⟨d', hd', hheld⟩ := logMessage_held h.sound hd hquiet ctx level cname
      (.newVa formatted) (by cases formatted <;> rfl)
    exact ⟨d, d', hd, hd', hheld⟩
  | logOpen _ _ => cases hop
  | logClose _ _ _ => cases hop
  | vanished _ _ => cases hop
  | sender _ _ => cases hop

/-! ## The whole -/

/-- The tables agree on who takes messages for whom. -/
structure InOrder (s : DBusLogServer Policy β) : Prop where
  /-- A sender in the array that is not done has exactly one entry, under its own name. -/
  entry : ∀ i ∈ s.core.registered, ∃ d, s.core.senderAt i = some d ∧ (d.done = false →
    ∃ peer ∈ s.peers.values, peer.sender = i ∧ peer.name = d.name ∧
      ∀ other ∈ s.peers.values, other.sender = i → other = peer)
  /-- A bus name has at most one sender that still takes messages. -/
  single : ∀ i ∈ s.core.registered, ∀ j ∈ s.core.registered, ∀ d e,
    s.core.senderAt i = some d → s.core.senderAt j = some e →
      d.done = false → e.done = false → d.name = e.name → i = j
  /-- The keys of the table of signal ids are the senders in the array. -/
  ids : (s.core.senderSignalIds.values.map Prod.fst).Perm s.core.registered
  once : s.core.registered.Nodup

theorem Bookkept.inOrder (h : Bookkept s) : InOrder s := by
  have hentry : ∀ i ∈ s.core.registered, ∀ d, s.core.senderAt i = some d → d.done = false →
      ∃ peer ∈ s.peers.values, peer.sender = i ∧ peer.name = d.name := by
    intro i hi d hd hopen
    obtain ⟨peer, hpeer, rfl⟩ := h.listed i hi d hd hopen
    exact ⟨peer, hpeer, rfl, h.name_eq hpeer hd⟩
  refine ⟨fun i hi => ?_, fun i hi j hj d e hd he hopen hopen' hname => ?_, ?_, h.sound.nodup⟩
  · obtain ⟨d, hd⟩ := DBusLogCore.exists_senderAt (h.sound.known i hi)
    refine ⟨d, hd, fun hopen => ?_⟩
    obtain ⟨peer, hpeer, rfl, hname⟩ := hentry i hi d hd hopen
    refine ⟨peer, hpeer, rfl, hname, fun other hother hsender => ?_⟩
    refine KeyedTable.eq_of_key_eq hother hpeer ((h.name_eq hother ?_).trans hname.symm)
    rw [hsender]
    exact hd
  · obtain ⟨peer, hpeer, rfl, hpeername⟩ := hentry i hi d hd hopen
    obtain ⟨other, hother, rfl, hothername⟩ := hentry j hj e he hopen'
    exact congrArg _ (KeyedTable.eq_of_key_eq hpeer hother
      (hpeername.trans (hname.trans hothername.symm)))
  · refine (List.perm_ext_iff_of_nodup s.core.senderSignalIds.nodup h.sound.nodup).mpr fun i => ?_
    rw [h.connected.keys i, List.mem_map]
    constructor
    · rintro ⟨⟨j, id⟩, hmem, rfl⟩
      exact ⟨id, hmem⟩
    · rintro ⟨id, hmem⟩
      exact ⟨(i, id), hmem, rfl⟩

/-- Session bookkeeping. After any run of a fresh server the tables are in order; an operation of a
peer changes nothing of another peer; and once a peer has closed the log or vanished, whatever is
done later, no log call queues anything for a sender that the peer had. -/
theorem sessionBookkeeping (lib : Libraries Cred Policy) (klass : DBusLogServerClass β)
    (handsOver : Bool) (bus : DABus) (path : String) (policy : Policy) (backend : β)
    (ops : List SessionOp) (s : DBusLogServer Policy β)
    (hrun : Runs.run (sessionStep lib klass handsOver) (new bus path policy backend) ops =
      some s) :
    InOrder s ∧
    (∀ op name s', name ∈ op.peer? → s.sessionStep lib klass handsOver op = some s' →
      OthersKept name s s') ∧
    ∀ op name s₁ later s₂ call s₃, name ∈ op.ends? →
      s.sessionStep lib klass handsOver op = some s₁ →
      Runs.run (sessionStep lib klass handsOver) s₁ later = some s₂ → call.Logs →
      s₂.sessionStep lib klass handsOver call = some s₃ →
      ∀ i d, s.core.senderAt i = some d → d.name = name →
        ∃ d₂ d₃, s₂.core.senderAt i = some d₂ ∧ s₃.core.senderAt i = some d₃ ∧
          d₃.held = d₂.held := by
  have h := (run_bookkept (new_bookkept bus path policy backend) hrun).1
  refine ⟨h.inOrder, fun op name s' hname hs => (sessionStep_bookkept h hs).2.2 name hname, ?_⟩
  intro op name s₁ later s₂ call s₃ hname hs hlater hcall hs₃ i d hd hsender
  have hended : Ended name s s₁ := by
    cases op with
    | logClose ctx other cookie =>
      cases hs
      cases hname
      exact removePeer_ended h ctx _
    | vanished ctx other =>
      cases hs
      cases hname
      exact removePeer_ended h ctx _
    | _ => cases hname
  obtain ⟨hkept, honward⟩ := run_bookkept hended.bookkept hlater
  exact ((hended.retired hd hsender).onward honward).held hkept hcall hs₃

end Sessions

/-- Everybody is let in. -/
def anybody : Libraries Unit Unit where
  daPeerGet _ _ := some ()
  daPolicyCheck _ _ _ := true
  patternMatch pattern name := pattern = name
  ringSetMaxSize ring _ := ring

/-- A back end without watches and without a bus. -/
def noBus : DBusLogServerClass Unit where
  watchName _ _ := (0, ())
  unwatchName _ _ := ()
  exportServer _ := (true, ())
  unexportServer _ := ()
  emitDefaultLevelChanged _ _ := []
  emitCategoryLevelChanged _ _ _ := []
  emitCategoryAdded _ _ _ _ := []
  emitCategoryRemoved _ _ := []
  emitCategoryFlagsChanged _ _ _ := []
  emitBacklogChanged _ _ := []

/-- Two peers open the log, the first one twice; a message is logged while the channels take
nothing, and the second peer vanishes. -/
def twoPeers : List SessionOp :=
  [.logOpen ⟨some (3, 4), fun _ => []⟩ ":1.1", .logOpen ⟨some (5, 6), fun _ => []⟩ ":1.2",
    .logOpen ⟨some (7, 8), fun _ => []⟩ ":1.1",
    .log ⟨false, 1, fun _ => []⟩ Level.info none (some [65]),
    .vanished ⟨none, fun _ => []⟩ ":1.2"]

theorem sessionBookkeeping_twoPeers :
    ∃ s, Runs.run (sessionStep anybody noBus true) (new .system "/logger" () ()) twoPeers =
        some s ∧ s.core.registered ≠ [] ∧ InOrder s := by
  obtain ⟨s, hs, hregistered⟩ := Option.map_eq_some_iff.mp (by decide +kernel :
    (Runs.run (sessionStep anybody noBus true) (new .system "/logger" () ()) twoPeers).map
      (fun s => s.core.registered) = some [0, 1, 2])
  refine ⟨s, hs, ?_, (sessionBookkeeping anybody noBus true .system "/logger" () () twoPeers s
    hs).1⟩
  rw [hregistered]
  exact List.cons_ne_nil _ _

end DBusLogServer

end DBusLog

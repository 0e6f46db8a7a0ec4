import DBusLog.Core.Settings
import DBusLog.Server.Perform

/-!
# Agreement of the back ends

Two servers that agree on the tables, the peers and the policy answer a call alike and agree again,
whatever their back ends are. `Twin` runs a libdbus server and a GIO server side by side.
-/

namespace DBusLog

namespace DBusLogServer

variable {Cred Policy β γ : Type}

/-- What a method call cannot change. -/
structure Kept (P : β → Prop) (s s' : DBusLogServer Policy β) : Prop where
  started : s'.started = s.started
  bus : s'.bus = s.bus
  policy : s'.policy = s.policy
  backend : P s.backend → P s'.backend

theorem Kept.refl (P : β → Prop) (s : DBusLogServer Policy β) : Kept P s s := ⟨rfl, rfl, rfl, id⟩

theorem Kept.trans {P : β → Prop} {s s' s'' : DBusLogServer Policy β} (h : Kept P s s')
    (h' : Kept P s' s'') : Kept P s s'' where
  started := h'.started.trans h.started
  bus := h'.bus.trans h.bus
  policy := h'.policy.trans h.policy
  backend := h'.backend ∘ h.backend

/-- What the D-Bus interface shows of two servers is the same. -/
structure Agree (s : DBusLogServer Policy β) (t : DBusLogServer Policy γ) : Prop where
  core : s.core.settings = t.core.settings
  peers : ∀ name, (s.peers.lookup name).isSome = (t.peers.lookup name).isSome
  bus : s.bus = t.bus
  policy : s.policy = t.policy

/-! ## Frames -/

section Frames

variable (klass : DBusLogServerClass β) (s : DBusLogServer Policy β)

theorem coreSignal_frame (signal : CoreSignal) : ∃ notified sent,
    coreSignal klass s signal = { s with notified := notified, sent := sent } := by
  by_cases hstarted : s.started
  · cases signal with
    | categoryFlags cat mask =>
      simp only [coreSignal]
      by_cases hmask : mask &&& CategoryFlag.enabled ≠ 0
      · simp only [if_pos hmask, if_pos hstarted]
        exact ⟨_, _, rfl⟩
      · simp only [if_neg hmask, if_pos hstarted]
        exact ⟨_, _, rfl⟩
    | _ => exact ⟨_, _, if_pos hstarted⟩
  · cases signal with
    | categoryFlags cat mask =>
      simp only [coreSignal]
      by_cases hmask : mask &&& CategoryFlag.enabled ≠ 0
      · simp only [if_pos hmask, if_neg hstarted]
        exact ⟨_, _, rfl⟩
      · simp only [if_neg hmask, if_neg hstarted]
        exact ⟨_, _, rfl⟩
    | _ => exact ⟨_, _, if_neg hstarted⟩

/-- A call into the core changes the core and what has been emitted. -/
theorem coreChanged_frame (core : DBusLogCore) : ∃ notified sent,
    s.coreChanged klass core = { s with core := core, notified := notified, sent := sent } := by
  unfold coreChanged
  generalize core.signals.drop s.core.signals.length = signals
  generalize ht : { s with core := core } = t
  have hfold : ∃ notified sent, signals.foldl (coreSignal klass) t =
      { t with notified := notified, sent := sent } := by
    clear ht
    induction signals generalizing t with
    | nil => exact ⟨_, _, rfl⟩
    | cons signal signals ih =>
      rw [List.foldl_cons]
      obtain ⟨notified, sent, he⟩ := coreSignal_frame klass t signal
      rw [he]
      exact ih _
  obtain ⟨notified, sent, he⟩ := hfold
  refine ⟨notified, sent, ?_⟩
  rw [he, ← ht]

/-- The core has become what an operation on it has made of it. -/
theorem coreChanged_core (core : DBusLogCore) : (s.coreChanged klass core).core = core := by
  obtain ⟨notified, sent, he⟩ := coreChanged_frame klass s core
  rw [he]

theorem start_core : (s.start klass).core = s.core := by
  unfold start
  split
  · rfl
  · rfl

theorem stop_core : (s.stop klass).core = s.core := by
  unfold stop
  split
  · split
    · rfl
    · rfl
  · rfl

/-- A call that leaves the core as it was. -/
theorem coreChanged_self : s.coreChanged klass s.core = s := by
  unfold coreChanged
  rw [List.drop_length]
  rfl

variable {klass s}

theorem Kept.coreChanged (P : β → Prop) (core : DBusLogCore) :
    Kept P s (s.coreChanged klass core) := by
  obtain ⟨notified, sent, he⟩ := coreChanged_frame klass s core
  rw [he]
  exact ⟨rfl, rfl, rfl, id⟩

end Frames

/-! ## Peers -/

section Peers

variable {klass : DBusLogServerClass β} {klass' : DBusLogServerClass γ} {ctx ctx' : ServerContext}
  {s : DBusLogServer Policy β} {t : DBusLogServer Policy γ}

theorem Kept.peerDestroy {P : β → Prop} (hunwatch : ∀ b id, P b → P (klass.unwatchName b id))
    (peer : DBusLogServerPeer) : Kept P s (peerDestroy klass ctx s peer) :=
  ⟨rfl, rfl, rfl, hunwatch _ _⟩

theorem Kept.removePeer {P : β → Prop} (hunwatch : ∀ b id, P b → P (klass.unwatchName b id))
    (name : String) : Kept P s (removePeer klass ctx s name) := by
  unfold DBusLogServer.removePeer
  split
  · exact ⟨rfl, rfl, rfl, hunwatch _ _⟩
  · exact Kept.refl P s

theorem Kept.replacePeer {P : β → Prop} (hunwatch : ∀ b id, P b → P (klass.unwatchName b id))
    (peer : DBusLogServerPeer) : Kept P s (replacePeer klass ctx s peer) := by
  unfold DBusLogServer.replacePeer
  split
  · exact ⟨rfl, rfl, rfl, hunwatch _ _⟩
  · exact ⟨rfl, rfl, rfl, id⟩

/-- The core of a server after the peer has been destroyed. -/
theorem peerDestroy_settings (peer : DBusLogServerPeer) :
    (peerDestroy klass ctx s peer).core.settings = s.core.settings :=
  (DBusLogCore.runSender_settings s.core peer.sender _).1

theorem removePeer_frame (klass : DBusLogServerClass β) (ctx : ServerContext)
    (s : DBusLogServer Policy β) (name : String) :
    (removePeer klass ctx s name).core.settings = s.core.settings ∧
      ∀ other, ((removePeer klass ctx s name).peers.lookup other).isSome =
        if other = name then false else (s.peers.lookup other).isSome := by
  unfold removePeer
  cases hpeer : s.peers.lookup name with
  | none =>
    refine ⟨rfl, fun other => ?_⟩
    by_cases hother : other = name
    · rw [if_pos hother, hother, hpeer]
      rfl
    · rw [if_neg hother]
  | some peer =>
    refine ⟨peerDestroy_settings peer, fun other => ?_⟩
    change ((s.peers.erase name).lookup other).isSome = _
    by_cases hother : other = name
    · rw [if_pos hother, hother, KeyedTable.lookup_erase]
      rfl
    · rw [if_neg hother, KeyedTable.lookup_erase_ne _ hother]

theorem replacePeer_frame (klass : DBusLogServerClass β) (ctx : ServerContext)
    (s : DBusLogServer Policy β) (peer : DBusLogServerPeer) :
    (replacePeer klass ctx s peer).core.settings = s.core.settings ∧
      ∀ other, ((replacePeer klass ctx s peer).peers.lookup other).isSome =
        if other = peer.name then true else (s.peers.lookup other).isSome := by
  have hpeers : (replacePeer klass ctx s peer).peers = s.peers.insert peer := by
    unfold replacePeer
    split
    · rfl
    · rfl
  refine ⟨?_, fun other => ?_⟩
  · unfold replacePeer
    split
    · exact peerDestroy_settings _
    · rfl
  · rw [hpeers]
    by_cases hother : other = peer.name
    · rw [if_pos hother, hother, KeyedTable.lookup_insert]
      rfl
    · rw [if_neg hother, KeyedTable.lookup_insert_ne _ hother]

/-- Taking the descriptor from a sender shows nowhere. -/
theorem stealReadfd_frame (s : DBusLogServer Policy β) (name : String) (fd : Int) :
    ∃ core, (s.stealReadfd name fd).2 = { s with core := core } ∧
      core.settings = s.core.settings := by
  unfold DBusLogServer.stealReadfd
  generalize (if fd ≥ 0 then s.peers.lookup name else none) = found
  cases found with
  | none => exact ⟨s.core, rfl, rfl⟩
  | some peer =>
    dsimp only
    split
    · exact ⟨_, rfl, (DBusLogCore.runSender_settings s.core peer.sender _).1⟩
    · exact ⟨s.core, rfl, rfl⟩

theorem Agree.removePeer (h : Agree s t) (name : String) :
    Agree (removePeer klass ctx s name) (DBusLogServer.removePeer klass' ctx' t name) := by
  obtain ⟨hcore, hpeers⟩ := removePeer_frame klass ctx s name
  obtain ⟨hcore', hpeers'⟩ := removePeer_frame klass' ctx' t name
  have hs : Kept (fun _ => True) s (DBusLogServer.removePeer klass ctx s name) :=
    Kept.removePeer (fun _ _ _ => trivial) name
  have ht : Kept (fun _ => True) t (DBusLogServer.removePeer klass' ctx' t name) :=
    Kept.removePeer (fun _ _ _ => trivial) name
  refine ⟨?_, fun other => ?_, ?_, ?_⟩
  · rw [hcore, hcore', h.core]
  · rw [hpeers, hpeers', h.peers]
  · rw [hs.bus, ht.bus, h.bus]
  · rw [hs.policy, ht.policy, h.policy]

theorem Agree.replacePeer (h : Agree s t) {peer peer' : DBusLogServerPeer}
    (hname : peer.name = peer'.name) :
    Agree (replacePeer klass ctx s peer) (DBusLogServer.replacePeer klass' ctx' t peer') := by
  obtain ⟨hcore, hpeers⟩ := replacePeer_frame klass ctx s peer
  obtain ⟨hcore', hpeers'⟩ := replacePeer_frame klass' ctx' t peer'
  have hs : Kept (fun _ => True) s (DBusLogServer.replacePeer klass ctx s peer) :=
    Kept.replacePeer (fun _ _ _ => trivial) peer
  have ht : Kept (fun _ => True) t (DBusLogServer.replacePeer klass' ctx' t peer') :=
    Kept.replacePeer (fun _ _ _ => trivial) peer'
  refine ⟨?_, fun other => ?_, ?_, ?_⟩
  · rw [hcore, hcore', h.core]
  · rw [hpeers, hpeers', h.peers, hname]
  · rw [hs.bus, ht.bus, h.bus]
  · rw [hs.policy, ht.policy, h.policy]

end Peers

/-! ## Calls -/

section Calls

variable {lib : Libraries Cred Policy} {klass : DBusLogServerClass β}
  {klass' : DBusLogServerClass γ} {ctx ctx' : ServerContext} {s : DBusLogServer Policy β}
  {t : DBusLogServer Policy γ}

theorem Agree.accessAllowed (h : Agree s t) (lib : Libraries Cred Policy) (sender : String) 
    (action : DBusLogAction) : s.accessAllowed lib sender action = t.accessAllowed lib sender action := by
  unfold DBusLogServer.accessAllowed
  rw [h.bus, h.policy]

/-- The same operation on both cores. -/
theorem Agree.coreChanged (h : Agree s t) {c d e : DBusLogCore}
    (hc : DBusLogCore.Follows s.core c e) (hd : DBusLogCore.Follows t.core d e) :
    Agree (s.coreChanged klass c) (t.coreChanged klass' d) := by
  obtain ⟨_, _, hs⟩ := coreChanged_frame klass s c
  obtain ⟨_, _, ht⟩ := coreChanged_frame klass' t d
  rw [hs, ht]
  exact ⟨hc.settings.trans hd.settings.symm, h.peers, h.bus, h.policy⟩

theorem Agree.setEach (h : Agree s t) (names : List String) (enable : Bool) :
    Agree (s.setEach klass names enable) (t.setEach klass' names enable) := by
  unfold DBusLogServer.setEach
  induction names generalizing s t with
  | nil => exact h
  | cons name names ih =>
    have ht := DBusLogCore.setCategoryEnabled_follows t.core name enable
    rw [← h.core] at ht
    exact ih (h.coreChanged (DBusLogCore.setCategoryEnabled_follows s.core name enable) ht)

/-- Two helpers have returned the same code and left servers that agree. -/
def SameResult (r : Int × DBusLogServer Policy β) (r' : Int × DBusLogServer Policy γ) : Prop :=
  r.1 = r'.1 ∧ Agree r.2 r'.2

theorem Agree.callSetDefaultLevel (h : Agree s t) (sender : String) (level : Level) :
    SameResult (s.callSetDefaultLevel lib klass sender level)
      (t.callSetDefaultLevel lib klass' sender level) := by
  obtain ⟨hresult, hs⟩ := DBusLogCore.setDefaultLevel_follows s.core level
  obtain ⟨hresult', ht⟩ := DBusLogCore.setDefaultLevel_follows t.core level
  rw [← h.core] at hresult' ht
  rw [← hresult'] at hresult
  unfold DBusLogServer.callSetDefaultLevel
  rw [h.accessAllowed]
  split
  · exact ⟨rfl, h⟩
  · have hchanged : Agree (s.coreChanged klass (s.core.setDefaultLevel level).2)
        (t.coreChanged klass' (t.core.setDefaultLevel level).2) := h.coreChanged hs ht
    cases hc : s.core.setDefaultLevel level with
    | mk accepted core =>
      cases hd : t.core.setDefaultLevel level with
      | mk accepted' core' =>
        rw [hc, hd] at hresult hchanged
        cases hresult
        cases accepted with
        | false => exact ⟨rfl, hchanged⟩
        | true => exact ⟨rfl, hchanged⟩

theorem Agree.callSetCategoryLevel (h : Agree s t) (sender name : String) (level : Level) :
    SameResult (s.callSetCategoryLevel lib klass sender name level)
      (t.callSetCategoryLevel lib klass' sender name level) := by
  have ht := DBusLogCore.setCategoryLevel_follows t.core name level
  rw [← h.core] at ht
  unfold DBusLogServer.callSetCategoryLevel
  rw [h.accessAllowed]
  split
  · exact ⟨rfl, h⟩
  · exact ⟨rfl, h.coreChanged (DBusLogCore.setCategoryLevel_follows s.core name level) ht⟩

theorem Agree.callSetNamesEnabled (h : Agree s t) (sender : String) (names : List String)
    (enable : Bool) : SameResult (s.callSetNamesEnabled lib klass sender names enable)
      (t.callSetNamesEnabled lib klass' sender names enable) := by
  unfold DBusLogServer.callSetNamesEnabled
  rw [h.accessAllowed]
  split
  · exact ⟨rfl, h⟩
  · exact ⟨rfl, h.setEach names enable⟩

theorem Agree.callSetPatternEnabled (h : Agree s t) (sender : String) (pattern : Option String)
    (enable : Bool) : SameResult (s.callSetPatternEnabled lib klass sender pattern enable)
      (t.callSetPatternEnabled lib klass' sender pattern enable) := by
  unfold DBusLogServer.callSetPatternEnabled
  rw [h.accessAllowed, DBusLogCore.findCategories_settings, h.core,
    ← DBusLogCore.findCategories_settings]
  split
  · exact ⟨rfl, h⟩
  · exact ⟨rfl, h.setEach _ enable⟩

theorem Agree.callSetBacklog (h : Agree s t) (sender : String) (backlog : Int32) :
    SameResult (s.callSetBacklog lib klass sender backlog)
      (t.callSetBacklog lib klass' sender backlog) := by
  have ht := DBusLogCore.setBacklog_follows lib.ringSetMaxSize t.core backlog
  rw [← h.core] at ht
  unfold DBusLogServer.callSetBacklog
  rw [h.accessAllowed]
  split
  · exact ⟨rfl, h⟩
  · exact ⟨rfl, h.coreChanged (DBusLogCore.setBacklog_follows lib.ringSetMaxSize s.core backlog) ht⟩

/-- A peer that is let in and gets a pipe is a peer from now on. -/
theorem callLogOpen_opened (klass : DBusLogServerClass β) {sender : String}
    (hallowed : s.accessAllowed lib sender .logOpen = true) {readfd writefd : Nat}
    (hpipe : ctx.pipe = some (readfd, writefd)) :
    ∃ core backend watchId i, core.settings = s.core.settings ∧
      s.callLogOpen lib klass ctx sender = ((readfd : Int),
        replacePeer klass ctx { s with core := core, backend := backend } ⟨sender, watchId, i⟩) ∧
      backend = (klass.watchName s.backend sender).2 := by
  have hsettings := (DBusLogCore.newSender_settings s.core sender (some (readfd, writefd))).1
  have hsender := DBusLogCore.newSender_senderAt s.core sender readfd writefd
  refine ⟨_, _, (klass.watchName s.backend sender).1, s.core.objects.length, hsettings, ?_, rfl⟩
  have hfd : DBusLogServer.readfd (s.core.newSender sender (some (readfd, writefd))).2
      s.core.objects.length = readfd := by
    unfold DBusLogServer.readfd
    rw [hsender]
    rfl
  unfold DBusLogServer.callLogOpen
  rw [if_neg (not_not.mpr hallowed), hpipe, ← hfd]
  rfl

theorem callLogOpen_failed {sender : String}
    (hallowed : s.accessAllowed lib sender .logOpen = true) (hpipe : ctx.pipe = none) :
    s.callLogOpen lib klass ctx sender = (-eio, s) := by
  unfold DBusLogServer.callLogOpen
  rw [if_neg (not_not.mpr hallowed), hpipe]
  rfl

/-- A peer opens the log on both servers, if their pipes can be made, or on neither. -/
theorem Agree.callLogOpen (h : Agree s t) (hpipe : ctx.pipe.isSome = ctx'.pipe.isSome)
    (sender : String) :
    ((finishOpen (s.callLogOpen lib klass ctx sender)).1.outcome =
      (finishOpen (t.callLogOpen lib klass' ctx' sender)).1.outcome) ∧
    Agree (s.callLogOpen lib klass ctx sender).2 (t.callLogOpen lib klass' ctx' sender).2 := by
  cases hallowed : s.accessAllowed lib sender .logOpen with
  | false =>
    have hallowed' := (h.accessAllowed lib sender .logOpen).symm.trans hallowed
    rw [callLogOpen_checked.denied hallowed, callLogOpen_checked.denied hallowed']
    exact ⟨rfl, h⟩
  | true =>
    have hallowed' := (h.accessAllowed lib sender .logOpen).symm.trans hallowed
    cases hp : ctx.pipe with
    | none =>
      cases hp' : ctx'.pipe with
      | none =>
        rw [callLogOpen_failed hallowed hp, callLogOpen_failed hallowed' hp']
        exact ⟨rfl, h⟩
      | some fds' =>
        rw [hp, hp'] at hpipe
        cases hpipe
    | some fds =>
      cases hp' : ctx'.pipe with
      | none =>
        rw [hp, hp'] at hpipe
        cases hpipe
      | some fds' =>
        -- the descriptors and the watches may differ
        obtain ⟨core, backend, watchId, i, hcore, he, _⟩ :=
          callLogOpen_opened klass hallowed hp
        obtain ⟨core', backend', watchId', i', hcore', he', _⟩ :=
          callLogOpen_opened klass' hallowed' hp'
        rw [he, he']
        have hagree : Agree { s with core := core, backend := backend }
            { t with core := core', backend := backend' } :=
          ⟨hcore.trans (h.core.trans hcore'.symm), h.peers, h.bus, h.policy⟩
        refine ⟨?_, hagree.replacePeer rfl⟩
        unfold finishOpen
        rw [if_neg (by omega), if_neg (by omega)]
        rfl

/-- A method of the interface does the same to both servers, and they reply alike. -/
theorem Agree.perform (h : Agree s t) (hpipe : ctx.pipe.isSome = ctx'.pipe.isSome)
    (sender : String) (call : LoggerCall) :
    ((perform lib klass ctx s sender call).1.outcome =
      (DBusLogServer.perform lib klass' ctx' t sender call).1.outcome) ∧
    Agree (perform lib klass ctx s sender call).2
      (DBusLogServer.perform lib klass' ctx' t sender call).2 := by
  have hfinish : ∀ {r : Int × DBusLogServer Policy β} {r' : Int × DBusLogServer Policy γ},
      SameResult r r' → (finish r).1.outcome = (finish r').1.outcome ∧
        Agree (finish r).2 (finish r').2 := by
    intro r r' hr
    unfold finish
    rw [hr.1]
    exact ⟨rfl, hr.2⟩
  have hcategories : s.core.categoryEntries = t.core.categoryEntries := by
    have he := congrArg DBusLogCore.categoryEntries h.core
    exact he
  cases call with
  | getInterfaceVersion => exact ⟨rfl, h⟩
  | getAll =>
    refine ⟨?_, h⟩
    simp only [DBusLogServer.perform, hcategories, DBusLogCore.settings_defaultLevel h.core]
  | getAll2 =>
    refine ⟨?_, h⟩
    simp only [DBusLogServer.perform, hcategories, DBusLogCore.settings_defaultLevel h.core,
      DBusLogCore.settings_backlog h.core]
  | setDefaultLevel level => exact hfinish (h.callSetDefaultLevel sender _)
  | setCategoryLevel name level => exact hfinish (h.callSetCategoryLevel sender name _)
  | logOpen => exact h.callLogOpen hpipe sender
  | logClose cookie => exact ⟨rfl, h.removePeer sender⟩
  | categoryEnable names => exact hfinish (h.callSetNamesEnabled sender names true)
  | categoryEnablePattern pattern => exact hfinish (h.callSetPatternEnabled sender _ true)
  | categoryDisable names => exact hfinish (h.callSetNamesEnabled sender names false)
  | categoryDisablePattern pattern => exact hfinish (h.callSetPatternEnabled sender _ false)
  | setBacklog backlog => exact hfinish (h.callSetBacklog sender backlog)

end Calls

end DBusLogServer

end DBusLog

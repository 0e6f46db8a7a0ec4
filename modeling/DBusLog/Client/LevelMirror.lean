import DBusLog.Client.Holdings
import DBusLog.Client.Mirror
import DBusLog.Server.Announcements

/-!
# The mirror of the levels and the backlog

A client takes the levels and the backlog from the snapshot. The server announces each change of
them, but the client has no handlers for these signals, and nothing in it emits its own signal about
the backlog. So it goes on showing what the snapshot has said, and a category of which it hears later
has no level. Whether this is what the server shows depends on what the server has done meanwhile.
-/

namespace DBusLog

namespace DBusLogClient

/-- The level of the category that the client has under the id. -/
def levelAt (c : DBusLogClient) (id : UInt32) : Option Level :=
  (c.table.lookup id).bind fun e => (c.memory[e.2]?).map (·.level)

/-- How many times the client has emitted its signal about the backlog. -/
def backlogChanges (c : DBusLogClient) : Nat := c.emitted.count .backlogChanged

/-- The default level, the backlog and the number of signals about it are the same. -/
structure SameScalars (c c' : DBusLogClient) : Prop where
  defaultLevel : c'.defaultLevel = c.defaultLevel
  backlog : c'.backlog = c.backlog
  backlogChanges : c'.backlogChanges = c.backlogChanges

/-- The client shows the levels and the backlog of `c₀`. -/
structure Shows (c₀ : DBusLogCore) (c : DBusLogClient) : Prop where
  defaultLevel : c.defaultLevel = c₀.defaultLevel
  backlog : c.backlog = c₀.backlog
  levels : Holds (fun id cat => cat.level = c₀.levelOf id) c

section Scalars

variable {c c' c'' : DBusLogClient}

theorem SameScalars.refl (c : DBusLogClient) : SameScalars c c := ⟨rfl, rfl, rfl⟩

theorem SameScalars.trans (h : SameScalars c c') (h' : SameScalars c' c'') : SameScalars c c'' where
  defaultLevel := h'.defaultLevel.trans h.defaultLevel
  backlog := h'.backlog.trans h.backlog
  backlogChanges := h'.backlogChanges.trans h.backlogChanges

/-- One more signal, which is about something else. -/
theorem SameScalars.emitted {signal : ClientSignal} (h : SameScalars c c')
    (hlevel : c''.defaultLevel = c'.defaultLevel) (hbacklog : c''.backlog = c'.backlog)
    (hemitted : c''.emitted = c'.emitted ++ [signal]) (hsignal : signal ≠ .backlogChanged) :
    SameScalars c c'' := by
  refine h.trans ⟨hlevel, hbacklog, ?_⟩
  have hcount : [signal].count .backlogChanged = 0 :=
    List.count_eq_zero.mpr fun hmem => hsignal (List.mem_singleton.mp hmem).symm
  unfold DBusLogClient.backlogChanges
  rw [hemitted, List.count_append, hcount, Nat.add_zero]

theorem categoryRemove_scalars (c : DBusLogClient) (id : UInt32) :
    SameScalars c (c.categoryRemove id).2 := by
  unfold categoryRemove
  split
  · exact (SameScalars.refl c).emitted rfl rfl rfl fun he => (nomatch he)
  · exact SameScalars.refl c

theorem categoryAdded_scalars (c : DBusLogClient) (name : String) (id flags : UInt32) :
    SameScalars c (c.categoryAdded name id flags) := by
  have hgrown : SameScalars c { c with memory := c.memory ++ [DBusLogCategory.new name id] } :=
    ⟨rfl, rfl, rfl⟩
  have hremoved := hgrown.trans (categoryRemove_scalars _ id)
  unfold categoryAdded
  dsimp only
  generalize findAdded _ _ 0 = found
  obtain ⟨index, overread⟩ := found
  exact hremoved.emitted rfl rfl rfl fun he => (nomatch he)

theorem categoryFlagsChanged_scalars (c : DBusLogClient) (id flags : UInt32) :
    SameScalars c (c.categoryFlagsChanged id flags) := by
  unfold categoryFlagsChanged
  split
  · exact (SameScalars.refl c).emitted rfl rfl rfl fun he => (nomatch he)
  · exact SameScalars.refl c

/-- No signal of the server changes them. -/
theorem handle_scalars (c : DBusLogClient) (signal : BusSignal) :
    SameScalars c (c.handle signal) := by
  unfold handle
  split
  · cases signal with
    | categoryAdded name id flags => exact categoryAdded_scalars c name id flags
    | categoryRemoved id => exact categoryRemove_scalars c id
    | categoryFlagsChanged id flags => exact categoryFlagsChanged_scalars c id flags
    | _ => exact SameScalars.refl c
  · exact SameScalars.refl c

theorem initFree_scalars (c : DBusLogClient)
    (table : KeyedTable (Prod.fst : UInt32 × Nat → UInt32)) : SameScalars c (c.initFree table) := by
  unfold initFree becomeConnected
  dsimp only
  split
  · exact (SameScalars.refl c).emitted rfl rfl rfl fun he => (nomatch he)
  · exact ⟨rfl, rfl, rfl⟩

end Scalars

/-! ## What the client shows -/

section Shows

variable {c₀ : DBusLogCore} {c : DBusLogClient} {names₀ names names' : List String}

theorem levels_ignoreFlags (c₀ : DBusLogCore) :
    IgnoresFlags fun id cat => cat.level = c₀.levelOf id := fun _ _ _ h => h

/-- A category that has been announced later has no level, neither for the client nor in `c₀`. -/
theorem adds_of_issued (h₀ : c₀.Chronicled names₀) (hle : names₀ <+: names) {signal : BusSignal}
    (hissued : signal.Issued names names') :
    signal.Adds fun id cat => cat.level = c₀.levelOf id := by
  cases signal with
  | categoryAdded name id flags =>
    refine (DBusLogCore.levelOf_of_fresh fun cat hcat heq => ?_).symm
    have hold : cat.id.toNat ≤ names₀.length := toNat_le_of_nameOf (h₀.named cat hcat)
    have hlength := hle.length_le
    have hnew : names.length < id.toNat := hissued.1
    rw [heq] at hold
    omega
  | _ => trivial

theorem Shows.handleAll (h : Shows c₀ c) (h₀ : c₀.Chronicled names₀) {signals : List BusSignal}
    (hissued : ∀ signal ∈ signals, signal.Issued names₀ names') :
    Shows c₀ (signals.foldl handle c) ∧ SameScalars c (signals.foldl handle c) := by
  induction signals generalizing c with
  | nil => exact ⟨h, SameScalars.refl c⟩
  | cons signal signals ih =>
    have hscalars := handle_scalars c signal
    have hlevels : Shows c₀ (c.handle signal) :=
      ⟨hscalars.defaultLevel.trans h.defaultLevel, hscalars.backlog.trans h.backlog,
        h.levels.evolves (levels_ignoreFlags c₀) (handle_evolves (levels_ignoreFlags c₀) c
          (adds_of_issued h₀ List.prefix_rfl (hissued signal List.mem_cons_self)))⟩
    obtain ⟨hshows, hrest⟩ := ih hlevels fun other hother =>
      hissued other (List.mem_cons_of_mem signal hother)
    exact ⟨hshows, hscalars.trans hrest⟩

/-- The client shows what the snapshot says. -/
theorem getAll2_shows {n : Nat} (h₀ : c₀.Catalogue n) (c : DBusLogClient) (version : Int32) :
    Shows c₀ (c.getAllFinished (.methodReturn [.int32 version, .int32 c₀.defaultLevel.toInt32,
      .categories c₀.categoryEntries, .int32 c₀.backlog])) ∧
      (c.getAllFinished (.methodReturn [.int32 version, .int32 c₀.defaultLevel.toInt32,
        .categories c₀.categoryEntries, .int32 c₀.backlog])).backlogChanges = c.backlogChanges := by
  have hlists : (Reply.methodReturn [.int32 version, .int32 c₀.defaultLevel.toInt32,
      .categories c₀.categoryEntries, .int32 c₀.backlog]).Lists
        fun id cat => cat.level = c₀.levelOf id := by
    intro entries hmem entry hentry
    have hsame : entries = c₀.categoryEntries := by simpa using hmem
    rw [hsame] at hentry
    obtain ⟨cat, hcat, rfl⟩ := List.mem_map.mp hentry
    have hvalue : cat ∈ c₀.categories.values := (List.mem_insertionSort _).mp hcat
    change cat.level.toInt32.toUInt32 = c₀.levelOf cat.id
    rw [DBusLogCore.levelOf_of_mem h₀.distinct hvalue]
    rfl
  have hscalars := initFree_scalars { c with
    memory := (decodeCategories c₀.categoryEntries (c.memory, .empty)).1
    defaultLevel := c₀.defaultLevel.toInt32.toUInt32
    backlog := c₀.backlog } (decodeCategories c₀.categoryEntries (c.memory, .empty)).2
  refine ⟨⟨hscalars.defaultLevel, hscalars.backlog, ?_⟩, hscalars.backlogChanges⟩
  have hevolves := getAllFinished_evolves (levels_ignoreFlags c₀) { c with table := .empty } hlists
  exact Holds.evolves (c := { c with table := .empty }) (levels_ignoreFlags c₀)
    (fun _ he => (nomatch he)) hevolves

end Shows

end DBusLogClient

/-! ## Runs -/

/-- What happens next. -/
inductive SettingEvent
  | operate (op : SettingOp)
  | process
  deriving DecidableEq

/-- The operations among the events. -/
def SettingEvent.operations (events : List SettingEvent) : List SettingOp :=
  events.filterMap fun
    | .operate op => some op
    | .process => none

namespace Link

variable {Cred Policy β : Type}

/-- The client when it will have processed all that is on its way. -/
def flushed (l : Link Policy β) : DBusLogClient := l.wire.foldl DBusLogClient.process l.client

section Events

variable (lib : Libraries Cred Policy) (klass : DBusLogServerClass β)

/-- One event. -/
def settingStep (l : Link Policy β) : SettingEvent → Link Policy β
  | .operate op => l.advance (l.server.adjust lib klass op)
  | .process => l.step lib klass .process

/-- One event after another. -/
def settingRun (l : Link Policy β) (events : List SettingEvent) : Link Policy β :=
  events.foldl (settingStep lib klass) l

/-- The client, which was `client` when it was told what the server was like, `c₀`, shows what the
server shows, and it has emitted its signal as many times as the backlog has changed since. -/
structure Settled (c₀ : DBusLogCore) (client : DBusLogClient) (l : Link Policy β) : Prop where
  defaultLevel : l.client.defaultLevel = l.server.core.defaultLevel
  backlog : l.client.backlog = l.server.core.backlog
  levels : ∀ id level, l.client.levelAt id = some level → l.server.core.levelAt id = some level
  backlogChanges : l.client.backlogChanges + c₀.backlogChanges =
    client.backlogChanges + l.server.core.backlogChanges

/-- The server goes through the operations of `before` and answers GetAll2. In every state of every
run that follows, with the first ones of the operations `ops`, in which the client has processed all
messages, it shows what the server shows. -/
def MirrorsLevels (deliver : DBusLogServer Policy β → LoggerCall →
    Option (Reply × DBusLogServer Policy β)) (server : DBusLogServer Policy β)
    (client : DBusLogClient) (before : List SettingEvent) (ops : List SettingOp) : Prop :=
  let l := answer deliver (settingRun lib klass (start server client) before) .getAll2
  ∀ after, SettingEvent.operations after <+: ops → (settingRun lib klass l after).wire = [] →
    Settled l.server.core client (settingRun lib klass l after)

/-- Each of the operations `ops` keeps the levels and the backlog that are set when it comes. -/
def KeepsAll (server : DBusLogServer Policy β) (before : List SettingEvent)
    (ops : List SettingOp) : Prop :=
  let snapshot := server.adjustAll lib klass (SettingEvent.operations before)
  ∀ first op rest, first ++ op :: rest = ops →
    (snapshot.adjustAll lib klass first).KeepsSettings lib op

variable {lib klass} {l : Link Policy β}

theorem settingRun_append (events events' : List SettingEvent) :
    settingRun lib klass l (events ++ events') =
      settingRun lib klass (settingRun lib klass l events) events' := List.foldl_append

/-- To process a message does not change what the client will be. -/
theorem process_flushed (lib : Libraries Cred Policy) (klass : DBusLogServerClass β)
    (l : Link Policy β) : (l.step lib klass .process).server = l.server ∧
    (l.step lib klass .process).flushed = l.flushed := by
  unfold step flushed
  dsimp only
  cases hwire : l.wire with
  | nil => exact ⟨rfl, congrArg (List.foldl DBusLogClient.process l.client) hwire⟩
  | cons message wire => exact ⟨rfl, rfl⟩

theorem advance_flushed {server : DBusLogServer Policy β} {sent : List BusSignal}
    (hsent : server.sent = l.server.sent ++ sent) :
    (l.advance server).flushed = sent.foldl DBusLogClient.handle l.flushed := by
  unfold advance flushed
  dsimp only
  rw [hsent, List.drop_left, List.foldl_append, process_signals]

/-- Run lemma: what the server has sent is on its way to the client or has been processed. -/
theorem settingRun_recorded {names : List String} (hrelays : DBusLogServer.Relays klass)
    (h : l.server.core.Chronicled names) (events : List SettingEvent)
    (hroom : names.length + l.server.issued lib klass (SettingEvent.operations events) < 2 ^ 32) :
    (settingRun lib klass l events).server =
        l.server.adjustAll lib klass (SettingEvent.operations events) ∧
      ∃ names' sent, names'.length = names.length +
          l.server.issued lib klass (SettingEvent.operations events) ∧
        names <+: names' ∧ (settingRun lib klass l events).server.core.Chronicled names' ∧
        (settingRun lib klass l events).server.sent = l.server.sent ++ sent ∧
        (∀ signal ∈ sent, signal.Issued names names') ∧
        (settingRun lib klass l events).flushed = sent.foldl DBusLogClient.handle l.flushed := by
  induction events generalizing l names with
  | nil =>
    exact ⟨rfl, names, [], rfl, List.prefix_rfl, h, (List.append_nil _).symm,
      fun _ hsignal => (nomatch hsignal), rfl⟩
  | cons event events ih =>
    cases event with
    | process =>
      obtain ⟨hserver, hflushed⟩ := process_flushed lib klass l
      rw [← hserver] at h hroom ⊢
      rw [← hflushed]
      exact ih h hroom
    | operate op =>
      have hsum : names.length +
          l.server.issued lib klass (SettingEvent.operations (.operate op :: events)) =
          names.length + l.server.issues op +
            (l.server.adjust lib klass op).issued lib klass (SettingEvent.operations events) :=
        (Nat.add_assoc _ _ _).symm
      rw [hsum] at hroom ⊢
      obtain ⟨names₁, hlength, hone⟩ :=
        DBusLogServer.adjust_recorded hrelays lib h op (by omega)
      obtain ⟨sent, hsent, hissued⟩ := hone.sent
      rw [← hlength] at hroom ⊢
      obtain ⟨hserver, names₂, sent', hlength', hgrown, hchronicled, hsent', hissued', hflushed⟩ :=
        ih (l := l.advance (l.server.adjust lib klass op)) hone.chronicled hroom
      refine ⟨hserver, names₂, sent ++ sent', hlength', hone.grown.trans hgrown, hchronicled, ?_, ?_,
        ?_⟩
      · refine hsent'.trans ?_
        change (l.server.adjust lib klass op).sent ++ sent' = _
        rw [hsent, List.append_assoc]
      · intro signal hsignal
        obtain hleft | hright := List.mem_append.mp hsignal
        · exact (hissued signal hleft).mono List.prefix_rfl hgrown
        · exact (hissued' signal hright).mono hone.grown List.prefix_rfl
      · rw [List.foldl_append, ← advance_flushed hsent]
        exact hflushed

/-- The client can always process all that is on its way. -/
theorem drain (lib : Libraries Cred Policy) (klass : DBusLogServerClass β) (l : Link Policy β) :
    ∃ n, (settingRun lib klass l (List.replicate n .process)).wire = [] ∧
      (settingRun lib klass l (List.replicate n .process)).server = l.server := by
  cases hl : l with
  | mk server wire client processed =>
    clear hl
    induction wire generalizing client processed with
    | nil => exact ⟨0, rfl, rfl⟩
    | cons message wire ih =>
      obtain ⟨n, hwire, hserver⟩ := ih (client.process message) (processed + 1)
      exact ⟨n + 1, hwire, hserver⟩

theorem operations_append (events events' : List SettingEvent) :
    SettingEvent.operations (events ++ events') =
      SettingEvent.operations events ++ SettingEvent.operations events' := List.filterMap_append

theorem operations_operate (ops : List SettingOp) :
    SettingEvent.operations (ops.map .operate) = ops := by
  induction ops with
  | nil => rfl
  | cons op ops ih =>
    have he := congrArg (op :: ·) ih
    exact he

theorem operations_process (n : Nat) :
    SettingEvent.operations (List.replicate n .process) = [] := by
  induction n with
  | zero => rfl
  | succ n ih => exact ih

end Events

/-! ## The client as it was told -/

/-- When the client will have processed all messages, it will have the table of the server, but show
the levels and the backlog of `c₀`. -/
structure Frozen (c₀ : DBusLogCore) (client : DBusLogClient) (l : Link Policy β) : Prop where
  shows : l.flushed.Shows c₀
  entries : l.flushed.entryAt = l.server.core.entryAt
  backlogChanges : l.flushed.backlogChanges = client.backlogChanges
  distinct : (l.server.core.categories.values.map (·.id)).Nodup

section Frozen

variable {lib : Libraries Cred Policy} {klass : DBusLogServerClass β} {c₀ : DBusLogCore}
  {client : DBusLogClient} {l : Link Policy β}

/-- A client with all messages processed shows what the server shows if and only if that is what it
was told. -/
theorem Frozen.settled_iff (h : Frozen c₀ client l) (hwire : l.wire = []) :
    Settled c₀ client l ↔ DBusLogCore.SameSettings c₀ l.server.core := by
  have hclient : l.flushed = l.client := by
    unfold flushed
    rw [hwire]
    rfl
  have hshows := h.shows
  have hentries := h.entries
  have hchanges := h.backlogChanges
  rw [hclient] at hshows hentries hchanges
  -- the object that the client has for a category of the server
  have hobject : ∀ id, ∀ e, l.client.table.lookup id = some e → ∃ cat,
      l.client.memory[e.2]? = some cat ∧ l.client.levelAt id = some (c₀.levelOf id) := by
    intro id e he
    have hkey : e.1 = id := KeyedTable.key_of_lookup he
    obtain ⟨cat, hcat, hlevel⟩ := hshows.levels e (KeyedTable.mem_of_lookup he)
    refine ⟨cat, hcat, ?_⟩
    unfold DBusLogClient.levelAt
    rw [he, Option.bind_some, hcat, ← hkey, ← hlevel]
    rfl
  constructor
  · intro hsettled
    -- each category of the server has an object in the client, with the level of the snapshot
    refine ⟨?_, ?_, ?_, fun cat hcat => ?_⟩
    · rw [← hsettled.defaultLevel, hshows.defaultLevel]
    · rw [← hsettled.backlog, hshows.backlog]
    · have hcount := hsettled.backlogChanges
      rw [hchanges] at hcount
      omega
    · have hentry : l.client.entryAt cat.id = some (cat.name, cat.flags) := by
        rw [hentries]
        exact (DBusLogCore.entryAt_eq_some_iff h.distinct).mpr ⟨cat, hcat, rfl, rfl⟩
      obtain ⟨e, he, _⟩ := Option.bind_eq_some_iff.mp hentry
      obtain ⟨_, _, hlevel⟩ := hobject cat.id e he
      have hserver := hsettled.levels cat.id _ hlevel
      rw [DBusLogCore.levelAt_of_mem h.distinct hcat] at hserver
      exact Option.some.inj hserver
  · intro hsame
    refine ⟨?_, ?_, fun id level hlevel => ?_, ?_⟩
    · rw [hshows.defaultLevel, hsame.defaultLevel]
    · rw [hshows.backlog, hsame.backlog]
    · obtain ⟨e, he, _⟩ := Option.bind_eq_some_iff.mp hlevel
      obtain ⟨object, hobj, hshown⟩ := hobject id e he
      rw [hshown] at hlevel
      cases hlevel
      have hentry : l.client.entryAt id = some (object.name, object.flags) := by
        unfold DBusLogClient.entryAt
        rw [he, Option.bind_some, hobj]
        rfl
      rw [hentries] at hentry
      obtain ⟨cat, hcat, rfl, _⟩ := (DBusLogCore.entryAt_eq_some_iff h.distinct).mp hentry
      rw [DBusLogCore.levelAt_of_mem h.distinct hcat, hsame.levels cat hcat]
    · rw [hchanges, hsame.backlogChanges]

end Frozen

/-! ## The snapshot and after -/

section Snapshot

variable {lib : Libraries Cred Policy} {klass : DBusLogServerClass β}
  {deliver : DBusLogServer Policy β → LoggerCall → Option (Reply × DBusLogServer Policy β)}
  {server : DBusLogServer Policy β} {client : DBusLogClient} {names : List String}

/-- The server answers GetAll2 with all that it shows. -/
def AnswersGetAll2 (deliver : DBusLogServer Policy β → LoggerCall →
    Option (Reply × DBusLogServer Policy β)) (server : DBusLogServer Policy β) : Prop :=
  deliver server .getAll2 = some (.methodReturn [.int32 interfaceVersion,
    .int32 server.core.defaultLevel.toInt32, .categories server.core.categoryEntries,
    .int32 server.core.backlog], server)

/-- The client has just been told what the server is like. -/
theorem answer_frozen {l : Link Policy β} {n : Nat} (hflushed : l.flushed = client)
    (hanswers : AnswersGetAll2 deliver l.server) (hcatalogue : l.server.core.Catalogue n) :
    (answer deliver l .getAll2).server = l.server ∧
      (answer deliver l .getAll2).flushed.Listening ∧
      Frozen l.server.core client (answer deliver l .getAll2) := by
  have hanswer : answer deliver l .getAll2 = { l with wire := l.wire ++ [.reply (.methodReturn
      [.int32 interfaceVersion, .int32 l.server.core.defaultLevel.toInt32,
        .categories l.server.core.categoryEntries, .int32 l.server.core.backlog])] } := by
    unfold answer advance
    rw [hanswers]
    dsimp only
    rw [List.drop_length, List.map_nil, List.append_nil]
  have hnow : (answer deliver l .getAll2).flushed = client.getAllFinished (.methodReturn
      [.int32 interfaceVersion, .int32 l.server.core.defaultLevel.toInt32,
        .categories l.server.core.categoryEntries, .int32 l.server.core.backlog]) := by
    rw [hanswer, ← hflushed]
    unfold flushed
    rw [List.foldl_append]
    rfl
  obtain ⟨hshows, hchanges⟩ := DBusLogClient.getAll2_shows hcatalogue client interfaceVersion
  obtain ⟨hlistening, hentries⟩ := client.getAllFinished_listening interfaceVersion
    l.server.core.defaultLevel.toInt32 l.server.core.backlog l.server.core.categoryEntries (.inr rfl)
  rw [replay_categoryEntries hcatalogue] at hentries
  have hserver : (answer deliver l .getAll2).server = l.server := by rw [hanswer]
  refine ⟨hserver, ?_, ?_, ?_, ?_, ?_⟩
  · rw [hnow]
    exact hlistening
  · rw [hnow]
    exact hshows
  · rw [hnow, hserver]
    exact hentries
  · rw [hnow]
    exact hchanges
  · rw [hserver]
    exact hcatalogue.distinct

/-- Run lemma: it stays as it was told. -/
theorem settingRun_frozen {l : Link Policy β} {c₀ : DBusLogCore} (h : Frozen c₀ client l)
    (hlistening : l.flushed.Listening) (hrelays : DBusLogServer.Relays klass)
    (hstarted : l.server.started = true) (hsends : DBusLogServer.Sends klass l.server.backend)
    (h₀ : c₀.Chronicled names) (hc : l.server.core.Chronicled names)
    (hcatalogue : l.server.core.Catalogue names.length) (events : List SettingEvent)
    (hroom : names.length + l.server.issued lib klass (SettingEvent.operations events) < 2 ^ 32) :
    Frozen c₀ client (settingRun lib klass l events) := by
  obtain ⟨hserver, names', sent, _, hgrown, _, hsent, hissued, hflushed⟩ :=
    settingRun_recorded hrelays hc events hroom
  obtain ⟨signals, htold⟩ := DBusLogServer.adjustAll_told lib klass hcatalogue
    (SettingEvent.operations events) hroom
  rw [← hserver] at htold
  have hsame := htold.sent hstarted hsends
  rw [hsent] at hsame
  cases List.append_cancel_left hsame
  obtain ⟨hshows, hscalars⟩ := h.shows.handleAll h₀ hissued
  obtain ⟨_, hentries⟩ := hlistening.handleAll htold.proper
  refine ⟨?_, ?_, ?_, htold.catalogue.distinct⟩
  · rw [hflushed]
    exact hshows
  · rw [hflushed, hentries, h.entries, htold.entries]
  · rw [hflushed]
    exact hscalars.backlogChanges.trans h.backlogChanges

/-- What happens after the client has been told what the server is like. -/
theorem settledAll_iff {l : Link Policy β} (hfrozen : Frozen l.server.core client l)
    (hlistening : l.flushed.Listening) (hrelays : DBusLogServer.Relays klass)
    (hstarted : l.server.started = true) (hsends : DBusLogServer.Sends klass l.server.backend)
    (hchronicled : l.server.core.Chronicled names)
    (hcatalogue : l.server.core.Catalogue names.length) (ops : List SettingOp)
    (hroom : names.length + l.server.issued lib klass ops + 1 < 2 ^ 32) :
    (∀ after, SettingEvent.operations after <+: ops → (settingRun lib klass l after).wire = [] →
      Settled l.server.core client (settingRun lib klass l after)) ↔
      ∀ first op rest, first ++ op :: rest = ops →
        (l.server.adjustAll lib klass first).KeepsSettings lib op := by
  have hroom' : ∀ first, first <+: ops →
      names.length + l.server.issued lib klass first < 2 ^ 32 := by
    rintro first ⟨rest, rfl⟩
    rw [DBusLogServer.issued_append] at hroom
    omega
  have hsettled : ∀ after, SettingEvent.operations after <+: ops →
      (settingRun lib klass l after).wire = [] →
      (Settled l.server.core client (settingRun lib klass l after) ↔
        DBusLogCore.SameSettings l.server.core
          (l.server.adjustAll lib klass (SettingEvent.operations after)).core) := by
    intro after hafter hwire
    obtain ⟨hserver, _⟩ := settingRun_recorded hrelays hchronicled after (hroom' _ hafter)
    rw [← hserver]
    exact (settingRun_frozen hfrozen hlistening hrelays hstarted hsends hchronicled hchronicled
      hcatalogue after (hroom' _ hafter)).settled_iff hwire
  rw [← DBusLogServer.adjustAll_sameSettings_iff hrelays
    (DBusLogCore.SameSettings.refl hcatalogue.distinct) hchronicled List.prefix_rfl hchronicled ops
    hroom]
  constructor
  · intro hall first hfirst
    -- the client processes everything after the last one of the operations
    obtain ⟨n, hwire, _⟩ := drain lib klass (settingRun lib klass l (first.map .operate))
    have hoperations : SettingEvent.operations
        (first.map .operate ++ List.replicate n .process) = first := by
      rw [operations_append, operations_operate, operations_process, List.append_nil]
    rw [← settingRun_append] at hwire
    have hafter := hall (first.map .operate ++ List.replicate n .process)
      (by rw [hoperations]; exact hfirst) hwire
    have hsame := (hsettled _ (by rw [hoperations]; exact hfirst) hwire).mp hafter
    rw [hoperations] at hsame
    exact hsame
  · intro hall after hafter hwire
    exact (hsettled after hafter hwire).mpr (hall _ hafter)

/-- Over all runs with the operations `ops` the client shows what the server shows, if and only if
none of them sets anything else. -/
theorem mirrorsLevels_iff (hstarted : server.started = true)
    (hsends : DBusLogServer.Sends klass server.backend) (hrelays : DBusLogServer.Relays klass)
    (hcatalogue : server.core.Catalogue names.length) (hchronicled : server.core.Chronicled names)
    (hclient : client.handling = false) {before : List SettingEvent} {ops : List SettingOp}
    (hroom : names.length +
      server.issued lib klass (SettingEvent.operations before ++ ops) + 1 < 2 ^ 32)
    (hanswers : ∀ server' : DBusLogServer Policy β, server'.started = server.started →
      server'.backend = server.backend → AnswersGetAll2 deliver server') :
    MirrorsLevels lib klass deliver server client before ops ↔
      KeepsAll lib klass server before ops := by
  rw [DBusLogServer.issued_append, ← Nat.add_assoc] at hroom
  -- before the snapshot
  obtain ⟨hserver, names₀, sent, hlength, _, hchronicled₀, _, _, hflushed⟩ :=
    settingRun_recorded (l := start server client) hrelays hchronicled before
      (show names.length + server.issued lib klass _ < 2 ^ 32 by omega)
  obtain ⟨signals, htold⟩ := DBusLogServer.adjustAll_told lib klass hcatalogue
    (SettingEvent.operations before) (by omega)
  change (settingRun lib klass (start server client) before).server =
    server.adjustAll lib klass (SettingEvent.operations before) at hserver
  change names₀.length = names.length +
    server.issued lib klass (SettingEvent.operations before) at hlength
  change (settingRun lib klass (start server client) before).flushed =
    sent.foldl DBusLogClient.handle client at hflushed
  rw [DBusLogClient.handleAll_deaf hclient] at hflushed
  rw [← hlength] at hroom htold
  unfold MirrorsLevels KeepsAll
  dsimp only
  rw [← hserver] at htold hroom ⊢
  generalize settingRun lib klass (start server client) before = l₀ at *
  -- the snapshot
  obtain ⟨hanswered, hlistening, hfrozen⟩ := answer_frozen hflushed
    (hanswers l₀.server htold.started htold.backend) htold.catalogue
  have hstarted' : l₀.server.started = true := htold.started.trans hstarted
  have hsends' : DBusLogServer.Sends klass l₀.server.backend := by
    rw [htold.backend]
    exact hsends
  have hcatalogue₀ := htold.catalogue
  rw [← hanswered] at hfrozen hstarted' hsends' hchronicled₀ hcatalogue₀ hroom ⊢
  generalize answer deliver l₀ .getAll2 = l at *
  exact settledAll_iff hfrozen hlistening hrelays hstarted' hsends' hchronicled₀ hcatalogue₀ ops hroom

end Snapshot

/-! ## The two back ends -/

section Backends

variable {β : Type} (lib : Libraries Cred Policy) (klass : DBusLogServerClass β)

/-- A server that has been set up and has then been started shows its levels and its backlog to the
client, while ids last, if and only if no operation after the snapshot sets anything else. -/
def LevelsFrom (deliver : DBusLogServer Policy β → LoggerCall →
    Option (Reply × DBusLogServer Policy β)) (fresh : DBusLogServer Policy β)
    (setup : List SettingOp) (client : DBusLogClient) (before : List SettingEvent)
    (ops : List SettingOp) : Prop :=
  let server := (fresh.adjustAll lib klass setup).start klass
  fresh.issued lib klass setup +
      server.issued lib klass (SettingEvent.operations before ++ ops) < 2 ^ 32 - 1 →
    (MirrorsLevels lib klass deliver server client before ops ↔
      KeepsAll lib klass server before ops)

variable {lib klass}

/-- It is enough to look at each of the operations. -/
theorem keepsAll_of_each {server : DBusLogServer Policy β} {before : List SettingEvent}
    {ops : List SettingOp}
    (h : ∀ i : Fin ops.length, ((server.adjustAll lib klass (SettingEvent.operations before)).adjustAll
      lib klass (ops.take i)).KeepsSettings lib (ops.get i)) :
    KeepsAll lib klass server before ops := by
  intro first op rest hops
  subst hops
  have hplace : first.length < (first ++ op :: rest).length := by
    rw [List.length_append, List.length_cons]
    omega
  have hkeeps := h ⟨first.length, hplace⟩
  simp only [List.take_left, List.get_eq_getElem, List.getElem_append_right (Nat.le_refl _),
    Nat.sub_self, List.getElem_cons_zero] at hkeeps
  exact hkeeps

/-- A fresh server that has been set up and started, with the chronicle of that. -/
theorem setup_chronicled (lib : Libraries Cred Policy) (hrelays : DBusLogServer.Relays klass)
    {fresh : DBusLogServer Policy β} (hnew : fresh.core = DBusLogCore.new 0 true)
    {setup : List SettingOp} (hroom : fresh.issued lib klass setup < 2 ^ 32) :
    ∃ names, names.length = fresh.issued lib klass setup ∧
      ((fresh.adjustAll lib klass setup).start klass).core.Chronicled names ∧
      ((fresh.adjustAll lib klass setup).start klass).core.Catalogue names.length ∧
      (fresh.adjustAll lib klass setup).started = fresh.started ∧
      (fresh.adjustAll lib klass setup).backend = fresh.backend := by
  have hchronicled : fresh.core.Chronicled [] := by
    rw [hnew]
    exact DBusLogCore.chronicled_new 0 true
  have hcatalogue : fresh.core.Catalogue 0 := by
    rw [hnew]
    exact catalogue_new
  have hroom' : 0 + fresh.issued lib klass setup < 2 ^ 32 := by omega
  obtain ⟨names, hlength, hrecorded⟩ :=
    DBusLogServer.adjustAll_recorded hrelays lib hchronicled setup hroom'
  obtain ⟨signals, htold⟩ := DBusLogServer.adjustAll_told lib klass hcatalogue setup hroom'
  change names.length = 0 + fresh.issued lib klass setup at hlength
  rw [DBusLogServer.start_core]
  refine ⟨names, by omega, hrecorded.chronicled, ?_, htold.started, htold.backend⟩
  rw [hlength]
  exact htold.catalogue

end Backends

/-- The mirror of the levels and the backlog, for both back ends: a server is set up, is started,
and goes through any operations while signals are on their way to a client that is not connected.
Then it answers GetAll2. Over all runs with the operations `ops` after that, the client shows what
the server shows whenever all messages have been processed, if and only if none of these operations
sets a level or a backlog that is not set already. -/
theorem levelMirror (lib : Libraries Cred Policy) (ctx : ServerContext) (bus : DABus)
    (path : String) (policy : Policy) (sender : String) (setup : List SettingOp)
    (client : DBusLogClient) (before : List SettingEvent) (ops : List SettingOp)
    (hclient : client.handling = false) :
    LevelsFrom lib DBusLogServerDbus.klass (fun s => DBusLogServerDbus.deliver lib ctx s sender)
        (DBusLogServerDbus.newFull bus path policy) setup client before ops ∧
      LevelsFrom lib DBusLogServerGio.klass (fun s => DBusLogServerGio.deliver lib ctx s sender)
        (DBusLogServerGio.newServer bus path policy) setup client before ops := by
  unfold LevelsFrom
  constructor
  · intro server hroom
    obtain ⟨names, hlength, hchronicled, hcatalogue, hidle, _⟩ :=
      setup_chronicled lib DBusLogServer.relays_dbus
        (show (DBusLogServerDbus.newFull bus path policy).core = DBusLogCore.new 0 true from rfl)
        (show (DBusLogServerDbus.newFull bus path policy).issued lib _ setup < 2 ^ 32 by omega)
    obtain ⟨hstarted, hfiltering⟩ : server.started = true ∧ server.backend.filtering = true :=
      start_dbus hidle
    refine mirrorsLevels_iff hstarted (DBusLogServer.sends_dbus _) DBusLogServer.relays_dbus
      hcatalogue hchronicled hclient (by omega) fun server' hstarted' hbackend' => ?_
    exact DBusLogServerDbus.deliver_eq (hstarted'.trans hstarted) (hbackend' ▸ hfiltering) .getAll2
  · intro server hroom
    obtain ⟨names, hlength, hchronicled, hcatalogue, hidle, hbackend⟩ :=
      setup_chronicled lib DBusLogServer.relays_gio
        (show (DBusLogServerGio.newServer bus path policy).core = DBusLogCore.new 0 true from rfl)
        (show (DBusLogServerGio.newServer bus path policy).issued lib _ setup < 2 ^ 32 by omega)
    obtain ⟨hstarted, hexported⟩ : server.started = true ∧
        server.backend.skeletonExported = true := start_gio hidle hbackend
    refine mirrorsLevels_iff hstarted (DBusLogServer.sends_gio hexported) DBusLogServer.relays_gio
      hcatalogue hchronicled hclient (by omega) fun server' hstarted' hbackend' => ?_
    exact DBusLogServerGio.deliver_eq (hbackend' ▸ hexported) .getAll2

section Stale

variable {β : Type} (klass : DBusLogServerClass β)
  (deliver : DBusLogServer Unit β → LoggerCall → Option (Reply × DBusLogServer Unit β))
  (fresh : DBusLogServer Unit β)

/-- The server has got a category when it is started, and then gets another default level. -/
def staleSetup : List SettingOp × List SettingEvent :=
  ([.category (.addCategory "net" Level.warning CategoryFlag.enabled)],
    [.operate (.callSetDefaultLevel ":1.1" Level.error), .process])

/-- Operations after the snapshot that set nothing else: the caller of the last one is not root. -/
def sameOps : List SettingOp :=
  [.setDefaultLevel Level.error, .category (.setCategoryLevel "net" Level.warning),
    .callSetBacklog ":1.9" 50]

/-- Operations after the snapshot that set everything. -/
def staleOps : List SettingOp :=
  [.setDefaultLevel Level.debug, .category (.setCategoryLevel "net" Level.error),
    .callSetBacklog ":1.1" 50]

/-- The server has been started. -/
def staleServer : DBusLogServer Unit β :=
  (fresh.adjustAll rootOnly klass staleSetup.1).start klass

/-- The server has gone through `staleOps` after the snapshot, and the client has processed the
reply and the three signals. -/
def stale : Link Unit β :=
  settingRun rootOnly klass (answer deliver (settingRun rootOnly klass
      (start (staleServer klass fresh) .new) staleSetup.2) .getAll2)
    (staleOps.map .operate ++ List.replicate 4 .process)

end Stale

/-- The operations `sameOps` do no harm. -/
theorem levelMirror_same :
    MirrorsLevels rootOnly DBusLogServerDbus.klass
        (fun s => DBusLogServerDbus.deliver rootOnly ⟨none, fun _ => []⟩ s ":1.1")
        (staleServer DBusLogServerDbus.klass (DBusLogServerDbus.newFull .system "/logger" ())) .new
        staleSetup.2 sameOps ∧
      MirrorsLevels rootOnly DBusLogServerGio.klass
        (fun s => DBusLogServerGio.deliver rootOnly ⟨none, fun _ => []⟩ s ":1.1")
        (staleServer DBusLogServerGio.klass (DBusLogServerGio.newServer .system "/logger" ())) .new
        staleSetup.2 sameOps := by
  obtain ⟨hdbus, hgio⟩ := levelMirror rootOnly ⟨none, fun _ => []⟩ .system "/logger" () ":1.1"
    staleSetup.1 .new staleSetup.2 sameOps rfl
  exact ⟨(hdbus (by decide +kernel)).mpr (keepsAll_of_each (by decide +kernel)),
    (hgio (by decide +kernel)).mpr (keepsAll_of_each (by decide +kernel))⟩

/-- After `staleOps` everything is stale, though nothing is on its way. -/
theorem levelMirror_stale :
    let l := stale DBusLogServerDbus.klass
      (fun s => DBusLogServerDbus.deliver rootOnly ⟨none, fun _ => []⟩ s ":1.1")
      (DBusLogServerDbus.newFull .system "/logger" ())
    l.wire = [] ∧
      l.client.defaultLevel = Level.error ∧ l.server.core.defaultLevel = Level.debug ∧
      l.client.levelAt 1 = some Level.warning ∧ l.server.core.levelAt 1 = some Level.error ∧
      l.client.backlog = 1000 ∧ l.server.core.backlog = 50 ∧
      l.client.backlogChanges = 0 ∧ l.server.core.backlogChanges = 1 ∧
      ¬ MirrorsLevels rootOnly DBusLogServerDbus.klass
        (fun s => DBusLogServerDbus.deliver rootOnly ⟨none, fun _ => []⟩ s ":1.1")
        (staleServer DBusLogServerDbus.klass (DBusLogServerDbus.newFull .system "/logger" ())) .new
        staleSetup.2 staleOps := by
  refine ⟨by decide +kernel, by decide +kernel, by decide +kernel, by decide +kernel,
    by decide +kernel, by decide +kernel, by decide +kernel, by decide +kernel, by decide +kernel,
    fun hmirrors => ?_⟩
  have hsettled := hmirrors (staleOps.map .operate ++ List.replicate 4 .process)
    (by decide) (by decide +kernel)
  exact absurd hsettled.backlog (by decide +kernel)

end Link

end DBusLog

import DBusLog.Client.Replica
import DBusLog.Server.Authorization

/-!
# The mirror of the categories

A server, a client, and what is on its way from one to the other. The server operates on its
categories, and the client processes what reaches it, in any order of steps; somewhere in between
the server answers the client. What the client has processed decides what its table is: the table
that the server had when it had sent just that much.
-/

namespace DBusLog

open ChangeLog

/-- What a client gets from a server. -/
inductive LinkMessage
  | signal (signal : BusSignal)
  | reply (reply : Reply)
  deriving DecidableEq

/-- A server and a client. -/
structure Link (Policy β : Type) where
  server : DBusLogServer Policy β
  /-- What has been sent and not been processed, the oldest first. -/
  wire : List LinkMessage
  client : DBusLogClient
  /-- How many messages the client has processed. -/
  processed : Nat

/-- What happens next. -/
inductive LinkEvent
  | operate (op : CategoryOp)
  | process
  deriving DecidableEq

namespace DBusLogClient

/-- A message reaches the client. -/
def process (c : DBusLogClient) : LinkMessage → DBusLogClient
  | .signal signal => c.handle signal
  | .reply reply => c.getAllFinished reply

end DBusLogClient

/-- The operations among the events. -/
def LinkEvent.operations (events : List LinkEvent) : List CategoryOp :=
  events.filterMap fun
    | .operate op => some op
    | .process => none

namespace Link

variable {Cred Policy β : Type}

/-- Nothing has been sent yet. -/
def start (server : DBusLogServer Policy β) (client : DBusLogClient) : Link Policy β where
  server := server
  wire := []
  client := client
  processed := 0

/-- The server has become `server`; what it has sent meanwhile is on its way. -/
def advance (l : Link Policy β) (server : DBusLogServer Policy β) : Link Policy β :=
  { l with
    server := server
    wire := l.wire ++ (server.sent.drop l.server.sent.length).map .signal }

section Events

variable (lib : Libraries Cred Policy) (klass : DBusLogServerClass β)
  (deliver : DBusLogServer Policy β → LoggerCall → Option (Reply × DBusLogServer Policy β))

/-- One event. -/
def step (l : Link Policy β) : LinkEvent → Link Policy β
  | .operate op => l.advance (l.server.operate lib klass op)
  | .process =>
    match l.wire with
    | message :: wire =>
      { l with
        wire := wire
        client := l.client.process message
        processed := l.processed + 1 }
    | [] => l

/-- One event after another. -/
def run (l : Link Policy β) (events : List LinkEvent) : Link Policy β :=
  events.foldl (step lib klass) l

/-- The server answers a call of the client. -/
def answer (l : Link Policy β) (call : LoggerCall) : Link Policy β :=
  match deliver l.server call with
  | some (reply, server) =>
    let l := l.advance server
    { l with wire := l.wire ++ [.reply reply] }
  | none => l

/-- In every run of `server` and `client` in which the server answers `call` once: when the client
has processed the reply and what the server sent in the first `k` operations after it, and no more,
both tables say the same about each id. -/
def Mirrors (server : DBusLogServer Policy β) (client : DBusLogClient) (call : LoggerCall)
    (before after : List LinkEvent) (k : Nat) : Prop :=
  let l := run lib klass (answer deliver (run lib klass (start server client) before) call) after
  let snapshot := server.operateAll lib klass (LinkEvent.operations before)
  let later := snapshot.operateAll lib klass ((LinkEvent.operations after).take k)
  l.processed + server.sent.length = later.sent.length + 1 →
    ∀ id, l.client.entryAt id = later.core.entryAt id

end Events

/-! ## First in, first out -/

/-- `messages` have been sent so far, to a client that was `client` at first. -/
structure Carries (client : DBusLogClient) (messages : List LinkMessage) (l : Link Policy β) :
    Prop where
  processed : l.processed ≤ messages.length
  wire : l.wire = messages.drop l.processed
  client : l.client = (messages.take l.processed).foldl DBusLogClient.process client

section Carries

variable {lib : Libraries Cred Policy} {klass : DBusLogServerClass β} {l : Link Policy β}
  {client : DBusLogClient} {messages : List LinkMessage}

theorem Carries.send (h : Carries client messages l) (more : List LinkMessage)
    (server : DBusLogServer Policy β) :
    Carries client (messages ++ more) { l with server := server, wire := l.wire ++ more } where
  processed := by
    rw [List.length_append]
    exact Nat.le_add_right_of_le h.processed
  wire := by
    change l.wire ++ more = _
    rw [List.drop_append_of_le_length h.processed, h.wire]
  client := by
    change l.client = _
    rw [List.take_append_of_le_length h.processed, h.client]

theorem Carries.process (h : Carries client messages l) :
    Carries client messages (step lib klass l .process) := by
  unfold step
  cases hwire : l.wire with
  | nil => exact h
  | cons message wire =>
    have hdrop := h.wire
    rw [hwire] at hdrop
    have hlt : l.processed < messages.length := by
      by_contra hge
      rw [List.drop_eq_nil_of_le (not_lt.mp hge)] at hdrop
      cases hdrop
    rw [List.drop_eq_getElem_cons hlt] at hdrop
    obtain ⟨hmessage, hrest⟩ := List.cons.inj hdrop
    refine ⟨hlt, hrest, ?_⟩
    change l.client.process message = _
    rw [List.take_succ_eq_append_getElem hlt, List.foldl_append, ← h.client, hmessage]
    rfl

theorem start_carries (server : DBusLogServer Policy β) (client : DBusLogClient) :
    Carries client [] (start server client) := ⟨le_rfl, rfl, rfl⟩

/-- A run without an answer. The server does its operations, and what it tells is sent. -/
theorem run_carries (lib : Libraries Cred Policy) (klass : DBusLogServerClass β)
    {l : Link Policy β} {client : DBusLogClient} {messages : List LinkMessage} {n : Nat}
    (hcarries : Carries client messages l) (hstarted : l.server.started = true)
    (hsends : DBusLogServer.Sends klass l.server.backend) (hcatalogue : l.server.core.Catalogue n)
    (events : List LinkEvent)
    (hroom : n + l.server.created lib klass (LinkEvent.operations events) < 2 ^ 32) :
    ∃ signals,
      (run lib klass l events).server =
        l.server.operateAll lib klass (LinkEvent.operations events) ∧
      DBusLogServer.Told klass (n + l.server.created lib klass (LinkEvent.operations events))
        l.server (run lib klass l events).server signals ∧
      Carries client (messages ++ signals.map .signal) (run lib klass l events) := by
  induction events generalizing l n messages with
  | nil =>
    refine ⟨[], rfl, DBusLogServer.Told.refl hcatalogue, ?_⟩
    rw [List.map_nil, List.append_nil]
    exact hcarries
  | cons event events ih =>
    cases event with
    | process =>
      have hserver : (step lib klass l .process).server = l.server := by
        unfold step
        dsimp only
        cases l.wire with
        | nil => rfl
        | cons message wire => rfl
      rw [← hserver] at hstarted hsends hcatalogue hroom ⊢
      exact ih hcarries.process hstarted hsends hcatalogue hroom
    | operate op =>
      have hsum : n + l.server.created lib klass (LinkEvent.operations (.operate op :: events)) =
          n + l.server.creates op +
            (l.server.operate lib klass op).created lib klass (LinkEvent.operations events) :=
        (Nat.add_assoc _ _ _).symm
      rw [hsum] at hroom ⊢
      obtain ⟨signals, htold⟩ := DBusLogServer.operate_told lib klass
        hcatalogue op (by omega)
      have hsent := htold.sent hstarted hsends
      have hstep : step lib klass l (.operate op) = { l with
          server := l.server.operate lib klass op
          wire := l.wire ++ signals.map .signal } := by
        unfold step advance
        dsimp only
        rw [hsent, List.drop_left]
      have hcarries' := hcarries.send (signals.map .signal) (l.server.operate lib klass op)
      rw [← hstep] at hcarries'
      obtain ⟨signals', hserver, hrest, hmessages⟩ := ih hcarries' (htold.started.trans hstarted)
        (show DBusLogServer.Sends klass (l.server.operate lib klass op).backend by
          rw [htold.backend]
          exact hsends) htold.catalogue hroom
      refine ⟨signals ++ signals', hserver, htold.trans hrest, ?_⟩
      rw [List.map_append, ← List.append_assoc]
      exact hmessages

end Carries

/-! ## The snapshot -/

section Snapshot

variable {lib : Libraries Cred Policy} {klass : DBusLogServerClass β}
  {deliver : DBusLogServer Policy β → LoggerCall → Option (Reply × DBusLogServer Policy β)}
  {server : DBusLogServer Policy β} {client : DBusLogClient} {call : LoggerCall}

/-- The list of the server says what its table is. -/
theorem replay_categoryEntries {n : Nat} {core : DBusLogCore} (h : core.Catalogue n) :
    replay (fun _ => none) (core.categoryEntries.map DBusLogClient.entryChange) = core.entryAt := by
  have hmem : ∀ cat, cat ∈ core.getCategories ↔ cat ∈ core.categories.values := fun cat =>
    List.mem_insertionSort _
  have hentries : core.categoryEntries.map DBusLogClient.entryChange =
      (core.getCategories.map fun cat => (cat.id, cat.name, cat.flags)).map
        fun e => Change.put e.1 e.2 := by
    unfold DBusLogCore.categoryEntries
    rw [List.map_map, List.map_map]
    refine List.map_congr_left fun cat hcat => ?_
    change Change.put cat.id (cat.name, cat.flags.toUInt32.toUInt64) = _
    rw [toUInt64_toUInt32 (h.narrow cat ((hmem cat).mp hcat))]
    rfl
  have hdistinct : ((core.getCategories.map fun cat => (cat.id, cat.name, cat.flags)).map
      Prod.fst).Nodup := by
    rw [List.map_map]
    exact ((List.perm_insertionSort _ _).map _).nodup_iff.mpr h.distinct
  rw [hentries]
  funext id
  apply Option.ext
  intro entry
  rw [replay_puts hdistinct, DBusLogCore.entryAt_eq_some_iff h.distinct, List.mem_map]
  constructor
  · rintro ⟨cat, hcat, he⟩
    exact ⟨cat, (hmem cat).mp hcat, congrArg Prod.fst he, congrArg Prod.snd he⟩
  · rintro ⟨cat, hcat, rfl, rfl⟩
    exact ⟨cat, (hmem cat).mpr hcat, rfl⟩

/-- The server replies with its table, and a client that gets the reply has the same table. -/
def Answers (deliver : DBusLogServer Policy β → LoggerCall →
    Option (Reply × DBusLogServer Policy β)) (call : LoggerCall)
    (server : DBusLogServer Policy β) : Prop :=
  ∃ reply, deliver server call = some (reply, server) ∧ ∀ client : DBusLogClient,
    (client.getAllFinished reply).Listening ∧
      (client.getAllFinished reply).entryAt = server.core.entryAt

/-- Both methods describe the table. -/
theorem perform_getAll (lib : Libraries Cred Policy) (klass : DBusLogServerClass β) {n : Nat}
    (hcatalogue : server.core.Catalogue n) (ctx : ServerContext)
    (sender : String) (hcall : call = .getAll ∨ call = .getAll2) :
    Answers (fun s call => some (s.perform lib klass ctx sender call)) call server := by
  have hentries := replay_categoryEntries hcatalogue
  obtain rfl | rfl := hcall
  · refine ⟨_, rfl, fun client => ?_⟩
    rw [← hentries]
    exact client.getAllFinished_listening _ _ 0 _ (.inl rfl)
  · refine ⟨_, rfl, fun client => ?_⟩
    rw [← hentries]
    exact client.getAllFinished_listening _ _ _ _ (.inr rfl)

theorem answer_carries {reply : Reply} {l : Link Policy β} {messages : List LinkMessage}
    (hreply : deliver l.server call = some (reply, l.server))
    (h : Carries client messages l) :
    (answer deliver l call).server = l.server ∧
      Carries client (messages ++ [.reply reply]) (answer deliver l call) := by
  unfold answer advance
  rw [hreply]
  dsimp only
  rw [List.drop_length, List.map_nil, List.append_nil]
  exact ⟨rfl, h.send [.reply reply] l.server⟩

/-- The signals that the client has processed. -/
theorem process_signals (client : DBusLogClient) (signals : List BusSignal) :
    (signals.map LinkMessage.signal).foldl DBusLogClient.process client =
      signals.foldl DBusLogClient.handle client := by
  rw [List.foldl_map]
  rfl

/-- Mirror agreement for a back end that sends what it is told to send and answers. -/
theorem mirrors {n : Nat} (hstarted : server.started = true)
    (hsends : DBusLogServer.Sends klass server.backend) (hcatalogue : server.core.Catalogue n)
    (hclient : client.handling = false) {before after : List LinkEvent}
    (hroom : n + server.created lib klass
      (LinkEvent.operations before ++ LinkEvent.operations after) < 2 ^ 32)
    (hanswers : ∀ m (server' : DBusLogServer Policy β), server'.started = server.started →
      server'.backend = server.backend → server'.core.Catalogue m →
      Answers deliver call server') (k : Nat) :
    Mirrors lib klass deliver server client call before after k := by
  unfold Mirrors
  intro l snapshot later hprocessed id
  rw [DBusLogServer.created_append] at hroom
  -- before the snapshot
  obtain ⟨early, hserver, htold, hcarries⟩ := run_carries lib klass (start_carries server client)
    hstarted hsends hcatalogue before
    (Nat.lt_of_le_of_lt (Nat.add_le_add_left (Nat.le_add_right _ _) n) hroom)
  change (run lib klass (start server client) before).server = snapshot at hserver
  rw [hserver] at htold
  have hstarted' : snapshot.started = true := htold.started.trans hstarted
  have hsends' : DBusLogServer.Sends klass snapshot.backend := by
    rw [htold.backend]
    exact hsends
  -- the snapshot
  obtain ⟨reply, hreply, hview⟩ := hanswers _ snapshot htold.started htold.backend htold.catalogue
  rw [← hserver] at hreply
  obtain ⟨hserver', hcarries'⟩ := answer_carries hreply hcarries
  rw [hserver] at hserver'
  -- after it
  have hroom' : n + server.created lib klass (LinkEvent.operations before) +
      snapshot.created lib klass (LinkEvent.operations after) < 2 ^ 32 := by
    rw [Nat.add_assoc]
    exact hroom
  obtain ⟨signals, hserver'', htold', hcarries''⟩ := run_carries lib klass hcarries'
    (hserver' ▸ hstarted') (hserver' ▸ hsends') (hserver' ▸ htold.catalogue) after
    (hserver' ▸ hroom')
  rw [hserver', hserver'', hserver'] at htold'
  have hsplit := List.take_append_drop k (LinkEvent.operations after)
  obtain ⟨first, rest, m, hfirst, hall⟩ := DBusLogServer.operateAll_told_append lib klass
    htold.catalogue ((LinkEvent.operations after).take k) ((LinkEvent.operations after).drop k) (by
      rw [hsplit]
      exact hroom')
  rw [hsplit] at hall
  rw [htold'.unique hstarted' hsends' hall, List.map_append, ← List.append_assoc] at hcarries''
  -- the client has processed all but the signals of the last operations
  have hcount : l.processed = (([] ++ early.map LinkMessage.signal ++ [LinkMessage.reply reply]) ++
      first.map LinkMessage.signal).length := by
    have hsent : snapshot.sent = server.sent ++ early := htold.sent hstarted hsends
    have hsent' : later.sent = snapshot.sent ++ first := hfirst.sent hstarted' hsends'
    rw [hsent', hsent] at hprocessed
    simp only [List.length_append, List.length_map, List.length_singleton,
      List.length_nil] at hprocessed ⊢
    omega
  have hl := hcarries''.client
  change l.client = (List.take l.processed _).foldl DBusLogClient.process client at hl
  rw [hcount, List.take_left, List.foldl_append, List.foldl_append, List.nil_append,
    process_signals, process_signals, DBusLogClient.handleAll_deaf hclient] at hl
  obtain ⟨hlistening, hentries⟩ := hview client
  have hhandled := (hlistening.handleAll hfirst.proper).2
  rw [hentries, ← hfirst.entries] at hhandled
  rw [hl]
  exact congrFun hhandled id

end Snapshot

/-! ## The two back ends -/

section Backends

variable {lib : Libraries Cred Policy} {call : LoggerCall} {n : Nat}

theorem dbus_answers {server : DBusLogServer Policy DBusLogServerDbus}
    (hstarted : server.started = true) (hfiltering : server.backend.filtering = true)
    (hcatalogue : server.core.Catalogue n) (ctx : ServerContext) (sender : String)
    (hcall : call = .getAll ∨ call = .getAll2) :
    Answers (fun s => DBusLogServerDbus.deliver lib ctx s sender) call server := by
  obtain ⟨reply, hreply, hview⟩ := perform_getAll lib DBusLogServerDbus.klass
    hcatalogue ctx sender hcall
  refine ⟨reply, ?_, hview⟩
  refine (DBusLogServerDbus.deliver_eq hstarted hfiltering call).trans ?_
  obtain rfl | rfl := hcall
  · exact hreply
  · exact hreply

theorem gio_answers {server : DBusLogServer Policy DBusLogServerGio}
    (hexported : server.backend.skeletonExported = true) (hcatalogue : server.core.Catalogue n)
    (ctx : ServerContext) (sender : String) (hcall : call = .getAll ∨ call = .getAll2) :
    Answers (fun s => DBusLogServerGio.deliver lib ctx s sender) call server := by
  obtain ⟨reply, hreply, hview⟩ := perform_getAll lib DBusLogServerGio.klass
    hcatalogue ctx sender hcall
  refine ⟨reply, ?_, hview⟩
  refine (DBusLogServerGio.deliver_eq hexported call).trans ?_
  obtain rfl | rfl := hcall
  · exact hreply
  · exact hreply

theorem catalogue_new : (DBusLogCore.new 0 true).Catalogue 0 :=
  ⟨rfl, List.nodup_nil, fun _ hcat => (nomatch hcat), fun _ hcat => (nomatch hcat), rfl⟩

/-- A server that has been started listens to calls. -/
theorem start_dbus {server : DBusLogServer Policy DBusLogServerDbus}
    (hstarted : server.started = false) :
    (server.start DBusLogServerDbus.klass).started = true ∧
      (server.start DBusLogServerDbus.klass).backend.filtering = true := by
  unfold DBusLogServer.start
  rw [hstarted]
  exact ⟨rfl, rfl⟩

theorem start_gio {server : DBusLogServer Policy DBusLogServerGio}
    (hstarted : server.started = false) (hbackend : server.backend = DBusLogServerGio.new) :
    (server.start DBusLogServerGio.klass).started = true ∧
      (server.start DBusLogServerGio.klass).backend.skeletonExported = true := by
  unfold DBusLogServer.start
  rw [hstarted, hbackend]
  exact ⟨rfl, rfl⟩

/-- A server that has got categories and has then been started mirrors them, while ids last. -/
def MirrorsFrom {β : Type} (lib : Libraries Cred Policy) (klass : DBusLogServerClass β)
    (deliver : DBusLogServer Policy β → LoggerCall → Option (Reply × DBusLogServer Policy β))
    (fresh : DBusLogServer Policy β) (setup : List CategoryOp) (client : DBusLogClient)
    (call : LoggerCall) (before after : List LinkEvent) (k : Nat) : Prop :=
  let server := (fresh.operateAll lib klass setup).start klass
  fresh.created lib klass setup + server.created lib klass
      (LinkEvent.operations before ++ LinkEvent.operations after) < 2 ^ 32 - 1 →
    Mirrors lib klass deliver server client call before after k

end Backends

/-- Category mirror agreement, for both back ends: a server with any categories is started, and
goes through any category operations while signals are on their way to a client that is not
connected. It answers the client, and goes on. The client processes its messages at any time. Once
it has processed the reply and just the signals of the first `k` operations after that, it has the
table that the server had then. -/
theorem mirrorAgreement (lib : Libraries Cred Policy) (ctx : ServerContext) (bus : DABus)
    (path : String) (policy : Policy) (sender : String) (setup : List CategoryOp)
    (client : DBusLogClient) (call : LoggerCall) (before after : List LinkEvent) (k : Nat)
    (hclient : client.handling = false) (hcall : call = .getAll ∨ call = .getAll2) :
    MirrorsFrom lib DBusLogServerDbus.klass (fun s => DBusLogServerDbus.deliver lib ctx s sender)
        (DBusLogServerDbus.newFull bus path policy) setup client call before after k ∧
      MirrorsFrom lib DBusLogServerGio.klass (fun s => DBusLogServerGio.deliver lib ctx s sender)
        (DBusLogServerGio.newServer bus path policy) setup client call before after k := by
  unfold MirrorsFrom
  constructor
  · intro server hroom
    obtain ⟨signals, htold⟩ := DBusLogServer.operateAll_told lib DBusLogServerDbus.klass
      (show (DBusLogServerDbus.newFull bus path policy).core.Catalogue 0 from catalogue_new) setup
      (by omega)
    obtain ⟨hstarted, hfiltering⟩ : server.started = true ∧ server.backend.filtering = true :=
      start_dbus htold.started
    have hcatalogue : server.core.Catalogue _ :=
      (DBusLogServer.start_core DBusLogServerDbus.klass _).symm ▸ htold.catalogue
    refine mirrors hstarted (DBusLogServer.sends_dbus _) hcatalogue hclient (by omega) ?_ k
    intro m server' hstarted' hbackend' hcatalogue'
    exact dbus_answers (hstarted'.trans hstarted) (hbackend' ▸ hfiltering) hcatalogue' ctx sender
      hcall
  · intro server hroom
    obtain ⟨signals, htold⟩ := DBusLogServer.operateAll_told lib DBusLogServerGio.klass
      (show (DBusLogServerGio.newServer bus path policy).core.Catalogue 0 from catalogue_new) setup
      (by omega)
    obtain ⟨hstarted, hexported⟩ : server.started = true ∧
        server.backend.skeletonExported = true := start_gio htold.started htold.backend
    have hcatalogue : server.core.Catalogue _ :=
      (DBusLogServer.start_core DBusLogServerGio.klass _).symm ▸ htold.catalogue
    refine mirrors hstarted (DBusLogServer.sends_gio hexported) hcatalogue hclient (by omega) ?_ k
    intro m server' hstarted' hbackend' hcatalogue'
    exact gio_answers (hbackend' ▸ hexported) hcatalogue' ctx sender hcall

section Behind

variable {β : Type} (klass : DBusLogServerClass β)
  (deliver : DBusLogServer Unit β → LoggerCall → Option (Reply × DBusLogServer Unit β))
  (fresh : DBusLogServer Unit β)

/-- The server starts with one category and gets another one before the snapshot. After it, the
first category is disabled and the second one is removed. -/
def behindEvents : List CategoryOp × List LinkEvent × List LinkEvent :=
  ([.addCategory "net" Level.warning CategoryFlag.enabled],
    [.operate (.addCategory "app" Level.warning CategoryFlag.enabled)],
    [.process, .operate (.callSetNamesEnabled ":1.1" ["net"] false), .process,
      .operate (.removeCategory "app"), .process])

/-- The client has processed everything but the last signal. -/
def behind : Link Unit β :=
  run rootOnly klass (answer deliver (run rootOnly klass (start
    ((fresh.operateAll rootOnly klass behindEvents.1).start klass) .new) behindEvents.2.1) .getAll2)
      behindEvents.2.2

/-- The server after the first operation that follows the snapshot. -/
def behindServer : DBusLogServer Unit β :=
  (((fresh.operateAll rootOnly klass behindEvents.1).start klass).operateAll rootOnly klass
    (LinkEvent.operations behindEvents.2.1)).operateAll rootOnly klass
      ((LinkEvent.operations behindEvents.2.2).take 1)

end Behind

/-- The client still has the category that is gone on the server, and knows that the other one is
disabled. -/
theorem mirrorAgreement_behind :
    (∀ id, (behind DBusLogServerDbus.klass
        (fun s => DBusLogServerDbus.deliver rootOnly ⟨none, fun _ => []⟩ s ":1.1")
        (DBusLogServerDbus.newFull .system "/logger" ())).client.entryAt id =
      (behindServer DBusLogServerDbus.klass
        (DBusLogServerDbus.newFull .system "/logger" ())).core.entryAt id) ∧
    ∀ id, (behind DBusLogServerGio.klass
        (fun s => DBusLogServerGio.deliver rootOnly ⟨none, fun _ => []⟩ s ":1.1")
        (DBusLogServerGio.newServer .system "/logger" ())).client.entryAt id =
      (behindServer DBusLogServerGio.klass
        (DBusLogServerGio.newServer .system "/logger" ())).core.entryAt id := by
  obtain ⟨hdbus, hgio⟩ := mirrorAgreement rootOnly ⟨none, fun _ => []⟩ .system "/logger" () ":1.1"
    behindEvents.1 .new .getAll2 behindEvents.2.1 behindEvents.2.2 1 rfl (.inr rfl)
  exact ⟨hdbus (by decide +kernel) (by decide +kernel), hgio (by decide +kernel) (by decide +kernel)⟩

/-- The table in that case. -/
example : (behind DBusLogServerDbus.klass
      (fun s => DBusLogServerDbus.deliver rootOnly ⟨none, fun _ => []⟩ s ":1.1")
      (DBusLogServerDbus.newFull .system "/logger" ())).client.entryAt 2 =
    some ("app", CategoryFlag.enabled ||| CategoryFlag.enabledByDefault) := by
  decide +kernel

end Link

end DBusLog

import DBusLog.Client.Holdings
import DBusLog.Client.Mirror
import DBusLog.Receiver.Packets
import DBusLog.Server.Announcements

/-!
# The categories of the messages

The id of a category travels on the pipe, its name travels on the bus. A message may come before
the client has heard of its category, or after that is gone and its name has come back. While ids
last, an id stands for one name all along; so the category that the client passes on has the name
under which the message was logged, or there is none.
-/

namespace DBusLog

/-- A message on its way through the pipe of a client, with the name under which it was logged. -/
structure LoggedMessage where
  message : DBusLogMessage
  cname : Option String
  /-- The server had a category under that name then. -/
  registered : Bool
  deriving DecidableEq

/-- A message that has reached the handlers of a client, with the category that they got. -/
structure DeliveredMessage extends LoggedMessage where
  category : Option Nat
  deriving DecidableEq

/-- A server and a client with the pipe from one of the server's senders. That messages which are
not lost reach the client as they are and in their order is a premise here; the bytes of the pipe
are the subject of the sender and the receiver. -/
structure LogStream (Policy β : Type) extends Link Policy β where
  /-- What has been handed to the sender and has not been received, the oldest first. -/
  pipe : List LoggedMessage
  delivered : List DeliveredMessage

/-- What happens next. A message may be lost at any time: the sender has no room for it, or is shut
down before it is written. -/
inductive StreamEvent
  | start
  | stop
  | adjust (op : SettingOp)
  | session (op : SessionOp)
  | getAll
  | getAll2
  | process
  | lose (place : Nat)
  | receive

namespace DBusLogClient

/-- `dbus_log_client_receiver_message`: the category and the message that the handlers get. -/
def receiverMessage (c : DBusLogClient) (msg : DBusLogMessage) : Option Nat × DBusLogMessage :=
  (c.category msg.category, msg)

/-- A category that has the name for which its id has been issued. -/
def Named (names : List String) (id : UInt32) (cat : DBusLogCategory) : Prop :=
  nameOf names id = some cat.name

theorem named_ignoresFlags (names : List String) : IgnoresFlags (Named names) := fun _ _ _ h => h

end DBusLogClient

open DBusLogClient (Named named_ignoresFlags)

/-- The category passed on with a message is none, or has the name under which the message was
logged. It is none if there was no such category then. -/
structure DeliveredMessage.Attributed (memory : List DBusLogCategory) (d : DeliveredMessage) :
    Prop where
  named : ∀ p, d.category = some p → ∃ cat, memory[p]? = some cat ∧ d.cname = some cat.name
  unregistered : d.registered = false → d.category = none

namespace LogStream

variable {Cred Policy β : Type}

/-- Nothing has been sent yet, and the client has not connected. -/
def fresh (server : DBusLogServer Policy β) : LogStream Policy β where
  toLink := Link.start server .new
  pipe := []
  delivered := []

/-- What an operation has handed to the sender, when it has made `s'` of the server `s`. -/
def logged (sender : Nat) (s s' : DBusLogServer Policy β) (op : SessionOp) : List LoggedMessage :=
  match op.cname? with
  | some cname => (s'.core.handed.drop s.core.handed.length).filterMap fun h =>
    if h.1 = sender then
      some ⟨h.2, cname, (cname.bind s.core.categories.lookup).isSome⟩
    else none
  | none => []

section Events

variable (lib : Libraries Cred Policy) (klass : DBusLogServerClass β) (handsOver : Bool)
  (deliver : DBusLogServer Policy β → LoggerCall → Option (Reply × DBusLogServer Policy β))
  (sender : Nat)

/-- One event. -/
def step (l : LogStream Policy β) : StreamEvent → LogStream Policy β
  | .start => { l with server := l.server.start klass }
  | .stop => { l with server := l.server.stop klass }
  | .adjust op => { l with toLink := l.advance (l.server.adjust lib klass op) }
  | .session op =>
    match l.server.sessionStep lib klass handsOver op with
    | some server => { l with
      toLink := l.advance server
      pipe := l.pipe ++ logged sender l.server server op }
    | none => l
  | .getAll => { l with toLink := Link.answer deliver l.toLink .getAll }
  | .getAll2 => { l with toLink := Link.answer deliver l.toLink .getAll2 }
  | .process => { l with toLink := Link.step lib klass l.toLink .process }
  | .lose place => { l with pipe := l.pipe.eraseIdx place }
  | .receive =>
    match l.pipe with
    | logged :: pipe => { l with
      pipe := pipe
      delivered := l.delivered ++ [{ logged with
        category := (l.client.receiverMessage logged.message.received).1 }] }
    | [] => l

/-- One event after another. -/
def run (l : LogStream Policy β) (events : List StreamEvent) : LogStream Policy β :=
  events.foldl (step lib klass handsOver deliver sender) l

/-- How many categories an event creates. -/
def issues (l : LogStream Policy β) : StreamEvent → Nat
  | .adjust op => l.server.issues op
  | .start | .stop | .session _ | .getAll | .getAll2 | .process | .lose _ | .receive => 0

/-- How many categories events create, one after another. -/
def issued (l : LogStream Policy β) : List StreamEvent → Nat
  | [] => 0
  | event :: events => l.issues event +
    issued (l.step lib klass handsOver deliver sender event) events

/-- In every run of a server from `server` on, while ids last, all messages of the client have the
right category. -/
def Attributes (server : DBusLogServer Policy β) (events : List StreamEvent) : Prop :=
  (fresh server).issued lib klass handsOver deliver sender events < 2 ^ 32 - 1 →
    let l := (fresh server).run lib klass handsOver deliver sender events
    ∀ d ∈ l.delivered, d.Attributed l.client.memory

end Events

/-! ## What is on its way -/

/-- A message on the bus agrees with the chronicle. -/
def Truthful (names : List String) : LinkMessage → Prop
  | .signal signal => signal.Adds (Named names)
  | .reply reply => reply.Lists (Named names)

/-- A message in the pipe has an id that stands for the name under which it was logged. -/
structure Marked (names : List String) (m : LoggedMessage) : Prop where
  registered : m.registered = true →
    ∃ name, m.cname = some name ∧ nameOf names m.message.category = some name
  unregistered : m.registered = false → m.message.category = 0

/-- All that the client has or will get agrees with the chronicle. -/
structure Attributing (names : List String) (l : LogStream Policy β) : Prop where
  chronicled : l.server.core.Chronicled names
  wire : ∀ m ∈ l.wire, Truthful names m
  client : DBusLogClient.Holds (Named names) l.client
  pipe : ∀ m ∈ l.pipe, Marked names m
  delivered : ∀ d ∈ l.delivered, d.Attributed l.client.memory

section Growth

variable {names names' : List String} {l : LogStream Policy β}

theorem Truthful.mono {m : LinkMessage} (h : Truthful names m) (hgrown : names <+: names') :
    Truthful names' m := by
  cases m with
  | signal signal =>
    cases signal with
    | categoryAdded name id flags => exact nameOf_mono h hgrown
    | _ => trivial
  | reply reply =>
    cases reply with
    | methodReturn values =>
      intro entries hmem entry hentry
      exact nameOf_mono (h entries hmem entry hentry) hgrown
    | error _ _ => trivial

theorem Marked.mono {m : LoggedMessage} (h : Marked names m) (hgrown : names <+: names') :
    Marked names' m := by
  refine ⟨fun hregistered => ?_, h.unregistered⟩
  obtain ⟨name, hname, hid⟩ := h.registered hregistered
  exact ⟨name, hname, nameOf_mono hid hgrown⟩

theorem holds_mono {c : DBusLogClient} (h : DBusLogClient.Holds (Named names) c)
    (hgrown : names <+: names') : DBusLogClient.Holds (Named names') c := by
  intro e he
  obtain ⟨cat, hcat, hnamed⟩ := h e he
  exact ⟨cat, hcat, nameOf_mono hnamed hgrown⟩

/-- A signal about a category that has just got its id. -/
theorem truthful_of_issued {signal : BusSignal} (h : signal.Issued names names') :
    Truthful names' (.signal signal) := by
  cases signal with
  | categoryAdded name id flags => exact h.2
  | _ => trivial

/-- The server has moved on, and what it has sent is on its way. -/
theorem Attributing.advance (h : Attributing names l) {server : DBusLogServer Policy β}
    (hrecorded : DBusLogServer.Recorded names l.server names' server) :
    Attributing names' { l with toLink := l.advance server } := by
  obtain ⟨sent, hsent, hissued⟩ := hrecorded.sent
  refine ⟨hrecorded.chronicled, fun m hm => ?_, holds_mono h.client hrecorded.grown,
    fun m hm => (h.pipe m hm).mono hrecorded.grown, h.delivered⟩
  change m ∈ l.wire ++ (server.sent.drop l.server.sent.length).map .signal at hm
  rw [hsent, List.drop_left] at hm
  obtain hold | hnew := List.mem_append.mp hm
  · exact (h.wire m hold).mono hrecorded.grown
  · obtain ⟨signal, hsignal, rfl⟩ := List.mem_map.mp hnew
    exact truthful_of_issued (hissued signal hsignal)

end Growth

/-! ## Replies -/

section Replies

variable {names : List String} {ctx : ServerContext} {caller : String}

/-- The back end answers GetAll and GetAll2 as the interface describes, if it answers. -/
def Describes (lib : Libraries Cred Policy) (klass : DBusLogServerClass β) (ctx : ServerContext)
    (caller : String) (deliver : DBusLogServer Policy β → LoggerCall →
      Option (Reply × DBusLogServer Policy β)) : Prop :=
  ∀ s call, call = .getAll ∨ call = .getAll2 →
    deliver s call = none ∨
      deliver s call = some (DBusLogServer.perform lib klass ctx s caller call)

theorem describes_dbus (lib : Libraries Cred Policy) (ctx : ServerContext) (caller : String) :
    Describes lib DBusLogServerDbus.klass ctx caller
      fun s => DBusLogServerDbus.deliver lib ctx s caller := by
  intro s call hcall
  by_cases hfiltering : s.backend.filtering = true
  · by_cases hstarted : s.started = true
    · refine .inr ((DBusLogServerDbus.deliver_eq hstarted hfiltering call).trans ?_)
      obtain rfl | rfl := hcall
      · rfl
      · rfl
    · refine .inl ?_
      change DBusLogServerDbus.deliver lib ctx s caller call = none
      have hignored : DBusLogServerDbus.filter lib ctx s
          (DBusLogServerDbus.message s.path caller call) = (.notYetHandled, s) := by
        unfold DBusLogServerDbus.filter
        obtain rfl | rfl := hcall
        · exact if_neg fun h => hstarted h.1
        · exact if_neg fun h => hstarted h.1
      unfold DBusLogServerDbus.deliver
      rw [if_pos hfiltering, hignored]
  · exact .inl (if_neg hfiltering)

theorem describes_gio (lib : Libraries Cred Policy) (ctx : ServerContext) (caller : String) :
    Describes lib DBusLogServerGio.klass ctx caller
      fun s => DBusLogServerGio.deliver lib ctx s caller := by
  intro s call hcall
  by_cases hexported : s.backend.skeletonExported = true
  · refine .inr ((DBusLogServerGio.deliver_eq hexported call).trans ?_)
    obtain rfl | rfl := hcall
    · rfl
    · rfl
  · exact .inl (if_neg hexported)

/-- A snapshot tells the names that the ids stand for. -/
theorem lists_categoryEntries {c : DBusLogCore} (h : c.Chronicled names) {values : List ReplyValue}
    (hvalues : ∀ entries, .categories entries ∈ values → entries = c.categoryEntries) :
    (Reply.methodReturn values).Lists (Named names) := by
  intro entries hmem entry hentry
  rw [hvalues entries hmem] at hentry
  obtain ⟨cat, hcat, rfl⟩ := List.mem_map.mp hentry
  exact h.named cat ((List.mem_insertionSort _).mp hcat)

theorem Attributing.answer {lib : Libraries Cred Policy} {klass : DBusLogServerClass β}
    {deliver : DBusLogServer Policy β → LoggerCall → Option (Reply × DBusLogServer Policy β)}
    {l : LogStream Policy β} (h : Attributing names l)
    (hdescribes : Describes lib klass ctx caller deliver) {call : LoggerCall}
    (hcall : call = .getAll ∨ call = .getAll2) :
    Attributing names { l with toLink := Link.answer deliver l.toLink call } := by
  obtain ⟨values, hperform, hvalues⟩ : ∃ values,
      DBusLogServer.perform lib klass ctx l.server caller call = (.methodReturn values, l.server) ∧
      ∀ entries, .categories entries ∈ values → entries = l.server.core.categoryEntries := by
    obtain rfl | rfl := hcall
    · exact ⟨_, rfl, fun entries hmem => by simpa using hmem⟩
    · exact ⟨_, rfl, fun entries hmem => by simpa using hmem⟩
  obtain hnone | hsome := hdescribes l.server call hcall
  · unfold Link.answer
    rw [hnone]
    exact h
  · unfold Link.answer
    rw [hsome, hperform]
    have hadvanced := h.advance (DBusLogServer.Recorded.refl h.chronicled)
    refine ⟨h.chronicled, fun m hm => ?_, h.client, h.pipe, h.delivered⟩
    obtain hold | hnew := List.mem_append.mp hm
    · exact hadvanced.wire m hold
    · rw [List.mem_singleton.mp hnew]
      exact lists_categoryEntries h.chronicled hvalues

end Replies

/-! ## Steps -/

section Steps

variable {lib : Libraries Cred Policy} {klass : DBusLogServerClass β} {handsOver : Bool}
  {deliver : DBusLogServer Policy β → LoggerCall → Option (Reply × DBusLogServer Policy β)}
  {sender : Nat} {ctx : ServerContext} {caller : String} {names names' : List String}
  {l : LogStream Policy β}

/-- Only the core of the server matters for what is on its way. -/
theorem Attributing.of_core (h : Attributing names l) {server : DBusLogServer Policy β}
    (hcore : server.core = l.server.core) : Attributing names { l with server := server } :=
  ⟨hcore ▸ h.chronicled, h.wire, h.client, h.pipe, h.delivered⟩

/-- What a log call puts into the pipe. -/
theorem logged_marked {s s' : DBusLogServer Policy β} {op : SessionOp}
    (h : s.core.Chronicled names) (hstep : s.sessionStep lib klass handsOver op = some s')
    (sender : Nat) : ∀ m ∈ logged sender s s' op, Marked names m := by
  intro m hm
  unfold logged at hm
  cases hcname : op.cname? with
  | none =>
    rw [hcname] at hm
    cases hm
  | some cname =>
    rw [hcname] at hm
    obtain ⟨more, hmore, hid⟩ := (DBusLogServer.sessionStep_hands hcname hstep).handed
    rw [hmore, List.drop_left] at hm
    obtain ⟨handed, hmem, heq⟩ := List.mem_filterMap.mp hm
    split at heq
    · cases heq
      have hcategory : handed.2.category = s.core.categoryId cname := hid handed hmem
      refine ⟨fun hregistered => ?_, fun hunregistered => ?_⟩
      · rw [hcategory]
        exact h.nameOf_categoryId hregistered
      · rw [hcategory]
        exact DBusLogCore.categoryId_of_unregistered hunregistered
    · cases heq

/-- The client processes a message of the bus. -/
theorem Attributing.process (h : Attributing names l) {message : LinkMessage}
    {wire : List LinkMessage} {processed : Nat} (hwire : l.wire = message :: wire) :
    Attributing names { l with
      wire := wire
      client := l.client.process message
      processed := processed } := by
  have htrue : Truthful names message := h.wire message (hwire ▸ List.mem_cons_self)
  have hevolves : DBusLogClient.Evolves (Named names) l.client.memory l.client.table
      (l.client.process message).memory (l.client.process message).table := by
    cases message with
    | signal signal => exact DBusLogClient.handle_evolves (named_ignoresFlags names) l.client htrue
    | reply reply =>
      exact DBusLogClient.getAllFinished_evolves (named_ignoresFlags names) l.client htrue
  refine ⟨h.chronicled, fun m hm => h.wire m (hwire ▸ List.mem_cons_of_mem message hm),
    h.client.evolves (named_ignoresFlags names) hevolves, h.pipe, fun d hd => ?_⟩
  -- the objects that have been passed on keep their names
  refine ⟨fun p hp => ?_, (h.delivered d hd).unregistered⟩
  obtain ⟨cat, hcat, hname⟩ := (h.delivered d hd).named p hp
  obtain ⟨flags, hcat'⟩ := hevolves.objects p cat hcat
  exact ⟨_, hcat', hname⟩

/-- The category of a message that comes out of the pipe. -/
theorem Attributing.receive (h : Attributing names l) {m : LoggedMessage}
    (hm : Marked names m) : DeliveredMessage.Attributed l.client.memory
      { m with category := (l.client.receiverMessage m.message.received).1 } := by
  have hid : m.message.received.category = m.message.category := rfl
  unfold DBusLogClient.receiverMessage
  rw [hid]
  refine ⟨fun p hp => ?_, fun hunregistered => ?_⟩
  · obtain ⟨cat, hcat, hnamed⟩ := h.client.category hp
    -- the client knows the id by the name that it has been issued for
    cases hregistered : m.registered with
    | true =>
      obtain ⟨name, hname, hcategory⟩ := hm.registered hregistered
      refine ⟨cat, hcat, ?_⟩
      rw [← hnamed, hcategory]
      exact hname
    | false =>
      -- the client has no category under the id 0
      rw [hm.unregistered hregistered] at hp
      cases hp
  · dsimp only
    rw [hm.unregistered hunregistered]
    rfl

/-- Step lemma: the chronicle grows by the categories that are created. -/
theorem step_attributing (hrelays : DBusLogServer.Relays klass)
    (hdescribes : Describes lib klass ctx caller deliver) (h : Attributing names l)
    (event : StreamEvent) (hroom : names.length + l.issues event < 2 ^ 32) :
    ∃ names', names'.length = names.length + l.issues event ∧
      Attributing names' (l.step lib klass handsOver deliver sender event) := by
  cases event with
  | start => exact ⟨names, rfl, h.of_core (DBusLogServer.start_core klass l.server)⟩
  | stop => exact ⟨names, rfl, h.of_core (DBusLogServer.stop_core klass l.server)⟩
  | adjust op =>
    obtain ⟨names', hlength, hrecorded⟩ :=
      DBusLogServer.adjust_recorded hrelays lib h.chronicled op hroom
    exact ⟨names', hlength, h.advance hrecorded⟩
  | session op =>
    refine ⟨names, rfl, ?_⟩
    unfold step
    dsimp only
    cases hstep : l.server.sessionStep lib klass handsOver op with
    | none => exact h
    | some server =>
      obtain ⟨hsettings, hsent⟩ := DBusLogServer.sessionStep_silent hstep
      have hadvanced := h.advance (.of_settings h.chronicled hsettings hsent)
      refine ⟨hadvanced.chronicled, hadvanced.wire, hadvanced.client, fun m hm => ?_,
        hadvanced.delivered⟩
      obtain hold | hnew := List.mem_append.mp hm
      · exact h.pipe m hold
      · exact logged_marked h.chronicled hstep sender m hnew
  | getAll => exact ⟨names, rfl, h.answer hdescribes (.inl rfl)⟩
  | getAll2 => exact ⟨names, rfl, h.answer hdescribes (.inr rfl)⟩
  | process =>
    refine ⟨names, rfl, ?_⟩
    unfold step Link.step
    dsimp only
    cases hwire : l.wire with
    | nil => exact h
    | cons message wire => exact h.process hwire
  | lose place =>
    exact ⟨names, rfl, h.chronicled, h.wire, h.client,
      fun m hm => h.pipe m (List.mem_of_mem_eraseIdx hm), h.delivered⟩
  | receive =>
    refine ⟨names, rfl, ?_⟩
    unfold step
    dsimp only
    cases hpipe : l.pipe with
    | nil => exact h
    | cons m pipe =>
      refine ⟨h.chronicled, h.wire, h.client,
        fun other hother => h.pipe other (hpipe ▸ List.mem_cons_of_mem m hother), fun d hd => ?_⟩
      obtain hold | hnew := List.mem_append.mp hd
      · exact h.delivered d hold
      · rw [List.mem_singleton.mp hnew]
        exact h.receive (h.pipe m (hpipe ▸ List.mem_cons_self))

/-- Run lemma. -/
theorem run_attributing (hrelays : DBusLogServer.Relays klass)
    (hdescribes : Describes lib klass ctx caller deliver) (h : Attributing names l)
    (events : List StreamEvent)
    (hroom : names.length + l.issued lib klass handsOver deliver sender events < 2 ^ 32) :
    ∃ names', Attributing names' (l.run lib klass handsOver deliver sender events) := by
  induction events generalizing l names with
  | nil => exact ⟨names, h⟩
  | cons event events ih =>
    change names.length + (l.issues event + issued lib klass handsOver deliver sender
      (l.step lib klass handsOver deliver sender event) events) < 2 ^ 32 at hroom
    obtain ⟨names', hlength, hnext⟩ := step_attributing hrelays hdescribes h event (by omega)
    exact ih hnext (by omega)

/-- A fresh server, which has issued no id, and a client that knows none. -/
theorem attributes_fresh (hrelays : DBusLogServer.Relays klass)
    (hdescribes : Describes lib klass ctx caller deliver) {server : DBusLogServer Policy β}
    (hnew : server.core = DBusLogCore.new 0 true) (events : List StreamEvent) :
    Attributes lib klass handsOver deliver sender server events := by
  intro hroom
  have hchronicled : server.core.Chronicled [] := by
    rw [hnew]
    exact DBusLogCore.chronicled_new 0 true
  have hfresh : Attributing [] (fresh server) :=
    ⟨hchronicled, fun _ hm => (nomatch hm), fun _ he => (nomatch he), fun _ hm => (nomatch hm),
      fun _ hd => (nomatch hd)⟩
  obtain ⟨names, hafter⟩ := run_attributing hrelays hdescribes hfresh events (by
    change 0 + (fresh server).issued lib klass handsOver deliver sender events < 2 ^ 32
    omega)
  exact hafter.delivered

end Steps

/-- No misattributed message, for both back ends: the server goes through operations, sessions and
log calls in any order, it answers the client at any time, and the client processes what comes over
the bus and receives what comes through the pipe of the sender, each in order and independently of
the other. While ids last, the category of each message that it delivers has the name under which
the message was logged, or is none; it is none for a message without a category of the server. -/
theorem messageAttribution (lib : Libraries Cred Policy) (ctx : ServerContext) (bus : DABus)
    (path : String) (policy : Policy) (caller : String) (sender : Nat)
    (events : List StreamEvent) :
    Attributes lib DBusLogServerDbus.klass false
        (fun s => DBusLogServerDbus.deliver lib ctx s caller) sender
        (DBusLogServerDbus.newFull bus path policy) events ∧
      Attributes lib DBusLogServerGio.klass true
        (fun s => DBusLogServerGio.deliver lib ctx s caller) sender
        (DBusLogServerGio.newServer bus path policy) events := by
  exact ⟨attributes_fresh DBusLogServer.relays_dbus (describes_dbus lib ctx caller) rfl events,
    attributes_fresh DBusLogServer.relays_gio (describes_gio lib ctx caller) rfl events⟩

section Returning

variable {β : Type} (klass : DBusLogServerClass β) (handsOver : Bool)
  (deliver : DBusLogServer Unit β → LoggerCall → Option (Reply × DBusLogServer Unit β))
  (server : DBusLogServer Unit β)

/-- A log call of the main thread while the channel takes nothing. -/
def logCall (cname : String) : StreamEvent :=
  .session (.log ⟨false, 1, fun _ => []⟩ Level.info (some cname) (some [65]))

/-- The category net is there when the client connects. It gets a message, is removed and comes
back, and gets another message. The client receives the first message when it knows that the
category is gone, and the second one when it knows the new one. The name app has no category. -/
def returningEvents : List StreamEvent :=
  [.start, .adjust (.category (.addCategory "net" Level.undefined CategoryFlag.enabled)),
    .session (.logOpen ⟨some (3, 4), fun _ => []⟩ ":1.1"), .getAll2, .process, .process,
    logCall "net", .adjust (.category (.removeCategory "net")),
    .adjust (.category (.addCategory "net" Level.undefined CategoryFlag.enabled)),
    .process, logCall "net", logCall "app", .receive, .process, .receive, .receive]

/-- The client has received everything. -/
def returning : LogStream Unit β :=
  (fresh server).run rootOnly klass handsOver deliver 0 returningEvents

/-- The first message has come without a category, though the name has one again, and the second
one with the new category. -/
def Returned (l : LogStream Unit β) : Prop :=
  l.delivered.map (fun d => (d.cname, d.registered, d.category)) =
      [(some "net", true, none), (some "net", true, some 1), (some "app", false, none)] ∧
    ∀ d ∈ l.delivered, d.Attributed l.client.memory

end Returning

/-- What the client delivers in that case. -/
theorem messageAttribution_returning :
    Returned (returning DBusLogServerDbus.klass false
        (fun s => DBusLogServerDbus.deliver rootOnly ⟨none, fun _ => []⟩ s ":1.1")
        (DBusLogServerDbus.newFull .system "/logger" ())) ∧
      Returned (returning DBusLogServerGio.klass true
        (fun s => DBusLogServerGio.deliver rootOnly ⟨none, fun _ => []⟩ s ":1.1")
        (DBusLogServerGio.newServer .system "/logger" ())) := by
  obtain ⟨hdbus, hgio⟩ := messageAttribution rootOnly ⟨none, fun _ => []⟩ .system "/logger" ()
    ":1.1" 0 returningEvents
  exact ⟨⟨by decide +kernel, hdbus (by decide +kernel)⟩, by decide +kernel,
    hgio (by decide +kernel)⟩

end LogStream

end DBusLog

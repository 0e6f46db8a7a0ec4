import DBusLog.Server.Sessions
import DBusLog.Server.Twin
import Mathlib.Data.List.Induction

/-!
# Two libdbus servers on one connection

Both servers add the same filter to the connection, and libdbus runs the filters in the order in
which they have been added, until one of them claims the message. The filter does not look at the
path of a method call, and it claims every notification of a name that has lost its owner. So the
first server takes calls that are for the second one, and keeps such notifications from it.
-/

namespace DBusLog

open DBusLogServer (Kept perform)

namespace DBusLogServerDbus

variable {Cred Policy : Type} {lib : Libraries Cred Policy} {ctx : ServerContext}
  {s : DBusLogServer Policy DBusLogServerDbus} {msg : DBusMessage}

/-! ## What the filter claims -/

/-- It is a call of a method in the table. -/
def CallsMethod (lib : Libraries Cred Policy) (msg : DBusMessage) : Prop :=
  msg.interface = loggerInterface ∧
    ∃ m ∈ methods lib, msg.member = m.1 ∧ msg.signature = m.2.1

/-- The methods that only look. -/
def queries : List String := ["GetInterfaceVersion", "GetAll", "GetAll2"]

/-- It is a call of a method that may change a server. -/
def CallsSetter (lib : Libraries Cred Policy) (msg : DBusMessage) : Prop :=
  CallsMethod lib msg ∧ msg.member ∉ queries

/-- The name in the arguments of a notification, if it has no owner any more. -/
def lostOwner? (msg : DBusMessage) : Option String :=
  match msg.args with
  | .string name :: .string _ :: .string new :: _ => if new = "" then some name else none
  | _ => none

/-- The name that has lost its owner, if the message is a notification of that. -/
def lostName? (msg : DBusMessage) : Option String :=
  if msg.interface = dbusInterface ∧ msg.signature = "sss" ∧ msg.member = "NameOwnerChanged" then
    lostOwner? msg
  else none

theorem handleNameOwnerChanged_eq : handleNameOwnerChanged ctx s msg =
    match lostOwner? msg with
    | some name => (true, match s.backend.nameWatchTable.lookup name with
      | some (_, watch) => watchVanished ctx s watch
      | none => s)
    | none => (false, s) := by
  unfold handleNameOwnerChanged
  split
  · next name old new rest hargs =>
    have hlost : lostOwner? msg = if new = "" then some name else none := by
      unfold lostOwner?
      rw [hargs]
    generalize lostOwner? msg = lost at hlost ⊢
    by_cases hnew : new = ""
    · cases hlost.trans (if_pos hnew)
      exact if_pos hnew
    · cases hlost.trans (if_neg hnew)
      exact if_neg hnew
  · next hother =>
    have hlost : lostOwner? msg = none := by
      unfold lostOwner?
      split
      · next hargs => exact absurd hargs (hother _ _ _ _)
      · rfl
    rw [hlost]

/-- The server is left alone, or one of the calls is performed. -/
def Performs (lib : Libraries Cred Policy) (ctx : ServerContext)
    (s s' : DBusLogServer Policy DBusLogServerDbus) : Prop :=
  s' = s ∨ ∃ sender call, s' = (perform lib klass ctx s sender call).2

theorem handleSetDefaultLevel_performs :
    Performs lib ctx s (handleSetDefaultLevel lib ctx s msg).2 := by
  unfold handleSetDefaultLevel
  split
  · next level _ _ => exact .inr ⟨msg.sender, .setDefaultLevel level, rfl⟩
  · exact .inl rfl

theorem handleSetCategoryLevel_performs :
    Performs lib ctx s (handleSetCategoryLevel lib ctx s msg).2 := by
  unfold handleSetCategoryLevel
  split
  · next name level _ _ => exact .inr ⟨name, .setCategoryLevel msg.sender level, rfl⟩
  · exact .inl rfl

theorem handleLogOpen_performs : Performs lib ctx s (handleLogOpen lib ctx s msg).2 :=
  .inr ⟨msg.sender, .logOpen, handleLogOpen_snd lib ctx s msg⟩

theorem setEnabled_performs (enable : Bool) :
    Performs lib ctx s (setEnabled lib s msg enable).2 := by
  cases enable with
  | true => exact .inr ⟨msg.sender, .categoryEnable _, rfl⟩
  | false => exact .inr ⟨msg.sender, .categoryDisable _, rfl⟩

theorem setEnabledPattern_performs (enable : Bool) :
    Performs lib ctx s (setEnabledPattern lib s msg enable).2 := by
  unfold setEnabledPattern
  split
  · next pattern _ _ =>
    cases enable with
    | true => exact .inr ⟨msg.sender, .categoryEnablePattern pattern, rfl⟩
    | false => exact .inr ⟨msg.sender, .categoryDisablePattern pattern, rfl⟩
  · exact .inl rfl

theorem handleSetBacklog_performs : Performs lib ctx s (handleSetBacklog lib ctx s msg).2 := by
  unfold handleSetBacklog
  split
  · next backlog _ _ => exact .inr ⟨msg.sender, .setBacklog backlog, rfl⟩
  · exact .inl rfl

theorem handler_performs {m : String × String × Handler Policy} (hm : m ∈ methods lib) :
    Performs lib ctx s (m.2.2 ctx s msg).2 := by
  simp only [methods, List.mem_cons, List.not_mem_nil, or_false] at hm
  obtain rfl | rfl | rfl | rfl | rfl | rfl | rfl | rfl | rfl | rfl | rfl | rfl := hm
  · exact .inl rfl
  · exact .inl rfl
  · exact .inl rfl
  · exact handleSetDefaultLevel_performs
  · exact handleSetCategoryLevel_performs
  · exact handleLogOpen_performs
  · exact .inr ⟨msg.sender, .logClose _, rfl⟩
  · exact setEnabled_performs true
  · exact setEnabledPattern_performs true
  · exact setEnabled_performs false
  · exact setEnabledPattern_performs false
  · exact handleSetBacklog_performs

theorem handler_query {m : String × String × Handler Policy} (hm : m ∈ methods lib)
    (hquery : m.1 ∈ queries) : (m.2.2 ctx s msg).2 = s := by
  simp only [methods, List.mem_cons, List.not_mem_nil, or_false] at hm
  obtain rfl | rfl | rfl | hm := hm
  · rfl
  · rfl
  · rfl
  · exfalso
    revert hquery
    obtain rfl | rfl | rfl | rfl | rfl | rfl | rfl | rfl | rfl := hm <;> simp [queries]

/-- A method call to a started server. -/
theorem filter_call (lib : Libraries Cred Policy) (ctx : ServerContext)
    (hstarted : s.started = true) (htype : msg.type = .methodCall) :
    (CallsMethod lib msg ∧ (∃ reply, (filter lib ctx s msg).1 = .handled reply) ∧
      ∃ m ∈ methods lib, msg.member = m.1 ∧ (filter lib ctx s msg).2 = (m.2.2 ctx s msg).2) ∨
    (¬CallsMethod lib msg ∧ filter lib ctx s msg = (.notYetHandled, s)) := by
  unfold filter
  rw [htype]
  dsimp only
  by_cases hinterface : msg.interface = loggerInterface
  · rw [if_pos ⟨hstarted, hinterface⟩]
    cases hfind : (methods lib).find? fun m => msg.member = m.1 ∧ msg.signature = m.2.1 with
    | none =>
      refine .inr ⟨?_, rfl⟩
      rintro ⟨_, m, hm, hmatch⟩
      exact absurd (decide_eq_true hmatch) (List.find?_eq_none.mp hfind m hm)
    | some m =>
      have hm := List.mem_of_find?_eq_some hfind
      have hmatch : msg.member = m.1 ∧ msg.signature = m.2.1 := by simpa using List.find?_some hfind
      exact .inl ⟨⟨hinterface, m, hm, hmatch⟩, ⟨_, rfl⟩, m, hm, hmatch.1, rfl⟩
  · rw [if_neg fun hboth => hinterface hboth.2]
    exact .inr ⟨fun hcalls => hinterface hcalls.1, rfl⟩

/-- A call that sets nothing. -/
theorem filter_query (hstarted : s.started = true) (htype : msg.type = .methodCall)
    (hquery : ¬CallsSetter lib msg) : (filter lib ctx s msg).2 = s := by
  obtain ⟨hcalls, _, m, hm, hmember, he⟩ | ⟨_, he⟩ :=
    filter_call lib ctx hstarted htype
  · rw [he]
    refine handler_query hm ?_
    by_contra hsetter
    exact hquery ⟨hcalls, hmember ▸ hsetter⟩
  · rw [he]

/-- A signal. -/
theorem filter_signal (lib : Libraries Cred Policy) (ctx : ServerContext)
    (s : DBusLogServer Policy DBusLogServerDbus) (htype : msg.type = .signal) :
    (∃ name, lostName? msg = some name ∧ (filter lib ctx s msg).1 = .handled none ∧
      (s.backend.nameWatchTable.lookup name = none → (filter lib ctx s msg).2 = s)) ∨
    (lostName? msg = none ∧ filter lib ctx s msg = (.notYetHandled, s)) := by
  unfold filter lostName?
  rw [htype]
  dsimp only
  by_cases hmatch : msg.interface = dbusInterface ∧ msg.signature = "sss" ∧
      msg.member = "NameOwnerChanged"
  · rw [if_pos hmatch, if_pos hmatch, handleNameOwnerChanged_eq]
    cases lostOwner? msg with
    | none => exact .inr ⟨rfl, rfl⟩
    | some name =>
      refine .inl ⟨name, rfl, rfl, fun hnone => ?_⟩
      dsimp only
      rw [hnone]
  · rw [if_neg hmatch, if_neg hmatch]
    exact .inr ⟨rfl, rfl⟩

/-- Messages do not stop a server. -/
theorem filter_started : (filter lib ctx s msg).2.started = s.started := by
  cases htype : msg.type with
  | methodCall =>
    unfold filter
    rw [htype]
    dsimp only
    split
    · split
      · next m _ fn hfind =>
        have hkept : Kept (fun _ => True) s (fn ctx s msg).2 := by
          have hperforms : Performs lib ctx s (fn ctx s msg).2 :=
            handler_performs (List.mem_of_find?_eq_some hfind)
          obtain hsame | ⟨sender, call, he⟩ := hperforms
          · rw [hsame]
            exact Kept.refl _ s
          · rw [he]
            exact Kept.perform (fun _ _ _ => trivial) (fun _ _ _ => trivial) sender call
        exact hkept.started
      · rfl
    · rfl
  | signal =>
    have hvanished : ∀ watch, (watchVanished ctx s watch).started = s.started := by
      intro watch
      unfold watchVanished
      split
      · split
        · rfl
        · have hkept : ∀ t : DBusLogServer Policy DBusLogServerDbus, ∀ name,
              Kept (fun _ => True) t (t.removePeer klass ctx name) := fun t name =>
            Kept.removePeer (fun _ _ _ => trivial) name
          exact (hkept _ _).started
      · rfl
    unfold filter
    rw [htype, handleNameOwnerChanged_eq]
    dsimp only
    split
    · cases lostOwner? msg with
      | none => rfl
      | some name =>
        dsimp only
        split
        · exact hvanished _
        · rfl
    · rfl

end DBusLogServerDbus

open DBusLogServerDbus

/-! ## Side by side -/

/-- The servers on one connection, in the order of their filters. -/
structure Neighbours (Policy : Type) where
  first : DBusLogServer Policy DBusLogServerDbus
  second : DBusLogServer Policy DBusLogServerDbus

/-- A message, and what the operating system does for each server while it handles it. -/
structure Delivery where
  first : ServerContext
  second : ServerContext
  msg : DBusMessage

namespace Neighbours

variable {Cred Policy : Type} (lib : Libraries Cred Policy)

/-- libdbus runs the filters until one of them claims the message. -/
def deliver (n : Neighbours Policy) (d : Delivery) : Neighbours Policy :=
  match filter lib d.first n.first d.msg with
  | (.handled _, first) => { n with first := first }
  | (.notYetHandled, first) => ⟨first, (filter lib d.second n.second d.msg).2⟩

def deliverAll (n : Neighbours Policy) (ds : List Delivery) : Neighbours Policy :=
  ds.foldl (deliver lib) n

/-- A server on a connection of its own, which gets the signals and the calls to its path. -/
def alone (path : String) (ctx : ServerContext) (s : DBusLogServer Policy DBusLogServerDbus)
    (msg : DBusMessage) : DBusLogServer Policy DBusLogServerDbus :=
  if msg.type = .methodCall ∧ msg.path ≠ path then s else (filter lib ctx s msg).2

/-- What the first server would be if there were no second one. -/
def firstAlone (n : Neighbours Policy) (ds : List Delivery) :
    DBusLogServer Policy DBusLogServerDbus :=
  ds.foldl (fun s d => alone lib n.first.path d.first s d.msg) n.first

/-- What the second server would be if there were no first one. -/
def secondAlone (n : Neighbours Policy) (ds : List Delivery) :
    DBusLogServer Policy DBusLogServerDbus :=
  ds.foldl (fun s d => alone lib n.second.path d.second s d.msg) n.second

/-- The message is not one that the first filter takes away from the second server: a call of a
setter that is for another path, or the loss of a name that the second server watches. -/
def Separable (firstPath : String) (second : DBusLogServer Policy DBusLogServerDbus)
    (msg : DBusMessage) : Prop :=
  (msg.type = .methodCall → CallsSetter lib msg → msg.path = firstPath) ∧
    (msg.type = .signal → ∀ name, lostName? msg = some name →
      second.backend.nameWatchTable.lookup name = none)

variable {lib} {n : Neighbours Policy} {d : Delivery}

theorem deliver_handled {reply : Option Reply}
    (h : (filter lib d.first n.first d.msg).1 = .handled reply) :
    deliver lib n d = { n with first := (filter lib d.first n.first d.msg).2 } := by
  unfold deliver
  generalize filter lib d.first n.first d.msg = result at h
  obtain ⟨_, first⟩ := result
  cases h
  rfl

theorem deliver_passed {first : DBusLogServer Policy DBusLogServerDbus}
    (h : filter lib d.first n.first d.msg = (.notYetHandled, first)) :
    deliver lib n d = ⟨first, (filter lib d.second n.second d.msg).2⟩ := by
  unfold deliver
  rw [h]

theorem deliver_started (lib : Libraries Cred Policy) (n : Neighbours Policy) (d : Delivery) :
    (deliver lib n d).first.started = n.first.started ∧
    (deliver lib n d).second.started = n.second.started := by
  have hfirst : (filter lib d.first n.first d.msg).2.started = n.first.started := filter_started
  cases he : filter lib d.first n.first d.msg with
  | mk result first =>
    rw [he] at hfirst
    cases result with
    | handled reply =>
      have hhandled : (filter lib d.first n.first d.msg).1 = .handled reply := by rw [he]
      rw [deliver_handled hhandled, he]
      exact ⟨hfirst, rfl⟩
    | notYetHandled =>
      rw [deliver_passed he]
      exact ⟨hfirst, filter_started⟩

/-- A call of a method that is for another server. -/
theorem filter_elsewhere {firstPath : String} {ctx : ServerContext}
    {s second : DBusLogServer Policy DBusLogServerDbus} (hstarted : s.started = true)
    (h : Separable lib firstPath second d.msg) (htype : d.msg.type = .methodCall)
    (hpath : d.msg.path ≠ firstPath) : (filter lib ctx s d.msg).2 = s :=
  filter_query hstarted htype fun hsetter => hpath (h.1 htype hsetter)

/-- Step lemma. -/
theorem deliver_separable {firstPath secondPath : String} (hpaths : firstPath ≠ secondPath)
    (hfirst : n.first.started = true) (hsecond : n.second.started = true)
    (h : Separable lib firstPath n.second d.msg) :
    (deliver lib n d).first = alone lib firstPath d.first n.first d.msg ∧
      (deliver lib n d).second = alone lib secondPath d.second n.second d.msg := by
  unfold alone
  cases htype : d.msg.type with
  | methodCall =>
    obtain ⟨_, ⟨reply, hhandled⟩, _⟩ | ⟨hother, he⟩ :=
      filter_call lib d.first hfirst htype
    · -- the first filter claims it, whoever it is for
      rw [deliver_handled hhandled]
      constructor
      · by_cases hpath : d.msg.path = firstPath
        · rw [if_neg fun hboth => hboth.2 hpath]
        · rw [if_pos ⟨rfl, hpath⟩]
          exact filter_elsewhere hfirst h htype hpath
      · by_cases hpath : d.msg.path = secondPath
        · rw [if_neg fun hboth => hboth.2 hpath]
          refine (filter_elsewhere hsecond h htype ?_).symm
          rw [hpath]
          exact hpaths.symm
        · rw [if_pos ⟨rfl, hpath⟩]
    · obtain ⟨hcalls, _⟩ | ⟨_, he'⟩ :=
        filter_call lib d.second hsecond htype
      · exact absurd hcalls hother
      · rw [deliver_passed he, he, he']
        exact ⟨(ite_self _).symm, (ite_self _).symm⟩
  | signal =>
    have hnocall : ∀ path, ¬(DBusMessageType.signal = .methodCall ∧ d.msg.path ≠ path) := by
      intro path hboth
      cases hboth.1
    rw [if_neg (hnocall firstPath), if_neg (hnocall secondPath)]
    obtain ⟨name, hname, hhandled, _⟩ | ⟨_, he⟩ :=
      filter_signal lib d.first n.first htype
    · rw [deliver_handled hhandled]
      refine ⟨rfl, ?_⟩
      obtain ⟨other, hother, _, hquiet⟩ | ⟨hnone, _⟩ :=
        filter_signal lib d.second n.second htype
      · exact (hquiet (h.2 htype other hother)).symm
      · cases hname.symm.trans hnone
    · rw [deliver_passed he, he]
      exact ⟨rfl, rfl⟩

theorem deliverAll_append (lib : Libraries Cred Policy) (n : Neighbours Policy)
    (ds : List Delivery) (d : Delivery) :
    deliverAll lib n (ds ++ [d]) = deliver lib (deliverAll lib n ds) d := List.foldl_append

theorem deliverAll_started (lib : Libraries Cred Policy) (n : Neighbours Policy)
    (ds : List Delivery) :
    (deliverAll lib n ds).first.started = n.first.started ∧
      (deliverAll lib n ds).second.started = n.second.started := by
  induction ds using List.reverseRecOn with
  | nil => exact ⟨rfl, rfl⟩
  | append_singleton ds d ih =>
    rw [deliverAll_append]
    obtain ⟨hfirst, hsecond⟩ := deliver_started lib (deliverAll lib n ds) d
    exact ⟨hfirst.trans ih.1, hsecond.trans ih.2⟩

/-- Run lemma. -/
theorem deliverAll_separable (hpaths : n.first.path ≠ n.second.path)
    (hfirst : n.first.started = true) (hsecond : n.second.started = true) {ds : List Delivery}
    (h : ∀ before d after, before ++ d :: after = ds →
      Separable lib n.first.path (deliverAll lib n before).second d.msg) :
    (deliverAll lib n ds).first = firstAlone lib n ds ∧
      (deliverAll lib n ds).second = secondAlone lib n ds := by
  induction ds using List.reverseRecOn with
  | nil => exact ⟨rfl, rfl⟩
  | append_singleton ds d ih =>
    obtain ⟨hfirst', hsecond'⟩ := deliverAll_started lib n ds
    obtain ⟨hone, hother⟩ := ih fun before d' after hsplit => h before d' (after ++ [d]) (by
      rw [← hsplit, List.append_assoc]
      rfl)
    obtain ⟨hstep, hstep'⟩ := deliver_separable (n := deliverAll lib n ds) hpaths
      (hfirst'.trans hfirst) (hsecond'.trans hsecond) (h ds d [] rfl)
    rw [deliverAll_append, hstep, hstep', hone, hother]
    unfold firstAlone secondAlone
    rw [List.foldl_append, List.foldl_append]
    exact ⟨rfl, rfl⟩

/-- Two servers on one connection. As long as no call of a setter is for the second server, and no
name that the second server watches loses its owner, the servers are what they would be without
each other, and a call changes the server that it is for at most. -/
theorem neighboursIndependent (lib : Libraries Cred Policy) (n : Neighbours Policy)
    (hpaths : n.first.path ≠ n.second.path) (hfirst : n.first.started = true)
    (hsecond : n.second.started = true) (ds : List Delivery)
    (h : ∀ before d after, before ++ d :: after = ds →
      Separable lib n.first.path (deliverAll lib n before).second d.msg) :
    ∀ before after, before ++ after = ds →
      (deliverAll lib n before).first = firstAlone lib n before ∧
      (deliverAll lib n before).second = secondAlone lib n before ∧
      ∀ d ∈ after.head?, d.msg.type = .methodCall →
        (d.msg.path ≠ n.first.path →
          (deliverAll lib n (before ++ [d])).first = (deliverAll lib n before).first) ∧
        (d.msg.path ≠ n.second.path →
          (deliverAll lib n (before ++ [d])).second = (deliverAll lib n before).second) := by
  intro before after hsplit
  have hbefore : ∀ earlier d later, earlier ++ d :: later = before →
      Separable lib n.first.path (deliverAll lib n earlier).second d.msg := by
    intro earlier d later hpart
    refine h earlier d (later ++ after) ?_
    rw [← hsplit, ← hpart, List.append_assoc]
    rfl
  obtain ⟨hone, hother⟩ := deliverAll_separable hpaths hfirst hsecond hbefore
  refine ⟨hone, hother, fun d hd htype => ?_⟩
  obtain ⟨rest, rfl⟩ := List.head?_eq_some_iff.mp hd
  obtain ⟨hfirst', hsecond'⟩ := deliverAll_started lib n before
  obtain ⟨hstep, hstep'⟩ := deliver_separable (n := deliverAll lib n before) hpaths
    (hfirst'.trans hfirst) (hsecond'.trans hsecond) (h before d rest hsplit)
  rw [deliverAll_append, hstep, hstep']
  unfold alone
  exact ⟨fun hpath => if_pos ⟨htype, hpath⟩, fun hpath => if_pos ⟨htype, hpath⟩⟩

/-- Two servers with nothing in them. -/
def twoServers : Neighbours Unit where
  first := (newFull .system "/one" ()).start klass
  second := (newFull .system "/two" ()).start klass

/-- The second one has a peer from the time when its filter was the first. -/
def peerOfSecond : Neighbours Unit where
  first := twoServers.first
  second := (twoServers.second.callLogOpen DBusLogServer.anybody klass ⟨some (3, 4), fun _ => []⟩
    ":1.1").2

def delivery (msg : DBusMessage) : Delivery := ⟨⟨none, fun _ => []⟩, ⟨none, fun _ => []⟩, msg⟩

/-- The bus tells that the owner of a name is gone. -/
def lostName (name : String) : DBusMessage where
  type := .signal
  sender := "org.freedesktop.DBus"
  path := "/org/freedesktop/DBus"
  interface := dbusInterface
  member := "NameOwnerChanged"
  args := [.string name, .string name, .string ""]

/-- A level is set on one server, and the other one is asked for what it has. -/
def setAndGet : List Delivery :=
  [delivery (message "/one" ":1.1" (.setDefaultLevel 5)), delivery (message "/two" ":1.1" .getAll)]

theorem neighboursIndependent_setAndGet :
    (deliverAll DBusLogServer.anybody twoServers setAndGet).first =
      firstAlone DBusLogServer.anybody twoServers setAndGet := by
  refine (neighboursIndependent DBusLogServer.anybody twoServers (by decide) rfl rfl setAndGet
    (fun before d after hsplit => ?_) setAndGet [] (List.append_nil _)).1
  have hd : d ∈ setAndGet := by
    rw [← hsplit]
    exact List.mem_append_right _ List.mem_cons_self
  obtain rfl | hd := List.mem_cons.mp hd
  · exact ⟨fun _ _ => rfl, fun htype => by cases htype⟩
  · cases List.mem_singleton.mp hd
    refine ⟨fun _ hsetter => absurd ?_ hsetter.2, fun htype => by cases htype⟩
    decide

/-- A level is to be set on the second server. -/
def setSecond : List Delivery := [delivery (message "/two" ":1.1" (.setDefaultLevel 5))]

/-- The peer of the second server goes. -/
def losePeer : List Delivery := [delivery (lostName ":1.1")]

/-- A call for the second server changes the first one instead, and the loss of a name does not
get to the second one. -/
theorem neighbours_interfere :
    (deliverAll DBusLogServer.anybody twoServers setSecond).first.core.defaultLevel =
      Level.notice ∧
    (firstAlone DBusLogServer.anybody twoServers setSecond).core.defaultLevel ≠ Level.notice ∧
    (deliverAll DBusLogServer.anybody twoServers setSecond).second.core.defaultLevel ≠
      Level.notice ∧
    (secondAlone DBusLogServer.anybody twoServers setSecond).core.defaultLevel = Level.notice ∧
    (deliverAll DBusLogServer.anybody peerOfSecond losePeer).second.peers.values.map (·.name) =
      [":1.1"] ∧
    (secondAlone DBusLogServer.anybody peerOfSecond losePeer).peers.values = [] := by
  refine ⟨?_, ?_, ?_, ?_, ?_, ?_⟩ <;> decide +kernel

end Neighbours

end DBusLog

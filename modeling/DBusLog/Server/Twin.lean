import DBusLog.Lib.Runs
import DBusLog.Server.Agreement
import DBusLog.Server.Authorization

/-!
# A libdbus server and a GIO server side by side

Both get the same calls from the same peers. What they show on the bus stays the same as long as no
call reaches the slip of the libdbus back end in SetCategoryLevel.
-/

namespace DBusLog

namespace DBusLogServer

variable {Cred Policy β : Type} {lib : Libraries Cred Policy} {klass : DBusLogServerClass β}
  {ctx : ServerContext} {s : DBusLogServer Policy β} {P : β → Prop}

/-! ## What a call keeps -/

theorem Kept.setEach (names : List String) (enable : Bool) :
    Kept P s (s.setEach klass names enable) := by
  unfold DBusLogServer.setEach
  induction names generalizing s with
  | nil => exact Kept.refl P s
  | cons name names ih => exact (Kept.coreChanged P _).trans ih

/-- A helper leaves the server as it was, or does what comes after the check. -/
theorem Kept.ite {p : Prop} [Decidable p] {err : Int} {r : Int × DBusLogServer Policy β}
    (h : Kept P s r.2) : Kept P s (if p then (err, s) else r).2 := by
  by_cases hp : p
  · rw [if_pos hp]
    exact Kept.refl P s
  · rw [if_neg hp]
    exact h

theorem Kept.callLogOpen (hwatch : ∀ b name, P b → P (klass.watchName b name).2)
    (hunwatch : ∀ b id, P b → P (klass.unwatchName b id)) (sender : String) :
    Kept P s (s.callLogOpen lib klass ctx sender).2 := by
  cases hallowed : s.accessAllowed lib sender .logOpen with
  | false =>
    rw [callLogOpen_checked.denied hallowed]
    exact Kept.refl P s
  | true =>
    cases hp : ctx.pipe with
    | none =>
      rw [callLogOpen_failed hallowed hp]
      exact Kept.refl P s
    | some fds =>
      obtain ⟨core, backend, watchId, i, _, he, hbackend⟩ :=
        callLogOpen_opened klass hallowed hp
      rw [he]
      have hopened : Kept P s { s with core := core, backend := backend } :=
        ⟨rfl, rfl, rfl, fun h => hbackend ▸ hwatch _ _ h⟩
      exact hopened.trans (Kept.replacePeer hunwatch _)

theorem Kept.perform (hwatch : ∀ b name, P b → P (klass.watchName b name).2)
    (hunwatch : ∀ b id, P b → P (klass.unwatchName b id)) (sender : String) (call : LoggerCall) :
    Kept P s (perform lib klass ctx s sender call).2 := by
  cases call with
  | getInterfaceVersion => exact Kept.refl P s
  | getAll => exact Kept.refl P s
  | getAll2 => exact Kept.refl P s
  | setDefaultLevel level =>
    refine Kept.ite ?_
    cases s.core.setDefaultLevel level.toUInt32 with
    | mk accepted core =>
      cases accepted with
      | false => exact Kept.coreChanged P core
      | true => exact Kept.coreChanged P core
  | setCategoryLevel name level => exact Kept.ite (Kept.coreChanged P _)
  | logOpen => exact Kept.callLogOpen hwatch hunwatch sender
  | logClose cookie => exact Kept.removePeer hunwatch sender
  | categoryEnable names => exact Kept.ite (Kept.setEach names true)
  | categoryEnablePattern pattern => exact Kept.ite (Kept.setEach _ true)
  | categoryDisable names => exact Kept.ite (Kept.setEach names false)
  | categoryDisablePattern pattern => exact Kept.ite (Kept.setEach _ false)
  | setBacklog backlog => exact Kept.ite (Kept.coreChanged P _)

end DBusLogServer

/-! ## Setting a level to no effect -/

namespace DBusLogServer

variable {Cred Policy β γ : Type} {lib : Libraries Cred Policy} {klass : DBusLogServerClass β}
  {klass' : DBusLogServerClass γ} {ctx ctx' : ServerContext} {s : DBusLogServer Policy β}
  {t : DBusLogServer Policy γ} {sender name : String} {level : Level}

theorem callSetCategoryLevel_keeps
    (hallowed : s.accessAllowed lib sender .setCategoryLevel = true)
    (h : s.core.KeepsLevel name level) :
    s.callSetCategoryLevel lib klass sender name level = (0, s) := by
  unfold callSetCategoryLevel
  rw [if_neg (not_not.mpr hallowed), DBusLogCore.setCategoryLevel_keeps h, coreChanged_self]

/-- It makes no difference that the sender and the name of a category have changed places in a call:
the policy treats both alike, and if it lets them in, they are the same or there is nothing to do. -/
def Interchangeable (lib : Libraries Cred Policy) (s : DBusLogServer Policy β)
    (sender name : String) (level : Level) : Prop :=
  s.accessAllowed lib name .setCategoryLevel = s.accessAllowed lib sender .setCategoryLevel ∧
  (s.accessAllowed lib sender .setCategoryLevel = true →
    name = sender ∨ s.core.KeepsLevel name level ∧ s.core.KeepsLevel sender level)

instance : Decidable (Interchangeable lib s sender name level) :=
  inferInstanceAs (Decidable (_ ∧ (_ → _ ∨ _ ∧ _)))

theorem Agree.interchanged (klass : DBusLogServerClass β) (klass' : DBusLogServerClass γ)
    (h : Agree s t) (hsame : Interchangeable lib s sender name level) :
    SameResult (s.callSetCategoryLevel lib klass name sender level)
      (t.callSetCategoryLevel lib klass' sender name level) := by
  obtain ⟨hpolicy, hallowed⟩ := hsame
  cases ha : s.accessAllowed lib sender .setCategoryLevel with
  | false =>
    have ha' := (h.accessAllowed lib sender .setCategoryLevel).symm.trans ha
    rw [(callSetCategoryLevel_checked _ _).denied (hpolicy.trans ha),
      (callSetCategoryLevel_checked _ _).denied ha']
    exact ⟨rfl, h⟩
  | true =>
    have ha' := (h.accessAllowed lib sender .setCategoryLevel).symm.trans ha
    -- the two names are equal, or the call changes nothing for either
    obtain rfl | ⟨hname, hsender⟩ := hallowed ha
    · exact h.callSetCategoryLevel name name level
    · have hname' : t.core.KeepsLevel name level := by
        unfold DBusLogCore.KeepsLevel
        rw [← DBusLogCore.settings_categories h.core]
        exact hname
      rw [callSetCategoryLevel_keeps (hpolicy.trans ha) hsender,
        callSetCategoryLevel_keeps ha' hname']
      exact ⟨rfl, h⟩

end DBusLogServer

open DBusLogServer

/-! ## Two servers and their callers -/

/-- A method call and what happens around it on either side. A pipe can be made on both sides or
on neither. -/
structure Incoming where
  sender : String
  call : LoggerCall
  dbus : ServerContext
  gio : ServerContext
  samePipe : dbus.pipe.isSome = gio.pipe.isSome

/-- A libdbus server and a GIO server with their replies so far. -/
structure Twin (Policy : Type) where
  dbus : DBusLogServer Policy DBusLogServerDbus
  gio : DBusLogServer Policy DBusLogServerGio
  replies : List (Reply × Reply)

namespace Twin

variable {Cred Policy : Type} (lib : Libraries Cred Policy)

/-- Both servers get the call. -/
def step (t : Twin Policy) (a : Incoming) : Option (Twin Policy) :=
  (DBusLogServerDbus.deliver lib a.dbus t.dbus a.sender a.call).bind fun r =>
    (DBusLogServerGio.deliver lib a.gio t.gio a.sender a.call).map fun r' =>
      ⟨r.2, r'.2, t.replies ++ [(r.1, r'.1)]⟩

abbrev run (t : Twin Policy) (calls : List Incoming) : Option (Twin Policy) :=
  Runs.run (step lib) t calls

/-- The call does not reach the slip of the libdbus back end. -/
def Harmless (t : Twin Policy) (a : Incoming) : Prop :=
  match a.call with
  | .setCategoryLevel name level =>
    Interchangeable lib t.dbus a.sender name level.toUInt32
  | _ => True

instance (t : Twin Policy) (a : Incoming) : Decidable (Harmless lib t a) := by
  unfold Harmless
  split
  · infer_instance
  · exact isTrue trivial

/-- Both servers run, agree and have replied alike. -/
structure InStep (t : Twin Policy) : Prop where
  dbus : t.dbus.started ∧ t.dbus.backend.filtering
  gio : t.gio.started ∧ t.gio.backend.skeletonExported
  agree : Agree t.dbus t.gio
  replies : ∀ r ∈ t.replies, r.1.outcome = r.2.outcome

variable {lib}

theorem watchUnref_filtering (b : DBusLogServerDbus) (watch : Nat) :
    (b.watchUnref watch).filtering = b.filtering := by
  unfold DBusLogServerDbus.watchUnref
  split
  · rfl
  · split
    · rfl
    · rfl

theorem dbus_kept (lib : Libraries Cred Policy) (ctx : ServerContext)
    (s : DBusLogServer Policy DBusLogServerDbus) (sender : String) (call : LoggerCall) :
    Kept (fun b => b.filtering = true) s
      (perform lib DBusLogServerDbus.klass ctx s sender call).2 := by
  refine Kept.perform (fun b name h => ?_) (fun b id h => ?_) sender call
  · change (DBusLogServerDbus.watchName b name).2.filtering = true
    unfold DBusLogServerDbus.watchName
    cases b.nameWatchTable.lookup name with
    | none => exact h
    | some watch => exact h
  · change (DBusLogServerDbus.unwatchName b id).filtering = true
    unfold DBusLogServerDbus.unwatchName
    split
    · exact (watchUnref_filtering _ _).trans h
    · exact h

theorem gio_kept (lib : Libraries Cred Policy) (ctx : ServerContext)
    (s : DBusLogServer Policy DBusLogServerGio) (sender : String) (call : LoggerCall) :
    Kept (fun b => b.skeletonExported = true) s
      (perform lib DBusLogServerGio.klass ctx s sender call).2 := by
  refine Kept.perform (fun b name h => ?_) (fun b id h => h) sender call
  change (DBusLogServerGio.watchName b name).2.skeletonExported = true
  unfold DBusLogServerGio.watchName
  split
  · exact h
  · exact h

theorem handedOver_frame (sender : String) (call : LoggerCall)
    (r : Reply × DBusLogServer Policy DBusLogServerGio) :
    (DBusLogServerGio.handedOver sender call r).1 = r.1 ∧
      ∃ core, (DBusLogServerGio.handedOver sender call r).2 = { r.2 with core := core } ∧
        core.settings = r.2.core.settings := by
  unfold DBusLogServerGio.handedOver
  split
  · exact ⟨rfl, stealReadfd_frame r.2 sender _⟩
  · exact ⟨rfl, r.2.core, rfl, rfl⟩

/-- A harmless call is answered alike. -/
theorem perform_understood {t : Twin Policy} {a : Incoming} (h : Agree t.dbus t.gio)
    (hharmless : Harmless lib t a) :
    ((perform lib DBusLogServerDbus.klass a.dbus t.dbus
        (DBusLogServerDbus.understood a.sender a.call).1
        (DBusLogServerDbus.understood a.sender a.call).2).1.outcome =
      (perform lib DBusLogServerGio.klass a.gio t.gio a.sender a.call).1.outcome) ∧
    Agree (perform lib DBusLogServerDbus.klass a.dbus t.dbus
        (DBusLogServerDbus.understood a.sender a.call).1
        (DBusLogServerDbus.understood a.sender a.call).2).2
      (perform lib DBusLogServerGio.klass a.gio t.gio a.sender a.call).2 := by
  unfold Harmless at hharmless
  cases hcall : a.call with
  | setCategoryLevel name level =>
    rw [hcall] at hharmless
    obtain ⟨hcode, hagree⟩ := h.interchanged DBusLogServerDbus.klass DBusLogServerGio.klass hharmless
    refine ⟨?_, hagree⟩
    simp only [DBusLogServerDbus.understood, DBusLogServer.perform, finish, hcode]
  | _ => exact h.perform a.samePipe a.sender _

theorem InStep.step {t : Twin Policy} {a : Incoming} (h : InStep t)
    (hharmless : Harmless lib t a) :
    ∃ t', Twin.step lib t a = some t' ∧ InStep t' ∧ t'.replies.length = t.replies.length + 1 := by
  have hdbus : DBusLogServerDbus.deliver lib a.dbus t.dbus a.sender a.call = _ :=
    DBusLogServerDbus.deliver_eq h.dbus.1 h.dbus.2 a.call
  have hgio : DBusLogServerGio.deliver lib a.gio t.gio a.sender a.call = _ :=
    DBusLogServerGio.deliver_eq h.gio.2 a.call
  obtain ⟨houtcome, hagree⟩ := perform_understood h.agree hharmless
  have hkept := dbus_kept lib a.dbus t.dbus
    (DBusLogServerDbus.understood a.sender a.call).1
    (DBusLogServerDbus.understood a.sender a.call).2
  have hkept' := gio_kept lib a.gio t.gio a.sender a.call
  obtain ⟨hreply, core, hserver, hcore⟩ := handedOver_frame a.sender a.call
    (perform lib DBusLogServerGio.klass a.gio t.gio a.sender a.call)
  generalize perform lib DBusLogServerDbus.klass a.dbus t.dbus _ _ = r at *
  generalize perform lib DBusLogServerGio.klass a.gio t.gio a.sender a.call = p at *
  generalize DBusLogServerGio.handedOver a.sender a.call p = r' at *
  have hstep : Twin.step lib t a = some ⟨r.2, r'.2, t.replies ++ [(r.1, r'.1)]⟩ := by
    unfold Twin.step
    rw [hdbus, hgio]
    rfl
  refine ⟨_, hstep, ⟨?_, ?_, ?_, fun q hq => ?_⟩, ?_⟩
  · exact ⟨hkept.started.trans h.dbus.1, hkept.backend h.dbus.2⟩
  · rw [hserver]
    exact ⟨hkept'.started.trans h.gio.1, hkept'.backend h.gio.2⟩
  · rw [hserver]
    exact ⟨hagree.core.trans hcore.symm, hagree.peers, hagree.bus, hagree.policy⟩
  · rcases List.mem_append.mp hq with hq | hq
    · exact h.replies q hq
    · rw [List.mem_singleton.mp hq, hreply]
      exact houtcome
  · exact List.length_append

/-- A whole sequence of calls. -/
theorem run_inStep {t : Twin Policy} {calls : List Incoming} (h : InStep t)
    (hharmless : Runs.Meets (Twin.step lib) (Harmless lib) t calls) :
    ∃ t', run lib t calls = some t' ∧ InStep t' ∧
      t'.replies.length = t.replies.length + calls.length := by
  induction calls generalizing t with
  | nil => exact ⟨t, rfl, h, rfl⟩
  | cons a calls ih =>
    obtain ⟨t₁, hstep, hinstep, hlength⟩ := h.step hharmless.1
    obtain ⟨t', hrun, hinstep', hlength'⟩ := ih hinstep (hharmless.2 t₁ hstep)
    refine ⟨t', Runs.run_cons_iff.mpr ⟨t₁, hstep, hrun⟩, hinstep', ?_⟩
    rw [hlength', hlength, List.length_cons]
    omega

/-- The two back ends implement the same server: in every sequence of calls none of which reaches
the slip of the libdbus back end, all calls are answered, and after the sequence the tables, the
levels, the backlog and the peers are the same, and every call has got the same reply twice. -/
theorem backendsAgree (lib : Libraries Cred Policy) (t : Twin Policy) (calls : List Incoming)
    (hdbus : t.dbus.started ∧ t.dbus.backend.filtering)
    (hgio : t.gio.started ∧ t.gio.backend.skeletonExported)
    (hcore : t.dbus.core.settings = t.gio.core.settings)
    (hpeers : ∀ name, (t.dbus.peers.lookup name).isSome = (t.gio.peers.lookup name).isSome)
    (hbus : t.dbus.bus = t.gio.bus) (hpolicy : t.dbus.policy = t.gio.policy)
    (hreplies : t.replies = [])
    (hharmless : Runs.Meets (step lib) (Harmless lib) t calls) :
    ∃ t', run lib t calls = some t' ∧
      t'.dbus.core.categories = t'.gio.core.categories ∧
      t'.dbus.core.defaultLevel = t'.gio.core.defaultLevel ∧
      t'.dbus.core.backlog = t'.gio.core.backlog ∧
      (∀ name, (t'.dbus.peers.lookup name).isSome = (t'.gio.peers.lookup name).isSome) ∧
      t'.replies.length = calls.length ∧ ∀ r ∈ t'.replies, r.1.outcome = r.2.outcome := by
  have hstart : InStep t := by
    refine ⟨hdbus, hgio, ⟨hcore, hpeers, hbus, hpolicy⟩, fun r hr => ?_⟩
    rw [hreplies] at hr
    cases hr
  obtain ⟨t', hrun, h, hlength⟩ := run_inStep hstart hharmless
  rw [hreplies] at hlength
  exact ⟨t', hrun, DBusLogCore.settings_categories h.agree.core,
    DBusLogCore.settings_defaultLevel h.agree.core, DBusLogCore.settings_backlog h.agree.core,
    h.agree.peers, hlength.trans (Nat.zero_add _), h.replies⟩

/-! ## Two servers with one category -/

/-- Started servers with a category, for the policy that lets root in. -/
def categoryTwin : Twin Unit where
  dbus := ((DBusLogServerDbus.newFull .system "/logger" ()).start
    DBusLogServerDbus.klass).addCategory DBusLogServerDbus.klass "net" Level.warning
      CategoryFlag.enabled
  gio := ((DBusLogServerGio.newServer .system "/logger" ()).start
    DBusLogServerGio.klass).addCategory DBusLogServerGio.klass "net" Level.warning
      CategoryFlag.enabled
  replies := []

/-- A call for which both pipes can be made, with other descriptors. -/
def incoming (sender : String) (call : LoggerCall) : Incoming where
  sender := sender
  call := call
  dbus := ⟨some (3, 4), fun _ => []⟩
  gio := ⟨some (8, 9), fun _ => []⟩
  samePipe := rfl

/-- Root opens the log, disables the category and asks for all; another user is refused. -/
theorem backendsAgree_calls :
    ∃ t', run rootOnly categoryTwin [incoming ":1.1" .logOpen,
        incoming ":1.9" (.setCategoryLevel "net" 3), incoming ":1.1" (.categoryDisable ["net"]),
        incoming ":1.1" .getAll2, incoming ":1.1" (.setDefaultLevel 99)] = some t' ∧
      t'.dbus.core.categories = t'.gio.core.categories ∧
      t'.replies.length = 5 ∧ ∀ r ∈ t'.replies, r.1.outcome = r.2.outcome := by
  obtain ⟨t', hrun, hcategories, _, _, _, hlength, hreplies⟩ := backendsAgree rootOnly categoryTwin
    [incoming ":1.1" .logOpen, incoming ":1.9" (.setCategoryLevel "net" 3),
      incoming ":1.1" (.categoryDisable ["net"]), incoming ":1.1" .getAll2,
      incoming ":1.1" (.setDefaultLevel 99)]
    (by decide) (by decide) (by decide) (fun _ => rfl) rfl rfl rfl (by decide)
  exact ⟨t', hrun, hcategories, hlength, hreplies⟩

/-- Root sets the level of the category: the GIO server does so, the libdbus server refuses. -/
theorem setCategoryLevel_disagree :
    ∃ t', run rootOnly categoryTwin [incoming ":1.1" (.setCategoryLevel "net" 3)] = some t' ∧
      t'.replies = [(.error .accessDenied "Access denied", .methodReturn [])] ∧
      t'.dbus.core.categories ≠ t'.gio.core.categories := by
  obtain ⟨t', hrun, he⟩ := Option.map_eq_some_iff.mp (by decide :
    (run rootOnly categoryTwin [incoming ":1.1" (.setCategoryLevel "net" 3)]).map
      (fun t' => (t'.replies, decide (t'.dbus.core.categories = t'.gio.core.categories))) =
      some ([(.error .accessDenied "Access denied", .methodReturn [])], false))
  simp only [Prod.mk.injEq, decide_eq_false_iff_not] at he
  exact ⟨t', hrun, he⟩

end Twin

end DBusLog

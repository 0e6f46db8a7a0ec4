import DBusLog.Server.Perform

/-!
# Authorization

A method that needs an action is refused exactly to the callers whom the policy does not allow it,
and refusing changes nothing. The GIO back end does so; the libdbus one asks the policy about the
wrong name when a category gets its level.
-/

namespace DBusLog

namespace DBusLogServer

variable {Cred Policy β : Type}

/-- The outcome of a method that needs `action` is the right one for the peer `sender`: the policy
alone decides whether it is refused, and a refusal leaves the server as it was. -/
def Authorized (lib : Libraries Cred Policy) (s : DBusLogServer Policy β) (sender : String)
    (action : DBusLogAction) (r : Reply × DBusLogServer Policy β) : Prop :=
  (r.1 = .error .accessDenied "Access denied" ↔ s.accessAllowed lib sender action = false) ∧
  (s.accessAllowed lib sender action = false → r.2 = s)

section Authorized

variable {lib : Libraries Cred Policy} {klass : DBusLogServerClass β} {ctx : ServerContext}
  {s : DBusLogServer Policy β} {sender : String} {action : DBusLogAction}

/-- A reply that is an error exactly for a negative code. -/
theorem Checked.authorized {r : Int × DBusLogServer Policy β} (h : Checked lib s sender action r)
    (values : List ReplyValue) : Authorized lib s sender action
      (if r.1 < 0 then errorReply r.1 else .methodReturn values, r.2) := by
  cases hallowed : s.accessAllowed lib sender action with
  | false =>
    rw [h.denied hallowed]
    unfold Authorized
    rw [hallowed]
    have hneg : (-eacces : Int) < 0 := by decide
    rw [if_pos hneg]
    exact ⟨iff_of_true (errorReply_denied.mpr rfl) rfl, fun _ => rfl⟩
  | true =>
    have hcode := h.allowed hallowed
    unfold Authorized
    rw [hallowed]
    refine ⟨iff_of_false ?_ Bool.noConfusion, fun hfalse => by cases hfalse⟩
    by_cases hneg : r.1 < 0
    · rw [if_pos hneg]
      intro hreply
      exact hcode (errorReply_denied.mp hreply)
    · rw [if_neg hneg]
      intro hreply
      cases hreply

/-- The server that the interface describes is authorized. -/
theorem perform_authorized {call : LoggerCall} (haction : call.action? = some action) :
    Authorized lib s sender action (perform lib klass ctx s sender call) := by
  cases call with
  | setDefaultLevel level =>
    cases haction
    exact (callSetDefaultLevel_checked _).authorized []
  | setCategoryLevel name level =>
    cases haction
    exact (callSetCategoryLevel_checked _ _).authorized []
  | logOpen =>
    cases haction
    exact callLogOpen_checked.authorized _
  | categoryEnable names =>
    cases haction
    exact (callSetNamesEnabled_checked _ true).authorized []
  | categoryEnablePattern pattern =>
    cases haction
    exact (callSetPatternEnabled_checked _ true).authorized []
  | categoryDisable names =>
    cases haction
    exact (callSetNamesEnabled_checked _ false).authorized []
  | categoryDisablePattern pattern =>
    cases haction
    exact (callSetPatternEnabled_checked _ false).authorized []
  | setBacklog backlog =>
    cases haction
    exact (callSetBacklog_checked _).authorized []
  | _ => cases haction

/-- What is right for one peer is right for another exactly if the policy treats them alike. -/
theorem Authorized.other {other : String} {r : Reply × DBusLogServer Policy β}
    (h : Authorized lib s other action r) : Authorized lib s sender action r ↔
      s.accessAllowed lib other action = s.accessAllowed lib sender action := by
  constructor
  · intro h'
    rw [Bool.eq_iff_iff, ← not_iff_not, Bool.not_eq_true, Bool.not_eq_true]
    exact h.1.symm.trans h'.1
  · intro he
    unfold Authorized
    rw [← he]
    exact h

end Authorized

end DBusLogServer

open DBusLogServer

variable {Cred Policy : Type} {lib : Libraries Cred Policy} {sender : String}
  {action : DBusLogAction}

/-- Handing a descriptor over is for an open pipe only. -/
theorem DBusLogServerGio.handedOver_authorized {s : DBusLogServer Policy DBusLogServerGio}
    {call : LoggerCall} {r : Reply × DBusLogServer Policy DBusLogServerGio}
    (h : Authorized lib s sender action r) :
    Authorized lib s sender action (handedOver sender call r) := by
  obtain ⟨reply, t⟩ := r
  unfold handedOver
  split
  · next hreply =>
    obtain ⟨hdenied, _⟩ := h
    refine ⟨hdenied, fun hallowed => ?_⟩
    have herror := hdenied.mpr hallowed
    change reply = _ at herror hreply
    rw [herror] at hreply
    cases hreply
  · exact h

/-- Whatever the state, the policy and the arguments: the GIO back end refuses a method exactly to
the callers to whom the policy does not allow its action, and then changes nothing. The libdbus
back end does so exactly if, in case the method is SetCategoryLevel, the policy makes no difference
between the caller and a peer that has the name of the category. -/
theorem authorization (lib : Libraries Cred Policy) (ctx : ServerContext) (sender : String)
    (call : LoggerCall) (action : DBusLogAction) (haction : call.action? = some action) :
    (∀ s : DBusLogServer Policy DBusLogServerDbus, s.started → s.backend.filtering →
      ∃ r, DBusLogServerDbus.deliver lib ctx s sender call = some r ∧
        (Authorized lib s sender action r ↔
          ∀ name level, call = .setCategoryLevel name level →
            s.accessAllowed lib name action = s.accessAllowed lib sender action)) ∧
    ∀ s : DBusLogServer Policy DBusLogServerGio, s.started → s.backend.skeletonExported →
      ∃ r, DBusLogServerGio.deliver lib ctx s sender call = some r ∧
        Authorized lib s sender action r := by
  constructor
  · intro s hstarted hfiltering
    refine ⟨_, DBusLogServerDbus.deliver_eq hstarted hfiltering call, ?_⟩
    by_cases hcall : ∃ name level, call = .setCategoryLevel name level
    · -- the access check is made for the name of the category
      obtain ⟨name, level, rfl⟩ := hcall
      have hforged : Authorized lib s name action (perform lib DBusLogServerDbus.klass ctx s name
          (.setCategoryLevel sender level)) := perform_authorized haction
      refine hforged.other.trans ⟨fun he name' level' hcall => ?_, fun h => h name level rfl⟩
      cases hcall
      exact he
    · have hunderstood : DBusLogServerDbus.understood sender call = (sender, call) := by
        cases call with
        | setCategoryLevel name level => exact absurd ⟨name, level, rfl⟩ hcall
        | _ => rfl
      rw [hunderstood]
      refine iff_of_true (perform_authorized haction) fun name level heq => ?_
      exact absurd ⟨name, level, heq⟩ hcall
  · intro s _ hexported
    exact ⟨_, DBusLogServerGio.deliver_eq hexported call,
      DBusLogServerGio.handedOver_authorized (perform_authorized haction)⟩

/-! ## A policy that lets root in -/

/-- Root has the name :1.1 and another user the name :1.9; the policy is root's. -/
def rootOnly : Libraries Nat Unit where
  daPeerGet _ name := if name = ":1.1" then some 0 else if name = ":1.9" then some 100000 else none
  daPolicyCheck _ uid _ := uid = 0
  patternMatch pattern name := pattern = name
  ringSetMaxSize ring _ := ring

/-- A started server, with one category that the other user knows how to name. -/
def categoryServer : DBusLogServer Unit DBusLogServerDbus :=
  ((DBusLogServerDbus.newFull .system "/logger" ()).start DBusLogServerDbus.klass).addCategory
    DBusLogServerDbus.klass ":1.9" Level.warning CategoryFlag.enabled

/-- The backlog is root's to set, and the other user is refused. -/
theorem authorization_setBacklog :
    ∃ r, DBusLogServerDbus.deliver rootOnly ⟨none, fun _ => []⟩ categoryServer ":1.9"
        (.setBacklog 5) = some r ∧
      Authorized rootOnly categoryServer ":1.9" .setBacklog r := by
  obtain ⟨r, hr, hiff⟩ := (authorization rootOnly ⟨none, fun _ => []⟩ ":1.9" (.setBacklog 5)
    .setBacklog rfl).1 categoryServer (by decide) (by decide)
  exact ⟨r, hr, hiff.mpr fun name level h => by cases h⟩

/-- The other user is not allowed to set the level of a category. It asks for the category that has
root's name, and the category that has its own name gets the level. -/
theorem setCategoryLevel_forged :
    ∃ r, categoryServer.started ∧ categoryServer.backend.filtering ∧
      categoryServer.accessAllowed rootOnly ":1.9" .setCategoryLevel = false ∧
      DBusLogServerDbus.deliver rootOnly ⟨none, fun _ => []⟩ categoryServer ":1.9"
        (.setCategoryLevel ":1.1" 8) = some r ∧
      r.1 = .methodReturn [] ∧ r.2.core.categories ≠ categoryServer.core.categories ∧
      ¬Authorized rootOnly categoryServer ":1.9" .setCategoryLevel r := by
  obtain ⟨r, hr, he⟩ := Option.map_eq_some_iff.mp (by decide :
    (DBusLogServerDbus.deliver rootOnly ⟨none, fun _ => []⟩ categoryServer ":1.9"
      (.setCategoryLevel ":1.1" 8)).map (fun r => (r.1,
        decide (r.2.core.categories = categoryServer.core.categories))) =
      some (.methodReturn [], false))
  simp only [Prod.mk.injEq, decide_eq_false_iff_not] at he
  have hdenied : categoryServer.accessAllowed rootOnly ":1.9" .setCategoryLevel = false := by decide
  refine ⟨r, by decide, by decide, hdenied, hr, he.1, he.2, ?_⟩
  rintro ⟨hreply, _⟩
  have hrefused := hreply.mpr hdenied
  rw [he.1] at hrefused
  cases hrefused

end DBusLog

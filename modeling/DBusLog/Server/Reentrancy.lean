import DBusLog.Core.Frames
import DBusLog.Server.Journal

/-!
# Handlers that call the server

Applications connect handlers to the signals of a server (`dbuslog_server.c`) for categories that
are enabled or disabled and for levels that change, and these handlers may call the server again.
The server emits such a signal before it tells the bus, and tells the bus what is the case then. A
frame stands for a handler of the server whose application handlers are running, with the rest of
the loop that has called the core.

The server is a started one, and the calls from the bus are those that the policy allows.
-/

namespace DBusLog

/-- The loop that enables or disables categories. -/
inductive EnableLoop
  /-- `dbus_log_server_call_set_names_enabled`, with the names still to come -/
  | names (rest : List String)
  /-- `dbus_log_server_call_set_pattern_enabled`, with its array and what is still to come of it -/
  | pattern (array : Nat) (rest : List Nat)
  deriving DecidableEq

/-- A handler of the server, while handlers of the application are running. -/
inductive ServerFrame
  /-- `dbus_log_server_category_flags_changed` -/
  | flags (p : Nat) (enable : Bool) (loop : EnableLoop)
  /-- `dbus_log_server_category_level_changed` -/
  | level (p : Nat)
  /-- `dbus_log_server_default_level_changed` -/
  | defaultLevel
  deriving DecidableEq

/-- The function of the core that has called the handler, if it has a category in hand. -/
def ServerFrame.coreFrame? : ServerFrame → Option CategoryFrame
  | .flags p _ _ | .level p => some (.changed p)
  | .defaultLevel => none

/-- A started server whose application has handlers. -/
structure NestedServer where
  core : CoreCategories
  defaultLevel : Level
  /-- The handlers of the server that are running, the innermost one first. -/
  frames : List ServerFrame
  notified : List ServerSignal
  sent : List BusSignal
  deriving DecidableEq

/-- What the application, its handlers and the bus ask for. -/
inductive ServerCall
  | addCategory (name : String) (level : Level) (flags : UInt64)
  | removeCategory (name : String)
  | removeAllCategories
  | setCategoryLevel (name : String) (level : Level)
  | setDefaultLevel (level : Level)
  | setNamesEnabled (names : List String) (enable : Bool)
  /-- `matching` is what the pattern means. -/
  | setPatternEnabled (matching : String → Bool) (enable : Bool)
  | log (cname : String)
  | handlersReturn
  | drainPool

namespace NestedServer

/-- A new server that has been started. -/
def new : NestedServer where
  core := .new true
  defaultLevel := Level.info
  frames := []
  notified := []
  sent := []

/-- The bus is told about a category. -/
def tell (s : NestedServer) (p : Nat) (signal : DBusLogCategory → BusSignal) : NestedServer :=
  { s with
    core := { s.core with objects := s.core.objects.use p }
    sent := s.sent ++ ((s.core.objects.read p).map signal).toList }

/-- The handlers of the server have done their work, and the core goes on. -/
def leave (s : NestedServer) : NestedServer := { s with core := s.core.handlersReturn }

/-- `dbus_log_server_add_category`. The handler for CATEGORY_ADDED only tells the bus. -/
def addCategory (s : NestedServer) (name : String) (level : Level) (flags : UInt64) :
    NestedServer :=
  let added := { s with core := s.core.newCategory name level flags }
  match s.core.categories.lookup name with
  | some e => { added with core := added.core.release e.2 }
  | none =>
    let p := s.core.objects.heap.length
    let told := (added.tell p fun cat => .categoryAdded cat.name cat.id cat.flags.toUInt32).leave
    { told with core := told.core.release p }

/-- What `dbus_log_server_category_removed` tells the bus. -/
def tellRemoved (s : NestedServer) (p : Nat) : NestedServer :=
  (s.tell p fun cat => .categoryRemoved cat.id).leave

/-- `dbus_log_server_remove_category` -/
def removeCategory (s : NestedServer) (name : String) : NestedServer :=
  match s.core.categories.lookup name with
  | some e => { s with core := s.core.removeCategory name }.tellRemoved e.2
  | none => s

/-- `dbus_log_server_remove_all_categories` -/
def removeAllCategories (s : NestedServer) : NestedServer :=
  (s.core.matched fun _ => true).foldl tellRemoved { s with core := s.core.removeAllCategories }

/-- `dbus_log_server_set_category_level` -/
def setCategoryLevel (s : NestedServer) (name : String) (level : Level) : NestedServer :=
  let changed := { s with core := s.core.setCategoryLevel name level }
  match s.core.leveling name level with
  | some (p, _) =>
    { changed with
      notified := s.notified ++ [.categoryLevel name level]
      frames := .level p :: s.frames }
  | none => changed

/-- `dbus_log_server_set_default_level` -/
def setDefaultLevel (s : NestedServer) (level : Level) : NestedServer :=
  if level ≥ Level.always ∧ level < Level.count ∧ s.defaultLevel ≠ level then
    { s with
      defaultLevel := level
      notified := s.notified ++ [.defaultLevel level]
      frames := .defaultLevel :: s.frames }
  else s

/-- A category has been enabled or disabled, and the handlers of the application are called. -/
def announce (s : NestedServer) (name : String) (p : Nat) (enable : Bool) (loop : EnableLoop) :
    NestedServer :=
  { s with
    notified := s.notified ++ [if enable then .categoryEnabled name else .categoryDisabled name]
    frames := .flags p enable loop :: s.frames }

/-- The loop of `dbus_log_server_call_set_names_enabled`, up to the next handlers -/
def enableNames (enable : Bool) : List String → NestedServer → NestedServer
  | [], s => s
  | name :: rest, s =>
    let next := { s with core := s.core.setCategoryEnabled name enable }
    match s.core.enabling name enable with
    | some (p, _) => next.announce name p enable (.names rest)
    | none => enableNames enable rest next

/-- The loop of `dbus_log_server_call_set_pattern_enabled`, up to the next handlers -/
def enablePattern (enable : Bool) (array : Nat) : List Nat → NestedServer → NestedServer
  | [], s => { s with core := { s.core with arrays := s.core.arrays.use array } }
  | q :: rest, s =>
    let s := { s with core := { s.core with
      arrays := s.core.arrays.use array
      objects := s.core.objects.use q } }
    match s.core.objects.read q with
    | some cat =>
      let next := { s with core := s.core.setCategoryEnabled cat.name enable }
      match s.core.enabling cat.name enable with
      | some (p, _) => next.announce cat.name p enable (.pattern array rest)
      | none => enablePattern enable array rest next
    | none => s

/-- `dbus_log_server_call_set_pattern_enabled` -/
def setPatternEnabled (s : NestedServer) (matching : String → Bool) (enable : Bool) :
    NestedServer :=
  enablePattern enable s.core.arrays.heap.length (s.core.matched matching)
    { s with core := s.core.findCategories matching }

/-- The loop goes on. -/
def enableNext (s : NestedServer) (enable : Bool) : EnableLoop → NestedServer
  | .names rest => s.enableNames enable rest
  | .pattern array rest => s.enablePattern enable array rest

/-- The handlers of the application have returned: the bus is told what is the case now. -/
def goOn (s : NestedServer) : ServerFrame → NestedServer
  | .flags p enable loop =>
    (s.tell p fun cat => .categoryFlagsChanged cat.id cat.flags.toUInt32).leave.enableNext enable
      loop
  | .level p => (s.tell p fun cat => .categoryLevelChanged cat.id cat.level.toInt32).leave
  | .defaultLevel =>
    { s with sent := s.sent ++ [.defaultLevelChanged s.defaultLevel.toInt32] }

/-- A step; `none` when it is not enabled. -/
def step (s : NestedServer) : ServerCall → Option NestedServer
  | .addCategory name level flags => some (s.addCategory name level flags)
  | .removeCategory name => some (s.removeCategory name)
  | .removeAllCategories => some s.removeAllCategories
  | .setCategoryLevel name level => some (s.setCategoryLevel name level)
  | .setDefaultLevel level => some (s.setDefaultLevel level)
  | .setNamesEnabled names enable => some (s.enableNames enable names)
  | .setPatternEnabled matching enable => some (s.setPatternEnabled matching enable)
  | .log cname => some { s with core := s.core.log cname }
  | .handlersReturn =>
    match s.frames with
    | [] => none
    | frame :: frames => some ({ s with frames := frames }.goOn frame)
  | .drainPool => some { s with core := s.core.drainPool }

end NestedServer

namespace NestedServer

open CoreCategories (Accounted SameOwner Retained)

variable {s s' : NestedServer}

/-! ## What is there -/

/-- Nothing has been misused, the frames are those of the core, and the arrays of the loops still
have what is to come. Callers do not keep references. -/
structure Safe (s : NestedServer) : Prop where
  accounted : Accounted s.core
  synced : s.core.frames = s.frames.filterMap ServerFrame.coreFrame?
  loops : ∀ p enable array rest, .flags p enable (.pattern array rest) ∈ s.frames →
    ∃ items, s.core.arrays.read array = some items ∧ ∀ q ∈ rest, q ∈ items
  kept : s.core.kept = []
  keptArrays : s.core.keptArrays = []
  removedHandlers : s.core.removedHandlers = true

/-- The idle pool still has the array of the loop that goes on. -/
def Undrained (s : NestedServer) : ServerCall → Prop
  | .handlersReturn =>
    match s.frames with
    | .flags _ _ (.pattern array _) :: _ => array ∈ s.core.pool
    | _ => True
  | _ => True

theorem new_safe : Safe new where
  accounted := (CoreCategories.new_objectInv true).toAccounted
  synced := rfl
  loops _ _ _ _ hmem := absurd hmem List.not_mem_nil
  kept := rfl
  keptArrays := rfl
  removedHandlers := rfl

/-- The core has gone on, and handlers of the application are running besides those of before. -/
theorem Safe.of (h : Safe s) (more : List ServerFrame) (haccounted : Accounted s'.core)
    (howner : SameOwner s.core s'.core) (hkept : s'.core.kept = s.core.kept)
    (hframes : s'.frames = more ++ s.frames)
    (hcore : s'.core.frames = more.filterMap ServerFrame.coreFrame? ++ s.core.frames)
    (hloops : ∀ p enable array rest, .flags p enable (.pattern array rest) ∈ more →
      ∃ items, s.core.arrays.read array = some items ∧ ∀ q ∈ rest, q ∈ items) : Safe s' where
  accounted := haccounted
  synced := by rw [hcore, hframes, List.filterMap_append, h.synced]
  loops p enable array rest hmem := by
    rw [hframes] at hmem
    obtain ⟨items, hread, hrest⟩ := (List.mem_append.mp hmem).elim (hloops p enable array rest)
      (h.loops p enable array rest)
    exact ⟨items, howner.read array items hread, hrest⟩
  kept := hkept.trans h.kept
  keptArrays := howner.keptArrays.trans h.keptArrays
  removedHandlers := howner.removedHandlers.trans h.removedHandlers

/-- The core has gone on, and nothing else is running. -/
theorem Safe.quiet (h : Safe s) (haccounted : Accounted s'.core)
    (howner : SameOwner s.core s'.core) (hkept : s'.core.kept = s.core.kept)
    (hframes : s'.frames = s.frames)
    (hcore : s'.core.frames = s.core.frames) : Safe s' :=
  h.of [] haccounted howner hkept hframes hcore fun _ _ _ _ hmem => absurd hmem List.not_mem_nil

/-! ## What the handlers of the server do -/

theorem tell_sameOwner (p : Nat) (signal : DBusLogCategory → BusSignal) :
    SameOwner s.core (s.tell p signal).core :=
  CoreCategories.use_sameOwner p

theorem leave_sameOwner : SameOwner s.core s.leave.core := CoreCategories.handlersReturn_sameOwner

/-- The innermost function of the core has a reference to the category that the bus is told
about. -/
theorem tell_core {frame : CategoryFrame} {frames : List CategoryFrame}
    (h : Accounted s.core) (hframes : s.core.frames = frame :: frames) {p : Nat}
    (hp : p ∈ frame.held) (signal : DBusLogCategory → BusSignal) :
    (s.tell p signal).core = s.core := by
  have huse : s.core.objects.use p = s.core.objects :=
    h.owned.objects.use (CoreCategories.mem_holders_frame hframes hp)
  unfold tell
  dsimp only
  rw [huse]

theorem tell_leave_core {frame : CategoryFrame} {frames : List CategoryFrame}
    (h : Accounted s.core) (hframes : s.core.frames = frame :: frames) {p : Nat}
    (hp : p ∈ frame.held) (signal : DBusLogCategory → BusSignal) :
    (s.tell p signal).leave.core = { s.core with frames := frames }.goOn frame := by
  unfold leave
  dsimp only
  rw [tell_core h hframes hp]
  unfold CoreCategories.handlersReturn
  rw [hframes]

/-! ## What the calls leave alone -/

/-- After the core has made the category -/
theorem addCategory_told (name : String) (level : Level) (flags : UInt64) :
    SameOwner (s.core.newCategory name level flags) (s.addCategory name level flags).core := by
  unfold addCategory
  split
  · exact CoreCategories.release_sameOwner _
  · have htell := tell_sameOwner (s := { s with core := s.core.newCategory name level flags })
    exact ((htell _ _).trans leave_sameOwner).trans (CoreCategories.release_sameOwner _)

theorem addCategory_sameOwner (name : String) (level : Level) (flags : UInt64) :
    SameOwner s.core (s.addCategory name level flags).core :=
  (CoreCategories.newCategory_sameOwner name level flags).trans (addCategory_told name level flags)

theorem tellRemoved_sameOwner (p : Nat) : SameOwner s.core (s.tellRemoved p).core :=
  (tell_sameOwner p _).trans leave_sameOwner

theorem foldl_tellRemoved_sameOwner (cats : List Nat) :
    SameOwner s.core (cats.foldl tellRemoved s).core := by
  induction cats generalizing s with
  | nil => exact .refl _
  | cons p rest ih => exact (tellRemoved_sameOwner p).trans ih

theorem removeCategory_sameOwner (name : String) :
    SameOwner s.core (s.removeCategory name).core := by
  unfold removeCategory
  split
  · refine .trans ?_ (tellRemoved_sameOwner _)
    exact CoreCategories.removeCategory_sameOwner name
  · exact .refl _

theorem removeAllCategories_sameOwner : SameOwner s.core s.removeAllCategories.core := by
  refine .trans ?_ (foldl_tellRemoved_sameOwner _)
  exact CoreCategories.removeAllCategories_sameOwner

theorem setCategoryLevel_sameOwner (name : String) (level : Level) :
    SameOwner s.core (s.setCategoryLevel name level).core := by
  have hset := CoreCategories.setCategoryLevel_sameOwner (c := s.core) name level
  unfold setCategoryLevel
  split
  · exact hset
  · exact hset

theorem setDefaultLevel_core (level : Level) : (s.setDefaultLevel level).core = s.core := by
  unfold setDefaultLevel
  split <;> rfl

theorem enableNames_sameOwner (enable : Bool) (names : List String) :
    SameOwner s.core (enableNames enable names s).core := by
  induction names generalizing s with
  | nil => exact .refl _
  | cons name rest ih =>
    have hset := (s.core.setCategoryEnabled_sameOwner name enable).1
    unfold enableNames
    dsimp only
    split
    · exact hset
    · exact hset.trans (ih (s := { s with core := s.core.setCategoryEnabled name enable }))

/-- The loop looks at its array first. -/
theorem enablePattern_used (enable : Bool) (array : Nat) (cats : List Nat) :
    SameOwner { s.core with arrays := s.core.arrays.use array }
      (enablePattern enable array cats s).core := by
  induction cats generalizing s with
  | nil => exact .refl _
  | cons q rest ih =>
    have huse : SameOwner { s.core with arrays := s.core.arrays.use array } { s.core with
        arrays := s.core.arrays.use array
        objects := s.core.objects.use q } :=
      CoreCategories.use_sameOwner q
    unfold enablePattern
    dsimp only
    generalize { s.core with
      arrays := s.core.arrays.use array
      objects := s.core.objects.use q } = core at huse
    split
    · next cat _ =>
      have hset := huse.trans (CoreCategories.setCategoryEnabled_sameOwner cat.name enable).1
      split
      · exact hset
      · refine hset.trans ((CoreCategories.useArray_sameOwner array).trans ?_)
        exact ih (s := { s with core := core.setCategoryEnabled cat.name enable })
    · exact huse

theorem enablePattern_sameOwner (enable : Bool) (array : Nat) (cats : List Nat) :
    SameOwner s.core (enablePattern enable array cats s).core :=
  (CoreCategories.useArray_sameOwner array).trans (enablePattern_used enable array cats)

theorem setPatternEnabled_sameOwner (matching : String → Bool) (enable : Bool) :
    SameOwner s.core (s.setPatternEnabled matching enable).core := by
  refine .trans ?_ (enablePattern_sameOwner _ _ _)
  exact CoreCategories.findCategories_sameOwner matching

theorem goOn_sameOwner (frame : ServerFrame) : SameOwner s.core (s.goOn frame).core := by
  cases frame with
  | flags p enable loop =>
    have htold : SameOwner s.core (s.tell p fun cat =>
        .categoryFlagsChanged cat.id cat.flags.toUInt32).leave.core :=
      (tell_sameOwner p _).trans leave_sameOwner
    refine htold.trans ?_
    cases loop with
    | names rest => exact enableNames_sameOwner enable rest
    | pattern array rest => exact enablePattern_sameOwner enable array rest
  | level p => exact (tell_sameOwner p _).trans leave_sameOwner
  | defaultLevel => exact .refl _

theorem handlersReturn_iff : s.step .handlersReturn = some s' ↔
    ∃ frame frames, s.frames = frame :: frames ∧ { s with frames := frames }.goOn frame = s' := by
  unfold step
  cases s.frames with
  | nil => simp
  | cons frame frames => simp

theorem step_sameOwner {call : ServerCall} (hs : s.step call = some s') :
    SameOwner s.core s'.core := by
  cases call with
  | addCategory name level flags =>
    cases hs
    exact addCategory_sameOwner name level flags
  | removeCategory name =>
    cases hs
    exact removeCategory_sameOwner name
  | removeAllCategories =>
    cases hs
    exact removeAllCategories_sameOwner
  | setCategoryLevel name level =>
    cases hs
    exact setCategoryLevel_sameOwner name level
  | setDefaultLevel level =>
    cases hs
    rw [setDefaultLevel_core]
    exact .refl _
  | setNamesEnabled names enable =>
    cases hs
    exact enableNames_sameOwner enable names
  | setPatternEnabled matching enable =>
    cases hs
    exact setPatternEnabled_sameOwner matching enable
  | log cname =>
    cases hs
    exact CoreCategories.log_sameOwner cname
  | handlersReturn =>
    obtain ⟨frame, frames, _, rfl⟩ := handlersReturn_iff.mp hs
    exact goOn_sameOwner (s := { s with frames := frames }) frame
  | drainPool =>
    cases hs
    exact CoreCategories.drainPool_sameOwner

/-! ## What they leave running -/

/-- The pool has a reference to each of its arrays. -/
theorem mem_arrayOwners {array : Nat} (h : array ∈ s.core.pool) : array ∈ s.core.arrayOwners :=
  List.mem_append_left _ (List.mem_append_left _ h)

theorem Safe.addCategory (h : Safe s) (name : String) (level : Level) (flags : UInt64) :
    Safe (s.addCategory name level flags) := by
  have howner := s.addCategory_sameOwner name level flags
  have hnew := h.accounted.newCategory name level flags
  unfold NestedServer.addCategory at howner ⊢
  cases hlookup : s.core.categories.lookup name with
  | some e =>
    rw [hlookup] at howner
    obtain ⟨hframes, hkept⟩ := CoreCategories.newCategory_known hlookup level flags
    refine h.quiet (hnew.release (hkept ▸ List.mem_cons_self)) howner ?_ rfl hframes
    show (s.core.newCategory name level flags).kept.erase e.2 = s.core.kept
    rw [hkept, List.erase_cons_head]
  | none =>
    rw [hlookup] at howner
    dsimp only at howner ⊢
    obtain ⟨hframes, hpointer, hkept⟩ := CoreCategories.newCategory_running hlookup level flags
    generalize s.core.newCategory name level flags = core at hnew howner hframes hpointer hkept ⊢
    have hleft := tell_leave_core (s := { s with core := core }) hnew hframes List.mem_cons_self
      fun cat => .categoryAdded cat.name cat.id cat.flags.toUInt32
    have hretained : Retained core .handlersReturn := by
      unfold Retained
      rw [hframes]
      exact List.mem_append_right _ (List.mem_append_left _ (List.mem_append_left _ hpointer))
    have hgone := hnew.goOn hframes hretained
    rw [← hleft] at hgone
    refine h.quiet (hgone.release ?_) howner ?_ rfl ?_
    · rw [hleft]
      exact List.mem_cons_self
    · show (NestedServer.tell _ _ _).leave.core.kept.erase _ = s.core.kept
      rw [hleft, ← hkept]
      exact List.erase_cons_head _ _
    · show ((NestedServer.tell _ _ _).leave.core).frames = s.core.frames
      rw [hleft]
      rfl

/-- The bus is told about a removed category, and the function goes on. -/
theorem tellRemoved_core {frame : CategoryFrame} {frames : List CategoryFrame}
    (h : Accounted s.core) (hframes : s.core.frames = frame :: frames) {p : Nat}
    (hp : p ∈ frame.held) :
    (s.tellRemoved p).core = { s.core with frames := frames }.goOn frame :=
  tell_leave_core h hframes hp _

theorem Safe.removeCategory (h : Safe s) (name : String) : Safe (s.removeCategory name) := by
  have howner := s.removeCategory_sameOwner name
  unfold NestedServer.removeCategory at howner ⊢
  cases hlookup : s.core.categories.lookup name with
  | none => exact h
  | some e =>
    rw [hlookup] at howner
    dsimp only at howner ⊢
    have hremoved := h.accounted.removeCategory name
    obtain ⟨hframes, hkept⟩ := CoreCategories.removeCategory_running hlookup
    generalize s.core.removeCategory name = core at hremoved howner hframes hkept ⊢
    have hleft := tellRemoved_core (s := { s with core := core }) hremoved hframes
      List.mem_cons_self
    have hretained := CoreCategories.retained_of hframes fun _ he => by cases he
    refine h.quiet (hleft ▸ hremoved.goOn hframes hretained) howner ?_ rfl ?_
    · rw [hleft]
      exact hkept
    · rw [hleft]
      rfl

/-- Run lemma for the loop that reports removed categories. -/
theorem foldl_tellRemoved_running {array : Nat} {cats : List Nat} {frames : List CategoryFrame}
    (h : Accounted s.core)
    (hframes : s.core.frames = CoreCategories.removing array cats ++ frames) :
    Accounted (cats.foldl tellRemoved s).core ∧
      (cats.foldl tellRemoved s).core.frames = frames ∧
      (cats.foldl tellRemoved s).core.kept = s.core.kept ∧
      (cats.foldl tellRemoved s).frames = s.frames := by
  induction cats generalizing s with
  | nil => exact ⟨h, hframes, rfl, rfl⟩
  | cons p rest ih =>
    have hframes : s.core.frames = .removedAll array p rest :: frames := hframes
    have hleft := tellRemoved_core h hframes List.mem_cons_self
    have hretained := CoreCategories.retained_of hframes fun _ he => by cases he
    obtain ⟨hnext, hkept⟩ := CoreCategories.goOn_removedAll
      (c := { s.core with frames := frames }) array p rest
    rw [← hleft] at hnext hkept
    obtain ⟨haccounted, hcore, hsame, hrest⟩ := ih (s := s.tellRemoved p)
      (hleft ▸ h.goOn hframes hretained) hnext
    exact ⟨haccounted, hcore, hsame.trans hkept, hrest⟩

theorem Safe.removeAllCategories (h : Safe s) : Safe s.removeAllCategories := by
  have howner := s.removeAllCategories_sameOwner
  obtain ⟨array, hframes, hkept⟩ := CoreCategories.removeAllCategories_running h.removedHandlers
  obtain ⟨haccounted, hcore, hsame, hrest⟩ := foldl_tellRemoved_running
    (s := { s with core := s.core.removeAllCategories }) h.accounted.removeAllCategories hframes
  exact h.quiet haccounted howner (hsame.trans hkept) hrest hcore

theorem Safe.setCategoryLevel (h : Safe s) (name : String) (level : Level) :
    Safe (s.setCategoryLevel name level) := by
  have howner := s.setCategoryLevel_sameOwner name level
  have hset := h.accounted.setCategoryLevel name level
  unfold NestedServer.setCategoryLevel at howner ⊢
  cases hchange : s.core.leveling name level with
  | none =>
    rw [hchange] at howner
    obtain ⟨hframes, hkept⟩ := CoreCategories.setCategoryLevel_quiet hchange
    exact h.quiet hset howner hkept rfl hframes
  | some change =>
    rw [hchange] at howner
    obtain ⟨hframes, hkept⟩ := CoreCategories.setCategoryLevel_running hchange
    refine h.of [.level change.1] hset howner hkept rfl hframes ?_
    intro _ _ _ _ hmem
    cases List.mem_singleton.mp hmem

theorem Safe.setDefaultLevel (h : Safe s) (level : Level) : Safe (s.setDefaultLevel level) := by
  have hcore := s.setDefaultLevel_core level
  unfold NestedServer.setDefaultLevel at hcore ⊢
  split
  · refine h.of [.defaultLevel] h.accounted (.refl _) rfl rfl rfl ?_
    intro _ _ _ _ hmem
    cases List.mem_singleton.mp hmem
  · exact h

/-- A category has been enabled or disabled, and the loop waits for the handlers. -/
theorem Safe.announce (h : Safe s) {name : String} {p : Nat} {cat : DBusLogCategory}
    {enable : Bool} (hchange : s.core.enabling name enable = some (p, cat)) {loop : EnableLoop}
    (hloop : ∀ array rest, loop = .pattern array rest →
      ∃ items, s.core.arrays.read array = some items ∧ ∀ q ∈ rest, q ∈ items) :
    Safe ({ s with core := s.core.setCategoryEnabled name enable }.announce name p enable
      loop) := by
  obtain ⟨hframes, hkept⟩ := CoreCategories.setCategoryEnabled_running hchange
  refine h.of [.flags p enable loop] (h.accounted.setCategoryEnabled name enable)
    (s.core.setCategoryEnabled_sameOwner name enable).1 hkept rfl hframes ?_
  intro _ _ array rest hmem
  cases List.mem_singleton.mp hmem
  exact hloop array rest rfl

/-- Nothing has been enabled or disabled. -/
theorem Safe.unchanged (h : Safe s) {name : String} {enable : Bool}
    (hchange : s.core.enabling name enable = none) :
    Safe { s with core := s.core.setCategoryEnabled name enable } := by
  obtain ⟨hframes, hkept⟩ := CoreCategories.setCategoryEnabled_quiet hchange
  exact h.quiet (h.accounted.setCategoryEnabled name enable)
    (s.core.setCategoryEnabled_sameOwner name enable).1 hkept rfl hframes

theorem Safe.enableNames (h : Safe s) (enable : Bool) (names : List String) :
    Safe (enableNames enable names s) := by
  induction names generalizing s with
  | nil => exact h
  | cons name rest ih =>
    unfold NestedServer.enableNames
    cases hchange : s.core.enabling name enable with
    | none => exact ih (h.unchanged hchange)
    | some change => exact h.announce hchange nofun

/-- The loop is at the end of an array that the pool still has. -/
theorem Safe.enablePattern_nil (h : Safe s) (enable : Bool) {array : Nat}
    (hpool : array ∈ s.core.pool) : enablePattern enable array [] s = s := by
  unfold NestedServer.enablePattern
  rw [h.accounted.owned.arrays.use (mem_arrayOwners hpool)]

/-- Its next round -/
theorem Safe.enablePattern_cons (h : Safe s) (enable : Bool) {array q : Nat} (rest : List Nat)
    {items : List Nat} (hpool : array ∈ s.core.pool) (hread : s.core.arrays.read array = some items)
    (hq : q ∈ items) : ∃ name, (s.core.objects.read q).map (·.name) = some name ∧
      ((∃ change, s.core.enabling name enable = some change ∧
        enablePattern enable array (q :: rest) s =
          { s with core := s.core.setCategoryEnabled name enable }.announce name change.1 enable
            (.pattern array rest)) ∨
      (s.core.enabling name enable = none ∧
        enablePattern enable array (q :: rest) s =
          enablePattern enable array rest
            { s with core := s.core.setCategoryEnabled name enable })) := by
  have howned := mem_arrayOwners hpool
  have hheld : q ∈ s.core.holders :=
    List.mem_append_left _ (h.accounted.owned.mem_elements howned hread hq)
  have hcore : { s.core with
      arrays := s.core.arrays.use array
      objects := s.core.objects.use q } = s.core := by
    rw [h.accounted.owned.arrays.use howned, h.accounted.owned.objects.use hheld]
  obtain ⟨cat, hcat⟩ := Option.isSome_iff_exists.mp (h.accounted.owned.objects.read_isSome hheld)
  refine ⟨cat.name, by rw [hcat]; rfl, ?_⟩
  rw [NestedServer.enablePattern]
  dsimp only
  rw [hcore, RefMemory.read_use, hcat]
  dsimp only
  cases hchange : s.core.enabling cat.name enable with
  | none => exact .inr ⟨rfl, rfl⟩
  | some change => exact .inl ⟨change, rfl, rfl⟩

theorem Safe.enablePattern (h : Safe s) (enable : Bool) {array : Nat} {cats items : List Nat}
    (hpool : array ∈ s.core.pool) (hread : s.core.arrays.read array = some items)
    (hcats : ∀ q ∈ cats, q ∈ items) : Safe (enablePattern enable array cats s) := by
  induction cats generalizing s with
  | nil =>
    rw [h.enablePattern_nil enable hpool]
    exact h
  | cons q rest ih =>
    have hrest : ∀ q ∈ rest, q ∈ items := fun q hq => hcats q (List.mem_cons_of_mem _ hq)
    obtain ⟨name, _, ⟨change, hchange, he⟩ | ⟨hchange, he⟩⟩ :=
      h.enablePattern_cons enable rest hpool hread (hcats q List.mem_cons_self)
    · rw [he]
      refine h.announce hchange fun _ _ he => ?_
      cases he
      exact ⟨items, hread, hrest⟩
    · rw [he]
      have hset := s.core.setCategoryEnabled_sameOwner name enable
      refine ih (h.unchanged hchange) ?_ (hset.1.read array items hread) hrest
      rw [hset.2]
      exact hpool

theorem Safe.findCategories (h : Safe s) (matching : String → Bool) :
    Safe { s with core := s.core.findCategories matching } :=
  h.quiet (h.accounted.findCategories matching)
    (CoreCategories.findCategories_sameOwner matching) rfl rfl rfl

theorem Safe.setPatternEnabled (h : Safe s) (matching : String → Bool) (enable : Bool) :
    Safe (s.setPatternEnabled matching enable) := by
  have hfound := h.findCategories matching
  exact hfound.enablePattern enable List.mem_cons_self (RefMemory.read_alloc_self _) fun _ => id

/-- The application handlers have returned, and so do those of the server. -/
theorem Safe.returned (h : Safe s) {frame : ServerFrame} {frames : List ServerFrame}
    (hframes : s.frames = frame :: frames) {p : Nat} (hframe : frame.coreFrame? = some (.changed p))
    (signal : DBusLogCategory → BusSignal) :
    Safe ({ s with frames := frames }.tell p signal).leave ∧
      ({ s with frames := frames }.tell p signal).leave.core.pool = s.core.pool := by
  have hcore : s.core.frames = .changed p :: frames.filterMap ServerFrame.coreFrame? := by
    rw [h.synced, hframes, List.filterMap_cons, hframe]
  have hretained := CoreCategories.retained_of hcore fun _ he => by cases he
  have hleft := tell_leave_core (s := { s with frames := frames }) h.accounted hcore
    List.mem_cons_self signal
  refine ⟨⟨hleft ▸ h.accounted.goOn hcore hretained, ?_, ?_, ?_, ?_, ?_⟩, ?_⟩
  · rw [hleft]
    rfl
  · intro p' enable array rest hmem
    rw [hleft]
    exact h.loops p' enable array rest (hframes ▸ List.mem_cons_of_mem _ hmem)
  · rw [hleft]
    exact h.kept
  · rw [hleft]
    exact h.keptArrays
  · rw [hleft]
    exact h.removedHandlers
  · rw [hleft]
    rfl

/-- The array of a loop that goes on is still there, with what is to come. -/
theorem Safe.pending (h : Safe s) {p array : Nat} {enable : Bool} {rest : List Nat}
    {frames : List ServerFrame}
    (hframes : s.frames = .flags p enable (.pattern array rest) :: frames)
    (hpool : array ∈ s.core.pool) (signal : DBusLogCategory → BusSignal) :
    array ∈ ({ s with frames := frames }.tell p signal).leave.core.pool ∧
      ∃ items, ({ s with frames := frames }.tell p signal).leave.core.arrays.read array =
        some items ∧ ∀ q ∈ rest, q ∈ items := by
  obtain ⟨items, hread, hrest⟩ := h.loops p enable array rest (hframes ▸ List.mem_cons_self)
  have howner : SameOwner s.core ({ s with frames := frames }.tell p signal).leave.core :=
    (tell_sameOwner (s := { s with frames := frames }) p signal).trans leave_sameOwner
  refine ⟨?_, items, howner.read array items hread, hrest⟩
  rw [(h.returned hframes rfl signal).2]
  exact hpool

theorem Safe.goOn (h : Safe s) {frame : ServerFrame} {frames : List ServerFrame}
    (hframes : s.frames = frame :: frames) (hundrained : Undrained s .handlersReturn) :
    Safe ({ s with frames := frames }.goOn frame) := by
  unfold Undrained at hundrained
  rw [hframes] at hundrained
  cases frame with
  | flags p enable loop =>
    obtain ⟨hreturned, _⟩ := h.returned hframes rfl fun cat =>
      .categoryFlagsChanged cat.id cat.flags.toUInt32
    cases loop with
    | names rest => exact hreturned.enableNames enable rest
    | pattern array rest =>
      obtain ⟨hpool, items, hread, hrest⟩ := h.pending hframes hundrained fun cat =>
        .categoryFlagsChanged cat.id cat.flags.toUInt32
      exact hreturned.enablePattern enable hpool hread hrest
  | level p => exact (h.returned hframes rfl _).1
  | defaultLevel =>
    refine ⟨h.accounted, ?_, ?_, h.kept, h.keptArrays, h.removedHandlers⟩
    · show s.core.frames = frames.filterMap ServerFrame.coreFrame?
      rw [h.synced, hframes]
      rfl
    · intro p enable array rest hmem
      exact h.loops p enable array rest (hframes ▸ List.mem_cons_of_mem _ hmem)

/-- Step lemma. -/
theorem Safe.step (h : Safe s) {call : ServerCall} (hundrained : Undrained s call)
    (hs : s.step call = some s') : Safe s' := by
  cases call with
  | addCategory name level flags =>
    cases hs
    exact h.addCategory name level flags
  | removeCategory name =>
    cases hs
    exact h.removeCategory name
  | removeAllCategories =>
    cases hs
    exact h.removeAllCategories
  | setCategoryLevel name level =>
    cases hs
    exact h.setCategoryLevel name level
  | setDefaultLevel level =>
    cases hs
    exact h.setDefaultLevel level
  | setNamesEnabled names enable =>
    cases hs
    exact h.enableNames enable names
  | setPatternEnabled matching enable =>
    cases hs
    exact h.setPatternEnabled matching enable
  | log cname =>
    cases hs
    obtain ⟨hframes, hkept⟩ := CoreCategories.log_quiet (c := s.core) cname
    exact h.quiet (h.accounted.log cname) (CoreCategories.log_sameOwner cname) hkept rfl hframes
  | handlersReturn =>
    obtain ⟨frame, frames, hframes, rfl⟩ := handlersReturn_iff.mp hs
    exact h.goOn hframes hundrained
  | drainPool =>
    cases hs
    exact h.quiet h.accounted.drainPool CoreCategories.drainPool_sameOwner rfl rfl rfl

/-! ## What goes wrong -/

/-- Only the pool has references to arrays while no loop of the core is running. -/
theorem Safe.arrayOwners (h : Safe s) : s.core.arrayOwners = s.core.pool := by
  have hnone : s.core.frames.flatMap CategoryFrame.heldArrays = [] := by
    rw [h.synced]
    refine List.flatMap_eq_nil_iff.mpr fun frame hframe => ?_
    obtain ⟨server, _, hserver⟩ := List.mem_filterMap.mp hframe
    cases server with
    | defaultLevel => cases hserver
    | _ =>
      cases hserver
      rfl
  unfold CoreCategories.arrayOwners
  rw [hnone, h.keptArrays, List.append_nil, List.append_nil]

theorem enablePattern_faulted {enable : Bool} {array : Nat} (cats : List Nat)
    (hdead : s.core.arrays.alive array = false) :
    (enablePattern enable array cats s).core.faulted = true := by
  have hfault : RefArrays.faulted { s.core.toRefArrays with
      arrays := s.core.arrays.use array } = true := by
    unfold RefArrays.faulted
    rw [RefMemory.faulted_use_of_dead hdead]
    exact Bool.or_true _
  exact (enablePattern_used enable array cats).faulted hfault

/-- The loop looks at an array that is gone. -/
theorem Safe.faults (h : Safe s) {call : ServerCall} (hdrained : ¬Undrained s call)
    (hs : s.step call = some s') : s'.core.faulted = true := by
  cases call with
  | handlersReturn =>
    obtain ⟨frame, frames, hframes, rfl⟩ := handlersReturn_iff.mp hs
    unfold Undrained at hdrained
    rw [hframes] at hdrained
    cases frame with
    | flags p enable loop =>
      cases loop with
      | names rest => exact absurd trivial hdrained
      | pattern array rest =>
        obtain ⟨hreturned, hpool⟩ := h.returned hframes rfl fun cat =>
          .categoryFlagsChanged cat.id cat.flags.toUInt32
        refine enablePattern_faulted rest (Bool.eq_false_of_not_eq_true fun halive => hdrained ?_)
        have hmem := hreturned.accounted.owned.arrays.alive_iff.mp halive
        rw [hreturned.arrayOwners, hpool] at hmem
        exact hmem
    | _ => exact absurd trivial hdrained
  | _ => exact absurd trivial hdrained

/-! ## Runs -/

/-- Which runs misuse nothing -/
theorem meets_iff_clean {calls : List ServerCall} (hrun : Runs.run step new calls = some s) :
    Runs.Meets step Undrained new calls ↔ s.core.faulted = false := by
  rw [← Bool.not_eq_true]
  exact Runs.meets_iff_not (P := Safe) (F := fun s => s.core.faulted = true)
    (fun _ _ _ h hundrained hs => h.step hundrained hs)
    (fun _ _ _ h hdrained hs => h.faults hdrained hs)
    (fun _ _ _ h hs => (step_sameOwner hs).faulted h)
    (fun _ h => Bool.eq_false_iff.mp h.accounted.owned.clean) hrun new_safe

/-- The memory of a server is safe under applications whose handlers call it, nested in any way,
but for the array of `dbus_log_server_call_set_pattern_enabled`, which only the idle pool owns:
nothing is misused if and only if, each time the handlers for a category that a pattern has enabled
or disabled return, the pool still has the array. As long as this is so, the references that the
table, the arrays, the running functions and the callers have are the reference counts; and when
nothing is running and the pool is empty, exactly the categories of the table are left. -/
theorem patternArraysOwned (calls : List ServerCall) (s : NestedServer)
    (hrun : Runs.run step new calls = some s) :
    (s.core.faulted = false ↔ Runs.Meets step Undrained new calls) ∧
    (s.core.faulted = false →
      (∀ p cell, s.core.objects.heap[p]? = some cell →
        cell.refCount = s.core.holders.count p) ∧
      (s.frames = [] → s.core.pool = [] →
        ∀ p, s.core.objects.alive p = true ↔ p ∈ s.core.pointers)) := by
  refine ⟨(meets_iff_clean hrun).symm, fun hclean => ?_⟩
  have h : Safe s := Runs.invariant_of_meets (P := Safe)
    (fun _ _ _ h hundrained hs => h.step hundrained hs) ((meets_iff_clean hrun).mpr hclean) hrun
    new_safe
  refine ⟨h.accounted.owned.objects.counted.count, fun hframes hpool p => ?_⟩
  have hcore : s.core.frames = [] := by
    rw [h.synced, hframes]
    rfl
  have hempty : RefArrays.elements s.core.arrays.heap = [] := by
    refine RefArrays.elements_eq_nil ?_
    rw [← hpool, ← h.arrayOwners]
    exact h.accounted.owned.arrays
  have hholders : s.core.holders = s.core.pointers := by
    simp [CoreCategories.holders, CoreCategories.owners, hempty, hcore, h.kept]
  rw [h.accounted.owned.objects.alive_iff, ← hholders]
  exact Iff.rfl

/-- A pattern enables two categories, and the handlers for the first one remove all of them. -/
def removedMeanwhile : List ServerCall :=
  [.addCategory "net" 0 0, .addCategory "usb" 0 0, .setPatternEnabled (fun _ => true) true,
    .removeAllCategories, .addCategory "net" 6 1, .handlersReturn, .drainPool]

/-- The handlers for the first category let the main loop run. -/
def drainedMeanwhile : List ServerCall :=
  [.addCategory "net" 0 0, .addCategory "usb" 0 0, .setPatternEnabled (fun _ => true) true,
    .drainPool, .handlersReturn]

theorem patternArraysOwned_drained : ∃ s t,
    Runs.run step new removedMeanwhile = some s ∧ Runs.run step new drainedMeanwhile = some t ∧
    Runs.Meets step Undrained new removedMeanwhile ∧
    (∀ p, s.core.objects.alive p = true ↔ p ∈ s.core.pointers) ∧
    ¬Runs.Meets step Undrained new drainedMeanwhile := by
  obtain ⟨s, hs, he⟩ := Option.map_eq_some_iff.mp (by decide +kernel :
    (Runs.run step new removedMeanwhile).map (fun s =>
      (s.core.faulted, s.frames, s.core.pool, s.core.pointers)) = some (false, [], [], [2]))
  obtain ⟨hclean, hrest⟩ := Prod.mk.inj he
  obtain ⟨hframes, hrest⟩ := Prod.mk.inj hrest
  obtain ⟨hpool, _⟩ := Prod.mk.inj hrest
  obtain ⟨t, ht, hfaulted⟩ := Option.map_eq_some_iff.mp (by decide +kernel :
    (Runs.run step new drainedMeanwhile).map (fun s => s.core.faulted) = some true)
  obtain ⟨hiff, hsafe⟩ := patternArraysOwned removedMeanwhile s hs
  refine ⟨s, t, hs, ht, hiff.mp hclean, (hsafe hclean).2 hframes hpool, fun hmeets => ?_⟩
  have hclean := (patternArraysOwned drainedMeanwhile t ht).1.mpr hmeets
  exact absurd (hfaulted.symm.trans hclean) Bool.true_eq_false.mp

end NestedServer

end DBusLog

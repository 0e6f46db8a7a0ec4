import DBusLog.Core.Categories
import DBusLog.Core.Identity

/-!
# The names behind the ids

While ids last, an id stands for one name, that of the category which it has been issued for. The
chronicle of a core is the list of these names, the oldest first. It only grows: categories that are
removed stay in it, and one that comes back under its name comes back under a new id.
-/

namespace DBusLog

/-- The name that an id has been issued for, by a chronicle. -/
def nameOf (names : List String) (id : UInt32) : Option String :=
  if id = 0 then none else names[id.toNat - 1]?

section Names

variable {names names' : List String} {id : UInt32} {name : String}

theorem nameOf_eq_some_iff :
    nameOf names id = some name ↔ ∃ k, id.toNat = k + 1 ∧ names[k]? = some name := by
  unfold nameOf
  by_cases hid : id = 0
  · rw [if_pos hid, hid]
    constructor
    · intro h
      cases h
    · rintro ⟨k, hk, _⟩
      cases hk
  · rw [if_neg hid]
    have hpos : id.toNat ≠ 0 := fun hzero => hid (UInt32.toNat_inj.mp hzero)
    constructor
    · intro h
      exact ⟨id.toNat - 1, by omega, h⟩
    · rintro ⟨k, hk, h⟩
      rw [hk]
      exact h

/-- Later names do not change what an id stands for. -/
theorem nameOf_mono (h : nameOf names id = some name) (hle : names <+: names') :
    nameOf names' id = some name := by
  obtain ⟨k, hk, hname⟩ := nameOf_eq_some_iff.mp h
  obtain ⟨more, rfl⟩ := hle
  obtain ⟨hlt, _⟩ := List.getElem?_eq_some_iff.mp hname
  exact nameOf_eq_some_iff.mpr ⟨k, hk, (List.getElem?_append_left hlt).trans hname⟩

/-- The ids in use are those of the names. -/
theorem toNat_le_of_nameOf (h : nameOf names id = some name) : id.toNat ≤ names.length := by
  obtain ⟨k, hk, hname⟩ := nameOf_eq_some_iff.mp h
  obtain ⟨hlt, _⟩ := List.getElem?_eq_some_iff.mp hname
  omega

theorem nameOf_concat (h : id.toNat = names.length + 1) :
    nameOf (names ++ [name]) id = some name :=
  nameOf_eq_some_iff.mpr ⟨names.length, h, List.getElem?_concat_length⟩

end Names

/-- A new category has an id that comes after those of `names`, and `names'` has its name. -/
def CoreSignal.Issued (names names' : List String) : CoreSignal → Prop
  | .categoryAdded cat => names.length < cat.id.toNat ∧ nameOf names' cat.id = some cat.name
  | .categoryRemoved _ | .categoryFlags _ _ | .categoryLevel _ | .backlog | .defaultLevel => True

namespace DBusLogCore

/-! ## What the operations emit -/

/-- Only signals of one kind come between `c` and `c'`. -/
def Emits (p : CoreSignal → Prop) (c c' : DBusLogCore) : Prop :=
  ∃ log, c'.signals = c.signals ++ log ∧ ∀ signal ∈ log, p signal

section Emits

variable {p q : CoreSignal → Prop} {c c' c'' : DBusLogCore}

theorem Emits.nothing (h : c'.signals = c.signals) : Emits p c c' :=
  ⟨[], h.trans (List.append_nil _).symm, fun _ hsignal => (nomatch hsignal)⟩

theorem Emits.one {signal : CoreSignal} (h : c'.signals = c.signals ++ [signal]) (hp : p signal) :
    Emits p c c' := by
  refine ⟨[signal], h, fun other hother => ?_⟩
  rw [List.mem_singleton.mp hother]
  exact hp

theorem Emits.mono (h : Emits p c c') (hpq : ∀ signal, p signal → q signal) : Emits q c c' := by
  obtain ⟨log, hlog, hp⟩ := h
  exact ⟨log, hlog, fun signal hsignal => hpq signal (hp signal hsignal)⟩

variable (c)

theorem setCategoryEnabled_emits (name : String) (enable : Bool) :
    Emits (fun signal => ∃ cat mask, signal = .categoryFlags cat mask) c
      (c.setCategoryEnabled name enable) := by
  unfold setCategoryEnabled
  split
  · split
    split
    · exact .one rfl ⟨_, _, rfl⟩
    · exact .nothing rfl
  · exact .nothing rfl

theorem setCategoryLevel_emits (name : String) (level : Level) :
    Emits (fun signal => ∃ cat, signal = .categoryLevel cat) c
      (c.setCategoryLevel name level).2 := by
  unfold setCategoryLevel
  split
  · split
    · dsimp only
      split
      · exact .one rfl ⟨_, rfl⟩
      · exact .nothing rfl
    · exact .nothing rfl
  · exact .nothing rfl

theorem removeCategory_emits (name : String) :
    Emits (fun signal => ∃ cat, signal = .categoryRemoved cat) c (c.removeCategory name).2 := by
  unfold removeCategory
  split
  · exact .one rfl ⟨_, rfl⟩
  · exact .nothing rfl

theorem removeAllCategories_emits :
    Emits (fun signal => ∃ cat, signal = .categoryRemoved cat) c c.removeAllCategories := by
  unfold removeAllCategories
  rw [emitAll_eq]
  split
  · split
    · refine ⟨c.getCategories.map .categoryRemoved, rfl, fun signal hsignal => ?_⟩
      obtain ⟨cat, _, rfl⟩ := List.mem_map.mp hsignal
      exact ⟨cat, rfl⟩
    · exact .nothing rfl
  · exact .nothing rfl

theorem newCategory_emits (name : String) (level : Level) (flags : UInt64) :
    Emits (fun signal => ∃ cat, signal = .categoryAdded cat) c (c.newCategory name level flags).2 := by
  unfold newCategory
  split
  · exact .nothing rfl
  · exact .one rfl ⟨_, rfl⟩

theorem setDefaultLevel_emits (level : Level) :
    Emits (fun signal => signal = .defaultLevel) c (c.setDefaultLevel level).2 := by
  unfold setDefaultLevel
  split
  · dsimp only
    split
    · exact .one rfl rfl
    · exact .nothing rfl
  · exact .nothing rfl

theorem setBacklog_emits
    (ringSetMaxSize : BoundedRing DBusLogMessage → Int32 → BoundedRing DBusLogMessage)
    (backlog : Int32) :
    Emits (fun signal => signal = .backlog) c (c.setBacklog ringSetMaxSize backlog) := by
  unfold setBacklog
  dsimp only
  split
  · refine .one ?_ rfl
    exact congrArg (· ++ [CoreSignal.backlog]) (runSenders_settings
      { c with backlog := DBusLogSender.normalizeBacklog backlog } c.registered _).2
  · exact .nothing rfl

end Emits

/-! ## The chronicle -/

/-- `names` is the chronicle of the core. -/
structure Chronicled (names : List String) (c : DBusLogCore) : Prop where
  counted : c.lastCid.toNat = names.length
  named : ∀ cat ∈ c.categories.values, nameOf names cat.id = some cat.name

/-- The core `c` has become `c'`, its chronicle has grown from `names` to `names'`, and the signals
agree with it. -/
structure Continued (names : List String) (c : DBusLogCore) (names' : List String)
    (c' : DBusLogCore) : Prop where
  grown : names <+: names'
  chronicled : Chronicled names' c'
  signals : Emits (CoreSignal.Issued names names') c c'

section Chronicle

variable {names : List String} {c c' : DBusLogCore} {name : String}

theorem chronicled_new (backlog : Int32) (removedHandlers : Bool) :
    Chronicled [] (new backlog removedHandlers) := ⟨rfl, fun _ hcat => (nomatch hcat)⟩

theorem Chronicled.kept (h : Chronicled names c) (hk : Kept c c') : Chronicled names c' := by
  refine ⟨hk.lastCid ▸ h.counted, fun cat' hcat' => ?_⟩
  obtain ⟨cat, hcat, hname, hid⟩ := hk.values cat' hcat'
  rw [← hname, ← hid]
  exact h.named cat hcat

/-- Only the tables matter. -/
theorem Chronicled.of_settings (h : Chronicled names c) (hs : c'.settings = c.settings) :
    Chronicled names c' := by
  refine h.kept (.of_eq ?_ (settings_categories hs))
  have he := congrArg lastCid hs
  exact he

/-- No category is new. -/
theorem Chronicled.continued {p : CoreSignal → Prop} (h : Chronicled names c) (hk : Kept c c')
    (he : Emits p c c') (hp : ∀ signal, p signal → signal.Issued names names) :
    Continued names c names c' := ⟨List.prefix_rfl, h.kept hk, he.mono hp⟩

/-- The name of a new category goes to the end of the chronicle. -/
theorem newCategory_continued (h : Chronicled names c) (hroom : names.length + 1 < 2 ^ 32)
    (hname : c.categories.lookup name = none) (level : Level) (flags : UInt64) :
    Continued names c (names ++ [name]) (c.newCategory name level flags).2 := by
  obtain ⟨cat, hcat, hid, _, he⟩ := newCategory_eq hname level flags
  have hnext : (c.lastCid + 1).toNat = names.length + 1 := by
    rw [UInt32.toNat_add, h.counted]
    change (names.length + 1) % 2 ^ 32 = names.length + 1
    omega
  -- the counter does not wrap
  have hne : c.lastCid + 1 ≠ 0 := by
    intro hzero
    rw [hzero] at hnext
    cases hnext
  rw [if_neg hne] at hid
  rw [← hid] at hnext
  have hnew : nameOf (names ++ [name]) cat.id = some cat.name := by
    rw [hcat]
    exact nameOf_concat hnext
  rw [he]
  refine ⟨List.prefix_append _ _, ⟨?_, fun other hother => ?_⟩, .one rfl ⟨?_, hnew⟩⟩
  · change cat.id.toNat = _
    rw [hnext, List.length_append]
    rfl
  · obtain rfl | ⟨hold, _⟩ := (KeyedTable.mem_insert_iff _).mp hother
    · exact hnew
    · exact nameOf_mono (h.named other hold) (List.prefix_append _ _)
  · exact Nat.lt_of_lt_of_eq (Nat.lt_succ_self _) hnext.symm

theorem newCategory_old (h : Chronicled names c) (hname : (c.categories.lookup name).isSome)
    (level : Level) (flags : UInt64) : Continued names c names (c.newCategory name level flags).2 := by
  obtain ⟨cat, hcat⟩ := Option.isSome_iff_exists.mp hname
  unfold newCategory
  rw [hcat]
  exact ⟨List.prefix_rfl, h, .nothing rfl⟩

theorem setCategoryEnabled_continued (h : Chronicled names c) (name : String) (enable : Bool) :
    Continued names c names (c.setCategoryEnabled name enable) := by
  refine h.continued (setCategoryEnabled_kept name enable) (setCategoryEnabled_emits c name enable) ?_
  rintro _ ⟨cat, mask, rfl⟩
  trivial

theorem setCategoryLevel_continued (h : Chronicled names c) (name : String) (level : Level) :
    Continued names c names (c.setCategoryLevel name level).2 := by
  refine h.continued (setCategoryLevel_kept name level) (setCategoryLevel_emits c name level) ?_
  rintro _ ⟨cat, rfl⟩
  trivial

theorem removeCategory_continued (h : Chronicled names c) (name : String) :
    Continued names c names (c.removeCategory name).2 := by
  refine h.continued (removeCategory_kept name) (removeCategory_emits c name) ?_
  rintro _ ⟨cat, rfl⟩
  trivial

theorem removeAllCategories_continued (h : Chronicled names c) :
    Continued names c names c.removeAllCategories := by
  refine h.continued removeAllCategories_kept (removeAllCategories_emits c) ?_
  rintro _ ⟨cat, rfl⟩
  trivial

theorem setDefaultLevel_continued (h : Chronicled names c) (level : Level) :
    Continued names c names (c.setDefaultLevel level).2 := by
  refine h.continued (setDefaultLevel_kept level) (setDefaultLevel_emits c level) ?_
  rintro _ rfl
  trivial

/-- The backlog has no part in the category table. -/
theorem setBacklog_tables
    (ringSetMaxSize : BoundedRing DBusLogMessage → Int32 → BoundedRing DBusLogMessage)
    (c : DBusLogCore) (backlog : Int32) :
    (c.setBacklog ringSetMaxSize backlog).lastCid = c.lastCid ∧
      (c.setBacklog ringSetMaxSize backlog).categories = c.categories ∧
      (c.setBacklog ringSetMaxSize backlog).removedHandlers = c.removedHandlers ∧
      (c.setBacklog ringSetMaxSize backlog).defaultLevel = c.defaultLevel ∧
      (c.setBacklog ringSetMaxSize backlog).backlog = DBusLogSender.normalizeBacklog backlog := by
  unfold setBacklog
  dsimp only
  split
  · have hs := (runSenders_settings
      { c with backlog := DBusLogSender.normalizeBacklog backlog } c.registered
      fun s => { s with
        buffer := ringSetMaxSize s.buffer
          (DBusLogSender.normalizeBacklog (DBusLogSender.normalizeBacklog backlog)) }).1
    have hlast := congrArg lastCid hs
    have hcategories := settings_categories hs
    have hheard := congrArg (fun d : DBusLogCore => d.removedHandlers) hs
    have hlevel := settings_defaultLevel hs
    have hbacklog := settings_backlog hs
    exact ⟨hlast, hcategories, hheard, hlevel, hbacklog⟩
  · rename_i hsame
    exact ⟨rfl, rfl, rfl, rfl, not_not.mp hsame⟩

theorem setBacklog_continued
    (ringSetMaxSize : BoundedRing DBusLogMessage → Int32 → BoundedRing DBusLogMessage)
    (h : Chronicled names c) (backlog : Int32) :
    Continued names c names (c.setBacklog ringSetMaxSize backlog) := by
  obtain ⟨hlast, hcategories, _⟩ := setBacklog_tables ringSetMaxSize c backlog
  refine h.continued (.of_eq hlast hcategories) (setBacklog_emits c ringSetMaxSize backlog) ?_
  rintro _ rfl
  trivial

end Chronicle

/-! ## Log calls -/

/-- The tables are the same, and some messages have been handed over, all of them with the id. -/
structure Hands (id : UInt32) (c c' : DBusLogCore) : Prop where
  settings : c'.settings = c.settings
  handed : ∃ more, c'.handed = c.handed ++ more ∧ ∀ h ∈ more, h.2.category = id

section Hands

variable {id : UInt32} {c c' c'' : DBusLogCore}

/-- Nothing has been handed over. -/
theorem Hands.nothing (id : UInt32) (hsettings : c'.settings = c.settings)
    (hhanded : c'.handed = c.handed) : Hands id c c' :=
  ⟨hsettings, [], hhanded.trans (List.append_nil _).symm, fun _ h => (nomatch h)⟩

theorem Hands.trans (h : Hands id c c') (h' : Hands id c' c'') : Hands id c c'' := by
  obtain ⟨more, hmore, hid⟩ := h.handed
  obtain ⟨more', hmore', hid'⟩ := h'.handed
  refine ⟨h'.settings.trans h.settings, more ++ more', ?_, fun handed hmem => ?_⟩
  · rw [hmore', hmore, List.append_assoc]
  · obtain hleft | hright := List.mem_append.mp hmem
    · exact hid handed hleft
    · exact hid' handed hright

theorem touch_handed (c : DBusLogCore) (array : Nat) : (c.touch array).handed = c.handed := by
  unfold touch
  split
  · rfl
  · rfl

theorem removeSender_handed (c : DBusLogCore) (i : Nat) :
    (c.removeSender i).2.handed = c.handed := by
  unfold removeSender
  dsimp only
  rw [← touch_handed c c.senders]
  cases (c.touch c.senders).registered.idxOf? i with
  | none => rfl
  | some index =>
    dsimp only
    obtain ⟨objects, hframe, _⟩ := removeHandler_frame (c.touch c.senders) i
      ((((c.touch c.senders).senderSignalIds.lookup i).map Prod.snd).getD 0)
    rw [hframe]
    rfl

theorem runSender_handed (c : DBusLogCore) (i : Nat) (f : DBusLogSender → DBusLogSender) :
    (c.runSender i f).handed = c.handed := by
  unfold runSender
  cases c.objects[i]? with
  | none => rfl
  | some object =>
    dsimp only
    split
    · exact removeSender_handed _ i
    · rfl

/-- One call of `dbus_log_sender_send` hands over one message. -/
theorem hand_hands (c : DBusLogCore) (ctx : LogContext) (msg : DBusLogMessage) (i : Nat) :
    Hands msg.category c (c.hand ctx msg i) := by
  unfold hand
  refine ⟨(runSender_settings _ i _).1, [(i, msg)], runSender_handed _ i _, fun h hmem => ?_⟩
  rw [List.mem_singleton.mp hmem]

theorem sendLoop_hands (ctx : LogContext) (msg : DBusLogMessage) (array fuel i : Nat)
    (c : DBusLogCore) : Hands msg.category c (sendLoop ctx msg array fuel i c) := by
  induction fuel generalizing i c with
  | zero => exact .nothing _ rfl rfl
  | succ fuel ih =>
    have htouched : Hands msg.category c (c.touch array) :=
      .nothing _ (touch_settings c array) (touch_handed c array)
    unfold sendLoop
    dsimp only
    split
    · exact htouched
    · exact htouched.trans ((hand_hands _ ctx msg _).trans (ih (i + 1) _))

/-- A broadcast of a message that has been stamped already. -/
theorem broadcast_hands (c : DBusLogCore) (ctx : LogContext) (msg : DBusLogMessage) (fuel : Nat) :
    Hands msg.category c
      (let c' := sendLoop ctx msg c.senders fuel 0 { c.touch c.senders with
        arrays := (c.touch c.senders).arrays.ref c.senders
        nextMsgIndex := (c.touch c.senders).nextMsgIndex + 1 }
      { c' with arrays := c'.arrays.unref c.senders }) := by
  have hbegun : Hands msg.category c { c.touch c.senders with
      arrays := (c.touch c.senders).arrays.ref c.senders
      nextMsgIndex := (c.touch c.senders).nextMsgIndex + 1 } :=
    .nothing _ (touch_settings c c.senders) (touch_handed c c.senders)
  exact (hbegun.trans (sendLoop_hands ctx msg c.senders fuel 0 _)).trans (.nothing _ rfl rfl)

/-- What a broadcast hands over has the id of its category, if it has one. -/
theorem send_hands (c : DBusLogCore) (ctx : LogContext) (cat : Option DBusLogCategory)
    {msg : DBusLogMessage} (hcategory : msg.category = 0) :
    Hands ((cat.map (·.id)).getD 0) c (c.send ctx cat msg) := by
  cases cat with
  | none =>
    have hhands := broadcast_hands c ctx { msg with
      timestamp := ctx.time
      index := (c.touch c.senders).nextMsgIndex }
    rw [← hcategory]
    exact hhands _
  | some cat => exact broadcast_hands c ctx { msg with
      timestamp := ctx.time
      index := (c.touch c.senders).nextMsgIndex
      category := cat.id } _

/-- A log call puts the id of its category on the message. -/
theorem logMessage_hands (c : DBusLogCore) (ctx : LogContext) (level : Level)
    (cname : Option String) {msg : DBusLogMessage} (hcategory : msg.category = 0) :
    Hands (c.categoryId cname) c (c.logMessage ctx level cname msg).2 := by
  unfold logMessage
  cases hs : c.shouldLog level cname with
  | mk accepted cat =>
    cases accepted with
    | false => exact .nothing _ rfl rfl
    | true =>
      have hcat := shouldLog_category c level cname (by rw [hs])
      rw [hs] at hcat
      unfold categoryId
      rw [← hcat]
      exact send_hands c ctx cat hcategory

theorem log_hands (c : DBusLogCore) (ctx : LogContext) (level : Level) (cname : Option String)
    (message : Option (List UInt8)) :
    Hands (c.categoryId cname) c (c.log ctx level cname message).2 :=
  logMessage_hands c ctx level cname (by cases message <;> rfl)

theorem logv_hands (c : DBusLogCore) (ctx : LogContext) (level : Level) (cname : Option String)
    (formatted : Option (List UInt8)) :
    Hands (c.categoryId cname) c (c.logv ctx level cname formatted).2 :=
  logMessage_hands c ctx level cname (by cases formatted <;> rfl)

/-- That id stands for the name of the category. -/
theorem Chronicled.nameOf_categoryId {names : List String} (h : Chronicled names c)
    {cname : Option String} (hregistered : (cname.bind c.categories.lookup).isSome = true) :
    ∃ name, cname = some name ∧ nameOf names (c.categoryId cname) = some name := by
  obtain ⟨cat, hcat⟩ := Option.isSome_iff_exists.mp hregistered
  obtain ⟨name, hname, hlookup⟩ := Option.bind_eq_some_iff.mp hcat
  refine ⟨name, hname, ?_⟩
  unfold categoryId
  rw [hcat, ← KeyedTable.key_of_lookup hlookup]
  exact h.named cat (KeyedTable.mem_of_lookup hlookup)

theorem categoryId_of_unregistered {cname : Option String}
    (h : (cname.bind c.categories.lookup).isSome = false) : c.categoryId cname = 0 := by
  unfold categoryId
  rw [Option.isSome_eq_false_iff.mp h |> Option.isNone_iff_eq_none.mp]
  rfl

end Hands

end DBusLogCore

end DBusLog

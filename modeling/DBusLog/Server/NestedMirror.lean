import DBusLog.Client.Replica
import DBusLog.Server.Reentrancy

/-!
# Clients of a server whose handlers call it

The server tells the bus about a changed category when the handlers of the application have
returned, so what clients know may be behind. It is never behind in which categories there are and
in their names. What is behind are the flags of categories whose handlers are running, and the
signal that follows has the flags of that moment, however often they have changed; when a handler
has removed the category, the signal changes nothing. A client may take its snapshot at any moment.
-/

namespace DBusLog

open ChangeLog

namespace DBusLogCore

section Catalogue

variable {n : Nat} {d d' : DBusLogCore} {cat : DBusLogCategory} {name : String}
  {log : List CoreSignal}

/-- The signals say what has changed. -/
theorem Journal.of_signals (h : ∃ log, Journal n d d' log)
    (hsignals : d'.signals = d.signals ++ log) : Journal n d d' log := by
  obtain ⟨log', hlog'⟩ := h
  rw [List.append_cancel_left (hsignals.symm.trans hlog'.signals)]
  exact hlog'

theorem setCategoryEnabled_signals (hlookup : d.categories.lookup name = some cat)
    (enable : Bool) : ∃ log, (d.setCategoryEnabled name enable).signals = d.signals ++ log ∧
      ∀ signal ∈ log, ∃ flags, signal =
        .categoryFlags { cat with flags := flags } CategoryFlag.enabled := by
  unfold setCategoryEnabled
  rw [hlookup]
  dsimp only
  split
  · refine ⟨[_], rfl, fun signal hsignal => ?_⟩
    rw [List.mem_singleton.mp hsignal]
    exact ⟨_, rfl⟩
  · split
    · refine ⟨[_], rfl, fun signal hsignal => ?_⟩
      rw [List.mem_singleton.mp hsignal]
      exact ⟨_, rfl⟩
    · exact ⟨[], (List.append_nil _).symm, fun _ hsignal => absurd hsignal List.not_mem_nil⟩

theorem setCategoryLevel_signals (name : String) (level : Level) :
    ∃ log, (d.setCategoryLevel name level).2.signals = d.signals ++ log ∧
      log.flatMap CoreSignal.changes = [] := by
  unfold setCategoryLevel
  split
  · split
    · split
      · exact ⟨[_], rfl, rfl⟩
      · exact ⟨[], (List.append_nil _).symm, rfl⟩
    · exact ⟨[], (List.append_nil _).symm, rfl⟩
  · exact ⟨[], (List.append_nil _).symm, rfl⟩

/-- Changes of the flags of one category -/
theorem replay_flags {log : List CoreSignal} (hlog : ∀ signal ∈ log, ∃ flags, signal =
    .categoryFlags { cat with flags := flags } CategoryFlag.enabled)
    (table : UInt32 → Option (String × UInt64)) (id : UInt32) :
    (replay table (log.flatMap CoreSignal.changes) id).map Prod.fst = (table id).map Prod.fst ∧
      (id ≠ cat.id → replay table (log.flatMap CoreSignal.changes) id = table id) := by
  induction log generalizing table with
  | nil => exact ⟨rfl, fun _ => rfl⟩
  | cons signal log ih =>
    obtain ⟨flags, rfl⟩ := hlog signal List.mem_cons_self
    have hone : CoreSignal.changes (.categoryFlags { cat with flags := flags }
        CategoryFlag.enabled) = [.modify cat.id fun e => (e.1, flags)] := rfl
    obtain ⟨hnames, hothers⟩ := ih (fun signal hsignal => hlog signal
      (List.mem_cons_of_mem _ hsignal)) (Function.update table cat.id
        ((table cat.id).map fun e => (e.1, flags)))
    rw [List.flatMap_cons, hone, replay_append, replay_singleton, Change.apply]
    by_cases hid : id = cat.id
    · subst hid
      refine ⟨hnames.trans ?_, fun hne => absurd rfl hne⟩
      rw [Function.update_self, Option.map_map]
      rfl
    · rw [Function.update_of_ne hid] at hnames hothers
      exact ⟨hnames, hothers⟩

theorem Catalogue.setCategoryEnabled (h : Catalogue n d)
    (hlookup : d.categories.lookup name = some cat) (enable : Bool) :
    Catalogue n (d.setCategoryEnabled name enable) ∧ ∀ id,
      ((d.setCategoryEnabled name enable).entryAt id).map Prod.fst =
        (d.entryAt id).map Prod.fst ∧
      (id ≠ cat.id → (d.setCategoryEnabled name enable).entryAt id = d.entryAt id) := by
  obtain ⟨log, hsignals, hlog⟩ := setCategoryEnabled_signals hlookup enable
  have hjournal := Journal.of_signals (setCategoryEnabled_journal h name enable) hsignals
  refine ⟨hjournal.catalogue, fun id => ?_⟩
  rw [hjournal.entries]
  exact replay_flags hlog d.entryAt id

theorem Catalogue.setCategoryLevel (h : Catalogue n d) (name : String) (level : Level) :
    Catalogue n (d.setCategoryLevel name level).2 ∧
      (d.setCategoryLevel name level).2.entryAt = d.entryAt := by
  obtain ⟨log, hsignals, hlog⟩ := d.setCategoryLevel_signals name level
  have hjournal := Journal.of_signals (setCategoryLevel_journal h name level) hsignals
  refine ⟨hjournal.catalogue, ?_⟩
  rw [hjournal.entries, hlog]
  rfl

theorem Catalogue.removeAllCategories (h : Catalogue n d) :
    Catalogue n d.removeAllCategories ∧ ∀ id, d.removeAllCategories.entryAt id = none := by
  obtain ⟨log, hjournal⟩ := removeAllCategories_journal h
  refine ⟨hjournal.catalogue, fun id => ?_⟩
  have hempty : d.removeAllCategories.categories.values = [] := by
    unfold DBusLogCore.removeAllCategories
    split
    · split
      · rw [emitAll_eq]
        rfl
      · rfl
    · next hnone => exact List.eq_nil_of_length_eq_zero (Nat.eq_zero_of_not_pos hnone)
  unfold entryAt
  rw [hempty]
  rfl

end Catalogue

end DBusLogCore

namespace CoreCategories

/-- The name and the flags of the category of the table that has the id. -/
def entryAt (c : CoreCategories) (id : UInt32) : Option (String × UInt64) :=
  (c.contents.find? fun cat => cat.id = id).map fun cat => (cat.name, cat.flags)

section Entries

variable {n : Nat} {c : CoreCategories} {d : DBusLogCore} {p : Nat} {name : String}

theorem Mirrors.entryAt (h : Mirrors c d) (hd : d.Catalogue n) : c.entryAt = d.entryAt := by
  have hperm := h.contents_perm
  have hnodup : (c.contents.map (·.id)).Nodup := (hperm.map _).nodup_iff.mpr hd.distinct
  funext id
  unfold CoreCategories.entryAt DBusLogCore.entryAt
  -- two tables of the same categories, with the ids for the keys
  have hsame : (⟨c.contents, hnodup⟩ : KeyedTable DBusLogCategory.id).lookup id =
      (⟨d.categories.values, hd.distinct⟩ : KeyedTable DBusLogCategory.id).lookup id := by
    apply Option.ext
    intro cat
    rw [KeyedTable.lookup_eq_some_iff, KeyedTable.lookup_eq_some_iff, hperm.mem_iff]
  exact congrArg (Option.map _) hsame

theorem Mirrors.release (h : Mirrors c d) (p : Nat) : Mirrors (c.release p) d :=
  h.of_same (fun a => RefMemory.read_unref a) RefMemory.length_unref rfl rfl rfl rfl rfl

theorem Mirrors.log (h : Mirrors c d) (cname : String) : Mirrors (c.log cname) d := by
  unfold CoreCategories.log
  split
  · exact h.use _
  · exact h

theorem Mirrors.drainPool (h : Mirrors c d) : Mirrors c.drainPool d :=
  h.of_same (fun a => RefArrays.read_objects_unrefArrays c.pool a)
    (RefArrays.length_objects_unrefArrays c.pool) rfl rfl rfl rfl rfl

/-- A new category is said to be what it is. -/
theorem Mirrors.newCategory_signals (h : Mirrors c d) (hlookup : c.categories.lookup name = none)
    (level : Level) (flags : UInt64)
    (hroom : (c.newCategory name level flags).objects.heap.length < 2 ^ 32) :
    ∃ cat, (c.newCategory name level flags).objects.read c.objects.heap.length = some cat ∧
      (d.newCategory name level flags).2.signals = d.signals ++ [.categoryAdded cat] := by
  obtain ⟨cat, hname, _, _, he⟩ := DBusLogCore.newCategory_eq (h.lookup_none hlookup) level flags
  refine ⟨cat, ?_, by rw [he]; rfl⟩
  have hfound : (c.newCategory name level flags).categories.lookup name =
      some (name, c.objects.heap.length) := by
    unfold CoreCategories.newCategory
    rw [hlookup]
    exact KeyedTable.lookup_insert _ (name, c.objects.heap.length)
  have htable := (h.newCategory name level flags hroom).table name
  rw [findCategory, hfound, he] at htable
  have hnew : (d.categories.insert cat).lookup cat.name = some cat := KeyedTable.lookup_insert _ cat
  rw [hname] at hnew
  exact htable.trans hnew

end Entries

end CoreCategories

/-! ## What is known -/

/-- Two tables have the same names, and are the same where `settled` holds. -/
def AgreeWhere (settled : UInt32 → Prop) (table table' : UInt32 → Option (String × UInt64)) :
    Prop :=
  ∀ id, (table id).map Prod.fst = (table' id).map Prod.fst ∧ (settled id → table id = table' id)

section AgreeWhere

variable {settled settled' : UInt32 → Prop} {table table' : UInt32 → Option (String × UInt64)}

theorem AgreeWhere.refl (settled : UInt32 → Prop) (table : UInt32 → Option (String × UInt64)) :
    AgreeWhere settled table table :=
  fun _ => ⟨rfl, fun _ => rfl⟩

theorem AgreeWhere.none_of (h : AgreeWhere settled table table') {id : UInt32}
    (hnone : table' id = none) : table id = none := by
  have hname := (h id).1
  rw [hnone] at hname
  exact Option.map_eq_none_iff.mp hname

theorem AgreeWhere.weaken (h : AgreeWhere settled table table')
    (hsettled : ∀ id, settled' id → settled id) : AgreeWhere settled' table table' :=
  fun id => ⟨(h id).1, fun hid => (h id).2 (hsettled id hid)⟩

/-- A change at one id. -/
theorem AgreeWhere.update (h : AgreeWhere settled table table') (k : UInt32)
    {entry entry' : Option (String × UInt64)} (hname : entry.map Prod.fst = entry'.map Prod.fst)
    (hsame : settled k → entry = entry') :
    AgreeWhere settled (Function.update table k entry) (Function.update table' k entry') := by
  intro id
  by_cases hid : id = k
  · subst hid
    rw [Function.update_self, Function.update_self]
    exact ⟨hname, hsame⟩
  · rw [Function.update_of_ne hid, Function.update_of_ne hid]
    exact h id

/-- Both change as a signal says. -/
theorem AgreeWhere.changes (h : AgreeWhere settled table table') (signal : CoreSignal) :
    AgreeWhere settled (replay table signal.changes) (replay table' signal.changes) := by
  cases signal with
  | categoryAdded cat => exact h.update cat.id rfl fun _ => rfl
  | categoryRemoved cat => exact h.update cat.id rfl fun _ => rfl
  | categoryFlags cat mask =>
    refine h.update cat.id ?_ fun hid => ?_
    · rw [Option.map_map, Option.map_map]
      exact (h cat.id).1
    · rw [(h cat.id).2 hid]
  | backlog => exact h
  | defaultLevel => exact h
  | categoryLevel cat => exact h

/-- The flags are those of the other table now. -/
theorem AgreeWhere.settle (h : AgreeWhere settled table table') {k : UInt32} {flags : UInt64}
    (hflags : ∀ entry, table' k = some entry → entry.2 = flags)
    (hsettled : ∀ id, id ≠ k → settled' id → settled id) :
    AgreeWhere settled' (replay table [.modify k fun e => (e.1, flags)]) table' := by
  intro id
  rw [replay_singleton, Change.apply]
  by_cases hid : id = k
  · subst hid
    rw [Function.update_self]
    have hname := (h id).1
    have hsame : (table id).map (fun e => (e.1, flags)) = table' id := by
      cases htable' : table' id with
      | none =>
        rw [h.none_of htable']
        rfl
      | some entry' =>
        rw [htable'] at hname
        obtain ⟨entry, hentry, hfst⟩ := Option.map_eq_some_iff.mp hname
        rw [hentry, ← hflags entry' htable']
        exact congrArg some (Prod.ext hfst rfl)
    rw [hsame]
    exact ⟨rfl, fun _ => rfl⟩
  · rw [Function.update_of_ne hid]
    exact ⟨(h id).1, fun hset => (h id).2 (hsettled id hid hset)⟩

end AgreeWhere

namespace NestedServer

open CoreCategories (Mirrors)

variable {n : Nat} {s s' : NestedServer} {d d' : DBusLogCore}
  {table : UInt32 → Option (String × UInt64)}

/-- No handlers are running for the flags of the category with the id. -/
def Settled (s : NestedServer) (id : UInt32) : Prop :=
  ∀ p enable loop, .flags p enable loop ∈ s.frames → id.toNat ≠ p + 1

/-- Whoever has heard all signals has the table: `n` categories have been made, and the core is
`d`. -/
structure Heard (n : Nat) (s : NestedServer) (d : DBusLogCore)
    (table : UInt32 → Option (String × UInt64)) : Prop where
  safe : Safe s
  mirrors : s.core.Mirrors d
  catalogue : d.Catalogue n
  agree : AgreeWhere s.Settled table d.entryAt

/-- The server goes on as `s'`, and tells the bus what has happened. -/
def Tells (n : Nat) (s s' : NestedServer) (table : UInt32 → Option (String × UInt64)) : Prop :=
  ∃ d signals, s'.sent = s.sent ++ signals ∧ (∀ signal ∈ signals, signal.Proper) ∧
    Heard n s' d (replay table (signals.flatMap BusSignal.changes))

theorem Heard.silent (h : Heard n s' d table) (hsent : s'.sent = s.sent) : Tells n s s' table :=
  ⟨d, [], hsent.trans (List.append_nil _).symm, fun _ hsignal => absurd hsignal List.not_mem_nil, h⟩

theorem Heard.says (signal : BusSignal) (h : Heard n s' d (replay table signal.changes))
    (hproper : signal.Proper) (hsent : s'.sent = s.sent ++ [signal]) : Tells n s s' table := by
  refine ⟨d, [signal], hsent, fun other hother => ?_, ?_⟩
  · rw [List.mem_singleton.mp hother]
    exact hproper
  · rw [List.flatMap_singleton]
    exact h

/-- Signals that have gone out before -/
theorem Tells.after {s'' : NestedServer} {first : List BusSignal}
    (hfirst : s'.sent = s.sent ++ first) (hproper : ∀ signal ∈ first, signal.Proper)
    (h : Tells n s' s'' (replay table (first.flatMap BusSignal.changes))) :
    Tells n s s'' table := by
  obtain ⟨d, rest, hrest, hproper', hheard⟩ := h
  refine ⟨d, first ++ rest, ?_, fun signal hsignal => ?_, ?_⟩
  · rw [hrest, hfirst, List.append_assoc]
  · exact (List.mem_append.mp hsignal).elim (hproper signal) (hproper' signal)
  · rw [List.flatMap_append, replay_append]
    exact hheard

theorem Tells.trans {m : Nat} {s'' : NestedServer} (h : Tells m s s' table)
    (hnext : ∀ d table, Heard m s' d table → Tells n s' s'' table) : Tells n s s'' table := by
  obtain ⟨d, first, hfirst, hproper, hheard⟩ := h
  exact (hnext d _ hheard).after hfirst hproper

/-- What the bus knows of has not changed. -/
theorem Heard.same (h : Heard n s d table) (hsafe : Safe s') (hmirrors : s'.core.Mirrors d')
    (hcatalogue : d'.Catalogue n) (hentries : d'.entryAt = d.entryAt)
    (hframes : ∀ frame ∈ s.frames, frame ∈ s'.frames) : Heard n s' d' table := by
  refine ⟨hsafe, hmirrors, hcatalogue, ?_⟩
  rw [hentries]
  exact h.agree.weaken fun id hid p enable loop hmem => hid p enable loop (hframes _ hmem)

/-- The core has said one thing, and so has the server. -/
theorem Heard.journal {m : Nat} (h : Heard n s d table) (hsafe : Safe s')
    (hmirrors : s'.core.Mirrors d') {signal : CoreSignal} (hjournal : d.Journal m d' [signal])
    (hframes : s'.frames = s.frames) (hsent : s'.sent = s.sent ++ [signal.onBus d']) :
    Tells m s s' table := by
  obtain ⟨hchanges, hproper⟩ := (hjournal.proper signal List.mem_cons_self).onBus (c := d')
  refine Heard.says _ ⟨hsafe, hmirrors, hjournal.catalogue, ?_⟩ hproper hsent
  rw [hjournal.entries, List.flatMap_singleton, hchanges]
  refine (h.agree.changes signal).weaken fun id hid p enable loop hmem => hid p enable loop ?_
  rw [hframes]
  exact hmem

/-! ## The calls -/

theorem Heard.room (h : Heard n s d table) : s.core.objects.heap.length = n := by
  rw [← h.mirrors.counted, h.mirrors.lastCid]
  exact h.catalogue.counted

theorem Heard.addCategory (h : Heard n s d table) (name : String) (level : Level) (flags : UInt64)
    (hroom : (s.addCategory name level flags).core.objects.heap.length < 2 ^ 32) :
    ∃ m, Tells m s (s.addCategory name level flags) table := by
  have hsafe := h.safe.addCategory name level flags
  have hnew := h.safe.accounted.newCategory name level flags
  have hlength := (addCategory_told name level flags).length.trans_lt hroom
  have hmirrors := h.mirrors.newCategory name level flags hlength
  unfold NestedServer.addCategory at hsafe ⊢
  cases hlookup : s.core.categories.lookup name with
  | some e =>
    rw [hlookup] at hsafe
    obtain ⟨cat, _, _, hd⟩ := h.mirrors.lookup_some hlookup
    have hsame : (d.newCategory name level flags).2 = d := by
      unfold DBusLogCore.newCategory
      rw [hd]
    rw [hsame] at hmirrors
    refine ⟨n, Heard.silent (d := d) ?_ rfl⟩
    exact h.same hsafe (hmirrors.release e.2) h.catalogue rfl fun _ => id
  | none =>
    rw [hlookup] at hsafe
    obtain ⟨cat, hread, hsignals⟩ := h.mirrors.newCategory_signals hlookup level flags hlength
    rw [CoreCategories.newCategory_length hlookup, h.room] at hlength
    have hjournal := DBusLogCore.Journal.of_signals (DBusLogCore.newCategory_journal h.catalogue
      hlength (h.mirrors.lookup_none hlookup) level flags) hsignals
    obtain ⟨hframes, _, _⟩ := CoreCategories.newCategory_running hlookup level flags
    dsimp only at hsafe ⊢
    generalize s.core.newCategory name level flags = core at hnew hmirrors hread hframes hsafe ⊢
    have hleft := tell_leave_core (s := { s with core := core }) hnew hframes List.mem_cons_self
      fun cat => .categoryAdded cat.name cat.id cat.flags.toUInt32
    refine ⟨n + 1, h.journal hsafe ?_ hjournal rfl ?_⟩
    · refine Mirrors.release ?_ _
      rw [hleft]
      exact hmirrors.goOn hframes
    · show s.sent ++ ((core.objects.read _).map _).toList = _
      rw [hread]
      rfl

theorem Heard.removeCategory (h : Heard n s d table) (name : String) :
    Tells n s (s.removeCategory name) table := by
  have hsafe := h.safe.removeCategory name
  unfold NestedServer.removeCategory at hsafe ⊢
  cases hlookup : s.core.categories.lookup name with
  | none => exact h.silent rfl
  | some e =>
    rw [hlookup] at hsafe
    obtain ⟨cat, hread, _, hd⟩ := h.mirrors.lookup_some hlookup
    have hsignals : (d.removeCategory name).2.signals = d.signals ++ [.categoryRemoved cat] := by
      unfold DBusLogCore.removeCategory
      rw [hd]
      rfl
    have hjournal := DBusLogCore.Journal.of_signals
      (DBusLogCore.removeCategory_journal h.catalogue name) hsignals
    have hmirrors := h.mirrors.removeCategory name
    have hremoved := h.safe.accounted.removeCategory name
    obtain ⟨hframes, _⟩ := CoreCategories.removeCategory_running hlookup
    have hread : (s.core.removeCategory name).objects.read e.2 = some cat :=
      (CoreCategories.removeCategory_read name e.2).trans hread
    dsimp only at hsafe ⊢
    generalize s.core.removeCategory name = core at hmirrors hremoved hread hframes hsafe ⊢
    have hleft := tellRemoved_core (s := { s with core := core }) hremoved hframes
      List.mem_cons_self
    refine h.journal hsafe ?_ hjournal rfl ?_
    · rw [hleft]
      exact hmirrors.goOn hframes
    · show s.sent ++ ((core.objects.read e.2).map _).toList = _
      rw [hread]
      rfl

/-- Run lemma for the loop that reports removed categories. -/
theorem foldl_tellRemoved_sent {array : Nat} {cats : List Nat} {frames : List CategoryFrame}
    (h : CoreCategories.Accounted s.core) (hmirrors : s.core.Mirrors d)
    (hframes : s.core.frames = CoreCategories.removing array cats ++ frames) :
    (cats.foldl tellRemoved s).core.Mirrors d ∧
      (cats.foldl tellRemoved s).sent =
        s.sent ++ (cats.filterMap s.core.objects.read).map fun cat => .categoryRemoved cat.id := by
  induction cats generalizing s with
  | nil => exact ⟨hmirrors, (List.append_nil _).symm⟩
  | cons p rest ih =>
    have hframes : s.core.frames = .removedAll array p rest :: frames := hframes
    have hleft := tellRemoved_core h hframes List.mem_cons_self
    have hretained := CoreCategories.retained_of hframes fun _ he => by cases he
    obtain ⟨hnext, _⟩ := CoreCategories.goOn_removedAll
      (c := { s.core with frames := frames }) array p rest
    have hread : (s.tellRemoved p).core.objects.read = s.core.objects.read := by
      funext a
      rw [hleft]
      exact CoreCategories.goOn_read _ a
    have hgone := h.goOn hframes hretained
    have hmirrors := hmirrors.goOn hframes
    rw [← hleft] at hnext hgone hmirrors
    obtain ⟨hdone, hsent⟩ := ih hgone hmirrors hnext
    refine ⟨hdone, hsent.trans ?_⟩
    rw [hread, List.filterMap_cons]
    show (s.sent ++ ((s.core.objects.read p).map _).toList) ++ _ = _
    cases s.core.objects.read p with
    | none => exact congrArg (· ++ _) (List.append_nil _)
    | some cat => exact List.append_assoc _ _ _

theorem changes_categoryRemoved (cats : List DBusLogCategory) :
    (cats.map fun cat => BusSignal.categoryRemoved cat.id).flatMap BusSignal.changes =
      (cats.map (·.id)).map Change.drop := by
  induction cats with
  | nil => rfl
  | cons cat cats ih =>
    rw [List.map_cons, List.flatMap_cons, ih]
    rfl

theorem Heard.removeAllCategories (h : Heard n s d table) :
    Tells n s s.removeAllCategories table := by
  obtain ⟨array, hframes, _⟩ := CoreCategories.removeAllCategories_running h.safe.removedHandlers
  obtain ⟨hmirrors, hsent⟩ := foldl_tellRemoved_sent
    (s := { s with core := s.core.removeAllCategories }) h.safe.accounted.removeAllCategories
    h.mirrors.removeAllCategories hframes
  obtain ⟨hcatalogue, hempty⟩ := h.catalogue.removeAllCategories
  have hread : s.core.removeAllCategories.objects.read = s.core.objects.read := by
    funext a
    exact CoreCategories.removeAllCategories_read a
  have hperm : ((s.core.matched fun _ => true).filterMap s.core.objects.read).Perm
      d.categories.values :=
    ((CoreCategories.matched_perm s.core).filterMap _).trans h.mirrors.contents_perm
  rw [hread] at hsent
  refine ⟨d.removeAllCategories, _, hsent, fun signal hsignal => ?_,
    h.safe.removeAllCategories, hmirrors, hcatalogue, fun id => ?_⟩
  · obtain ⟨cat, hcat, rfl⟩ := List.mem_map.mp hsignal
    exact (h.catalogue.issued cat (hperm.mem_iff.mp hcat)).1
  · have hnone : replay table ((((s.core.matched fun _ => true).filterMap
        s.core.objects.read).map (·.id)).map Change.drop) id = none := by
      rw [replay_drops]
      split
      · rfl
      · next hid =>
        -- a category that the bus knows of is told to be removed
        refine h.agree.none_of (Option.eq_none_iff_forall_ne_some.mpr fun entry hentry => hid ?_)
        obtain ⟨cat, hcat, hsame, _⟩ :=
          (DBusLogCore.entryAt_eq_some_iff h.catalogue.distinct).mp hentry
        exact List.mem_map.mpr ⟨cat, hperm.mem_iff.mpr hcat, hsame⟩
    rw [changes_categoryRemoved, hnone, hempty]
    exact ⟨rfl, fun _ => rfl⟩

theorem Heard.setCategoryLevel (h : Heard n s d table) (name : String) (level : Level) :
    Tells n s (s.setCategoryLevel name level) table := by
  have hsafe := h.safe.setCategoryLevel name level
  have hmirrors := h.mirrors.setCategoryLevel name level
  obtain ⟨hcatalogue, hentries⟩ := h.catalogue.setCategoryLevel name level
  unfold NestedServer.setCategoryLevel at hsafe ⊢
  dsimp only at hsafe ⊢
  split at hsafe
  · refine Heard.silent (d := (d.setCategoryLevel name level).2) ?_ rfl
    exact h.same hsafe hmirrors hcatalogue hentries fun _ => List.mem_cons_of_mem _
  · refine Heard.silent (d := (d.setCategoryLevel name level).2) ?_ rfl
    exact h.same hsafe hmirrors hcatalogue hentries fun _ => id

theorem Heard.setDefaultLevel (h : Heard n s d table) (level : Level) :
    Tells n s (s.setDefaultLevel level) table := by
  have hsafe := h.safe.setDefaultLevel level
  unfold NestedServer.setDefaultLevel at hsafe ⊢
  split at hsafe
  · next hlevel =>
    rw [if_pos hlevel]
    refine Heard.silent (d := d) ?_ rfl
    exact h.same hsafe h.mirrors h.catalogue rfl fun _ => List.mem_cons_of_mem _
  · next hlevel =>
    rw [if_neg hlevel]
    exact h.silent rfl

/-- Nothing has been enabled or disabled. -/
theorem Heard.unchanged (h : Heard n s d table) {name : String} {enable : Bool}
    (hchange : s.core.enabling name enable = none) :
    Heard n { s with core := s.core.setCategoryEnabled name enable } d table := by
  refine h.same (h.safe.unchanged hchange) ?_ h.catalogue rfl fun _ => id
  show (s.core.setCategoryEnabled name enable).Mirrors d
  obtain he | ⟨e, _, he⟩ := CoreCategories.setCategoryEnabled_same hchange
  · rw [he]
    exact h.mirrors
  · rw [he]
    exact h.mirrors.use e.2

/-- The flags have changed, and the bus will be told when the handlers have returned. -/
theorem Heard.announce (h : Heard n s d table) {name : String} {p : Nat} {cat : DBusLogCategory}
    {enable : Bool} (hchange : s.core.enabling name enable = some (p, cat)) {loop : EnableLoop}
    (hsafe : Safe ({ s with core := s.core.setCategoryEnabled name enable }.announce name p enable
      loop)) :
    Tells n s ({ s with core := s.core.setCategoryEnabled name enable }.announce name p enable
      loop) table := by
  obtain ⟨e, hlookup, rfl, hread, _⟩ := CoreCategories.enabling_eq_some hchange
  obtain ⟨cat', hread', _, hd⟩ := h.mirrors.lookup_some hlookup
  cases hread.symm.trans hread'
  obtain ⟨hcatalogue, hentries⟩ := h.catalogue.setCategoryEnabled hd enable
  refine Heard.silent (d := d.setCategoryEnabled name enable)
    ⟨hsafe, h.mirrors.setCategoryEnabled name enable, hcatalogue, fun id => ?_⟩ rfl
  obtain ⟨hname, hothers⟩ := hentries id
  refine ⟨((h.agree id).1).trans hname.symm, fun hid => ?_⟩
  have hne : id ≠ cat.id := by
    rintro rfl
    exact hid e.2 enable loop List.mem_cons_self (h.mirrors.ids e.2 cat hread)
  rw [hothers hne]
  refine (h.agree id).2 fun p' enable' loop' hmem => hid p' enable' loop' ?_
  exact List.mem_cons_of_mem _ hmem

theorem Heard.enableNames (h : Heard n s d table) (enable : Bool) (names : List String) :
    Tells n s (enableNames enable names s) table := by
  induction names generalizing s d table with
  | nil => exact h.silent rfl
  | cons name rest ih =>
    unfold NestedServer.enableNames
    cases hchange : s.core.enabling name enable with
    | none => exact ih (h.unchanged hchange)
    | some change =>
      refine h.announce hchange (h.safe.announce hchange fun _ _ he => ?_)
      cases he

theorem Heard.enablePattern (h : Heard n s d table) (enable : Bool) {array : Nat}
    {cats items : List Nat} (hpool : array ∈ s.core.pool)
    (hread : s.core.arrays.read array = some items) (hcats : ∀ q ∈ cats, q ∈ items) :
    Tells n s (enablePattern enable array cats s) table := by
  induction cats generalizing s d table with
  | nil =>
    rw [h.safe.enablePattern_nil enable hpool]
    exact h.silent rfl
  | cons q rest ih =>
    have hrest : ∀ q ∈ rest, q ∈ items := fun q hq => hcats q (List.mem_cons_of_mem _ hq)
    obtain ⟨name, _, ⟨change, hchange, he⟩ | ⟨hchange, he⟩⟩ :=
      h.safe.enablePattern_cons enable rest hpool hread (hcats q List.mem_cons_self)
    · rw [he]
      refine h.announce hchange (h.safe.announce hchange fun _ _ he => ?_)
      cases he
      exact ⟨items, hread, hrest⟩
    · rw [he]
      have hset := s.core.setCategoryEnabled_sameOwner name enable
      refine ih (h.unchanged hchange) ?_ (hset.1.read array items hread) hrest
      rw [hset.2]
      exact hpool

theorem Heard.setPatternEnabled (h : Heard n s d table) (matching : String → Bool)
    (enable : Bool) : Tells n s (s.setPatternEnabled matching enable) table := by
  have hfound : Heard n { s with core := s.core.findCategories matching } d table :=
    h.same (h.safe.findCategories matching) (h.mirrors.findCategories matching) h.catalogue rfl
      fun _ => id
  exact hfound.enablePattern enable List.mem_cons_self (RefMemory.read_alloc_self _) fun _ => id

/-! ## The handlers return -/

/-- The core goes on as it was. -/
theorem Safe.leave_mirrors (h : Safe s) (hmirrors : s.core.Mirrors d) {frame : ServerFrame}
    {frames : List ServerFrame} (hframes : s.frames = frame :: frames) {p : Nat}
    (hframe : frame.coreFrame? = some (.changed p)) (signal : DBusLogCategory → BusSignal) :
    ({ s with frames := frames }.tell p signal).leave.core.Mirrors d := by
  have hcore : s.core.frames = .changed p :: frames.filterMap ServerFrame.coreFrame? := by
    rw [h.synced, hframes, List.filterMap_cons, hframe]
  rw [tell_leave_core (s := { s with frames := frames }) h.accounted hcore List.mem_cons_self signal]
  exact hmirrors.goOn hcore

/-- A category with a running handler is still there, if only for this handler. -/
theorem Heard.running (h : Heard n s d table) {frame : ServerFrame} {frames : List ServerFrame}
    (hframes : s.frames = frame :: frames) {p : Nat}
    (hframe : frame.coreFrame? = some (.changed p)) :
    ∃ cat, s.core.objects.read p = some cat ∧ cat.id.toNat = p + 1 ∧
      ∀ (signal : DBusLogCategory → BusSignal),
        ({ s with frames := frames }.tell p signal).leave.core.Mirrors d := by
  have hcore : s.core.frames = .changed p :: frames.filterMap ServerFrame.coreFrame? := by
    rw [h.safe.synced, hframes, List.filterMap_cons, hframe]
  have hheld := CoreCategories.mem_holders_frame hcore (p := p) List.mem_cons_self
  obtain ⟨cat, hread⟩ := Option.isSome_iff_exists.mp
    (h.safe.accounted.owned.objects.read_isSome hheld)
  exact ⟨cat, hread, h.mirrors.ids p cat hread, h.safe.leave_mirrors h.mirrors hframes hframe⟩

/-- The flags that the table has under an id. -/
theorem Heard.flags_of_entry (h : Heard n s d table) {p : Nat} {cat : DBusLogCategory}
    (hread : s.core.objects.read p = some cat) {entry : String × UInt64}
    (hentry : d.entryAt cat.id = some entry) : entry.2 = cat.flags.toUInt32.toUInt64 := by
  obtain ⟨other, hother, hid, rfl⟩ :=
    (DBusLogCore.entryAt_eq_some_iff h.catalogue.distinct).mp hentry
  have hfound := h.mirrors.table other.name
  rw [KeyedTable.lookup_of_mem hother] at hfound
  obtain ⟨e, _, hread'⟩ := Option.bind_eq_some_iff.mp hfound
  -- the ids tell the pointers apart
  have hp := h.mirrors.ids p cat hread
  have he := h.mirrors.ids e.2 other hread'
  rw [hid] at he
  have hsame : e.2 = p := by omega
  rw [hsame, hread] at hread'
  cases hread'
  exact (toUInt64_toUInt32 (h.catalogue.narrow cat hother)).symm

theorem Heard.flagsReturned (h : Heard n s d table) {p : Nat} {enable : Bool} {loop : EnableLoop}
    {frames : List ServerFrame} (hframes : s.frames = .flags p enable loop :: frames) :
    Tells n s ({ s with frames := frames }.tell p fun cat =>
      .categoryFlagsChanged cat.id cat.flags.toUInt32).leave table := by
  obtain ⟨cat, hread, hid, hmirrors⟩ := h.running hframes rfl
  have hproper : cat.id ≠ 0 := by
    intro hzero
    rw [hzero] at hid
    cases hid
  refine Heard.says (.categoryFlagsChanged cat.id cat.flags.toUInt32)
    ⟨(h.safe.returned hframes rfl _).1, hmirrors _, h.catalogue, ?_⟩ hproper ?_
  · refine h.agree.settle (fun entry hentry => h.flags_of_entry hread hentry) ?_
    intro other hne hsettled p' enable' loop' hmem
    rw [hframes] at hmem
    obtain he | hmem := List.mem_cons.mp hmem
    · cases he
      intro hsame
      exact hne (UInt32.toNat_inj.mp (hsame.trans hid.symm))
    · exact hsettled p' enable' loop' hmem
  · show s.sent ++ ((s.core.objects.read p).map _).toList = _
    rw [hread]
    rfl

/-- The frame of other handlers is gone. -/
theorem Heard.otherReturned (h : Heard n s d table) {frame : ServerFrame}
    {frames : List ServerFrame} (hframes : s.frames = frame :: frames)
    (hother : ∀ p enable loop, frame ≠ .flags p enable loop) (hsafe : Safe s')
    (hmirrors : s'.core.Mirrors d) (hleft : s'.frames = frames) : Heard n s' d table := by
  refine ⟨hsafe, hmirrors, h.catalogue, h.agree.weaken fun id hid p enable loop hmem => ?_⟩
  rw [hframes] at hmem
  obtain he | hmem := List.mem_cons.mp hmem
  · exact absurd he.symm (hother p enable loop)
  · exact hid p enable loop (hleft ▸ hmem)

theorem Heard.goOn (h : Heard n s d table) {frame : ServerFrame} {frames : List ServerFrame}
    (hframes : s.frames = frame :: frames) (hundrained : Undrained s .handlersReturn) :
    Tells n s ({ s with frames := frames }.goOn frame) table := by
  have hsafe := h.safe.goOn hframes hundrained
  unfold Undrained at hundrained
  rw [hframes] at hundrained
  cases frame with
  | flags p enable loop =>
    refine (h.flagsReturned hframes).trans fun d table hnext => ?_
    cases loop with
    | names rest => exact hnext.enableNames enable rest
    | pattern array rest =>
      obtain ⟨hpool, items, hread, hrest⟩ := h.safe.pending hframes hundrained fun cat =>
        .categoryFlagsChanged cat.id cat.flags.toUInt32
      exact hnext.enablePattern enable hpool hread hrest
  | level p =>
    obtain ⟨cat, hread, _, hmirrors⟩ := h.running hframes rfl
    refine Heard.says (.categoryLevelChanged cat.id cat.level.toInt32)
      (h.otherReturned hframes (fun _ _ _ he => ?_) hsafe (hmirrors _) rfl) trivial ?_
    · cases he
    · show s.sent ++ ((s.core.objects.read p).map _).toList = _
      rw [hread]
      rfl
  | defaultLevel =>
    refine Heard.says (.defaultLevelChanged s.defaultLevel.toInt32)
      (h.otherReturned hframes (fun _ _ _ he => ?_) hsafe h.mirrors rfl) trivial rfl
    cases he

/-- Step lemma. -/
theorem Heard.step (h : Heard n s d table) {call : ServerCall} (hundrained : Undrained s call)
    (hs : s.step call = some s') (hroom : s'.core.objects.heap.length < 2 ^ 32) :
    ∃ m, Tells m s s' table := by
  cases call with
  | addCategory name level flags =>
    cases hs
    exact h.addCategory name level flags hroom
  | removeCategory name =>
    cases hs
    exact ⟨n, h.removeCategory name⟩
  | removeAllCategories =>
    cases hs
    exact ⟨n, h.removeAllCategories⟩
  | setCategoryLevel name level =>
    cases hs
    exact ⟨n, h.setCategoryLevel name level⟩
  | setDefaultLevel level =>
    cases hs
    exact ⟨n, h.setDefaultLevel level⟩
  | setNamesEnabled names enable =>
    cases hs
    exact ⟨n, h.enableNames enable names⟩
  | setPatternEnabled matching enable =>
    cases hs
    exact ⟨n, h.setPatternEnabled matching enable⟩
  | log cname =>
    have hsafe := h.safe.step hundrained hs
    cases hs
    refine ⟨n, Heard.silent (d := d) ?_ rfl⟩
    exact h.same hsafe (h.mirrors.log cname) h.catalogue rfl fun _ => id
  | handlersReturn =>
    obtain ⟨frame, frames, hframes, rfl⟩ := handlersReturn_iff.mp hs
    exact ⟨n, h.goOn hframes hundrained⟩
  | drainPool =>
    have hsafe := h.safe.step hundrained hs
    cases hs
    refine ⟨n, Heard.silent (d := d) ?_ rfl⟩
    exact h.same hsafe h.mirrors.drainPool h.catalogue rfl fun _ => id

/-- The categories that a run has made are among those of a longer one. -/
theorem run_length {calls : List ServerCall} (hrun : Runs.run NestedServer.step s calls = some s') :
    s.core.objects.heap.length ≤ s'.core.objects.heap.length :=
  Runs.invariant_of_forall (C := fun _ => True)
    (P := fun t : NestedServer => s.core.objects.heap.length ≤ t.core.objects.heap.length)
    (fun _ _ _ h _ hs => h.trans (step_sameOwner hs).length) (fun _ _ => trivial) hrun
    (Nat.le_refl _)

/-- Run lemma. -/
theorem Heard.run (h : Heard n s d table) {calls : List ServerCall}
    (hmeets : Runs.Meets NestedServer.step Undrained s calls)
    (hrun : Runs.run NestedServer.step s calls = some s')
    (hroom : s'.core.objects.heap.length < 2 ^ 32) : ∃ m, Tells m s s' table := by
  induction calls generalizing s n d table with
  | nil =>
    cases hrun
    exact ⟨n, h.silent rfl⟩
  | cons call calls ih =>
    obtain ⟨next, hs, hrun⟩ := Runs.run_cons_iff.mp hrun
    obtain ⟨m, htells⟩ := h.step hmeets.1 hs ((run_length hrun).trans_lt hroom)
    obtain ⟨d', first, hfirst, hproper, hnext⟩ := htells
    obtain ⟨m', hrest⟩ := ih hnext (hmeets.2 next hs) hrun
    exact ⟨m', hrest.after hfirst hproper⟩

theorem new_heard : Heard 0 new (.new 0 true) fun _ => none where
  safe := new_safe
  mirrors := CoreCategories.new_mirrors 0 true
  catalogue := ⟨rfl, List.nodup_nil, fun _ hcat => absurd hcat List.not_mem_nil,
    fun _ hcat => absurd hcat List.not_mem_nil, rfl⟩
  agree := AgreeWhere.refl _ _

/-- Clients are told in the end. In every run of a server whose handlers call it, nested in any way,
in which no freed memory is used and fewer than 2 ^ 32 categories are made: a client that has the
table of some moment, with handlers running or not, and hears the signals from there on always
knows which categories there are, with their ids and names; and it knows the flags of each category
for whose flags no handlers are running. When none are running, it has the table of the server. -/
theorem clientsSettle (before after : List ServerCall) (s t : NestedServer)
    (hbefore : Runs.run step new before = some s) (hafter : Runs.run step s after = some t)
    (hclean : t.core.faulted = false)
    (hroom : t.core.objects.heap.length < 2 ^ 32)
    (c : DBusLogClient) (hc : c.Listening) (hsnapshot : c.entryAt = s.core.entryAt) :
    ∃ signals, t.sent = s.sent ++ signals ∧
      (∀ id, ((signals.foldl DBusLogClient.handle c).entryAt id).map Prod.fst =
        (t.core.entryAt id).map Prod.fst) ∧
      (∀ id, t.Settled id →
        (signals.foldl DBusLogClient.handle c).entryAt id = t.core.entryAt id) ∧
      (t.frames = [] → (signals.foldl DBusLogClient.handle c).entryAt = t.core.entryAt) := by
  have hmeets := (meets_iff_clean (Runs.run_append_iff.mpr ⟨s, hbefore, hafter⟩)).mpr hclean
  obtain ⟨m, d, _, _, _, hs⟩ := new_heard.run (Runs.meets_prefix hmeets) hbefore
    ((run_length hafter).trans_lt hroom)
  -- the client has the table of this moment
  have hstart : Heard m s d s.core.entryAt := by
    refine ⟨hs.safe, hs.mirrors, hs.catalogue, ?_⟩
    rw [hs.mirrors.entryAt hs.catalogue]
    exact AgreeWhere.refl _ _
  obtain ⟨m', d', signals, hsent, hproper, ht⟩ :=
    hstart.run (Runs.meets_append hmeets hbefore) hafter hroom
  have hheard : (signals.foldl DBusLogClient.handle c).entryAt =
      replay s.core.entryAt (signals.flatMap BusSignal.changes) := by
    rw [(hc.handleAll hproper).2, hsnapshot]
  have hagree := ht.agree
  rw [← hheard, ← ht.mirrors.entryAt ht.catalogue] at hagree
  refine ⟨signals, hsent, fun id => (hagree id).1, fun id => (hagree id).2, fun hframes => ?_⟩
  funext id
  refine (hagree id).2 fun p enable loop hmem => ?_
  rw [hframes] at hmem
  cases hmem

/-- The handlers for an enabled category add another one and disable the first one again. -/
def disabledAgain : List ServerCall :=
  [.addCategory "net" 0 0, .setPatternEnabled (fun _ => true) true, .addCategory "usb" 6 1,
    .setNamesEnabled ["net"] false, .handlersReturn, .handlersReturn]

theorem clientsSettle_disabledAgain : ∃ t,
    Runs.run step new disabledAgain = some t ∧
    t.sent = [.categoryAdded "net" 1 0, .categoryAdded "usb" 2 3, .categoryFlagsChanged 1 0,
      .categoryFlagsChanged 1 0] ∧
    (t.sent.foldl DBusLogClient.handle (DBusLogClient.new.getAllFinished
      (.methodReturn [.int32 1, .int32 4, .categories []]))).entryAt = t.core.entryAt := by
  obtain ⟨t, ht, he⟩ := Option.map_eq_some_iff.mp (by decide +kernel :
    (Runs.run step new disabledAgain).map (fun t =>
      (t.core.faulted, t.frames, t.core.objects.heap.length, t.sent)) =
      some (false, [], 2, [.categoryAdded "net" 1 0, .categoryAdded "usb" 2 3,
        .categoryFlagsChanged 1 0, .categoryFlagsChanged 1 0]))
  obtain ⟨hclean, hrest⟩ := Prod.mk.inj he
  obtain ⟨hframes, hrest⟩ := Prod.mk.inj hrest
  obtain ⟨hmade, hsent⟩ := Prod.mk.inj hrest
  have hvalues : [ReplyValue.int32 1, .int32 4, .categories []] =
      [.int32 1, .int32 4, .categories []] := rfl
  obtain ⟨hlistening, hentries⟩ := DBusLogClient.new.getAllFinished_listening 1 4 0 []
    (.inl hvalues)
  obtain ⟨signals, hsignals, _, _, hsettled⟩ := clientsSettle [] disabledAgain new t rfl ht hclean
    (by rw [hmade]; decide) _ hlistening hentries
  have hsame : t.sent = signals := hsignals.trans (List.nil_append signals)
  refine ⟨t, ht, hsent, ?_⟩
  rw [hsame]
  exact hsettled hframes

end NestedServer

end DBusLog

import DBusLog.Core.Settings
import DBusLog.Lib.ChangeLog

/-!
# Categories by id, and the signals about them

Seen by ids, the category table changes exactly as the signals of the core say. This holds as long
as ids do not run out: `Catalogue n` says what the table is like after `n` categories have been
created.
-/

namespace DBusLog

open ChangeLog

/-- What a signal of the core says about the table by ids. -/
def CoreSignal.changes : CoreSignal → List (Change UInt32 (String × UInt64))
  | .categoryAdded cat => [.put cat.id (cat.name, cat.flags)]
  | .categoryRemoved cat => [.drop cat.id]
  | .categoryFlags cat _ => [.modify cat.id fun e => (e.1, cat.flags)]
  | .backlog | .defaultLevel | .categoryLevel _ => []

/-- The category of a signal has an id, and its flags go through D-Bus. -/
def CoreSignal.Proper : CoreSignal → Prop
  | .categoryAdded cat | .categoryFlags cat _ => cat.id ≠ 0 ∧ cat.flags.toNat < 2 ^ 32
  | .categoryRemoved cat => cat.id ≠ 0
  | .backlog | .defaultLevel | .categoryLevel _ => True

namespace DBusLogCore

/-- The name and the flags of the category that has the id. -/
def entryAt (c : DBusLogCore) (id : UInt32) : Option (String × UInt64) :=
  (c.categories.values.find? fun cat => cat.id = id).map fun cat => (cat.name, cat.flags)

/-- The category table after `n` categories have been created. -/
structure Catalogue (n : Nat) (c : DBusLogCore) : Prop where
  counted : c.lastCid.toNat = n
  distinct : (c.categories.values.map (·.id)).Nodup
  issued : ∀ cat ∈ c.categories.values, cat.id ≠ 0 ∧ cat.id.toNat ≤ n
  narrow : ∀ cat ∈ c.categories.values, cat.flags.toNat < 2 ^ 32
  heard : c.removedHandlers = true

/-- An operation on the categories has turned `c` into `c'` and emitted the signals `log`. -/
structure Journal (n : Nat) (c c' : DBusLogCore) (log : List CoreSignal) : Prop where
  catalogue : Catalogue n c'
  signals : c'.signals = c.signals ++ log
  entries : c'.entryAt = replay c.entryAt (log.flatMap CoreSignal.changes)
  proper : ∀ signal ∈ log, signal.Proper

section Catalogue

variable {n : Nat} {c : DBusLogCore} {cat : DBusLogCategory} {name : String}

/-- Nothing has happened. -/
theorem Journal.refl (h : Catalogue n c) : Journal n c c [] :=
  ⟨h, (List.append_nil _).symm, rfl, fun _ hs => (nomatch hs)⟩

theorem entryAt_eq_some_iff (h : (c.categories.values.map (·.id)).Nodup) {id : UInt32}
    {entry : String × UInt64} : c.entryAt id = some entry ↔
      ∃ cat ∈ c.categories.values, cat.id = id ∧ (cat.name, cat.flags) = entry := by
  unfold entryAt
  rw [Option.map_eq_some_iff]
  constructor
  · rintro ⟨cat, hfind, he⟩
    exact ⟨cat, List.mem_of_find?_eq_some hfind, by simpa using List.find?_some hfind, he⟩
  · rintro ⟨cat, hmem, rfl, he⟩
    refine ⟨cat, ?_, he⟩
    cases hfind : c.categories.values.find? fun other => other.id = cat.id with
    | none => simpa using List.find?_eq_none.mp hfind cat hmem
    | some other =>
      have hid : other.id = cat.id := by simpa using List.find?_some hfind
      exact congrArg some
        (List.inj_on_of_nodup_map h (List.mem_of_find?_eq_some hfind) hmem hid)

theorem entryAt_of_lookup (h : Catalogue n c) (hlookup : c.categories.lookup name = some cat) :
    c.entryAt cat.id = some (cat.name, cat.flags) :=
  (entryAt_eq_some_iff h.distinct).mpr ⟨cat, KeyedTable.mem_of_lookup hlookup, rfl, rfl⟩

/-- The name decides which category it is, and so does the id. -/
theorem name_iff_id (h : Catalogue n c) {old other : DBusLogCategory}
    (hold : old ∈ c.categories.values) (hother : other ∈ c.categories.values) :
    old.name = other.name ↔ old.id = other.id := by
  constructor
  · intro hname
    exact congrArg _ (KeyedTable.eq_of_key_eq hold hother hname)
  · intro hid
    exact congrArg _ (List.inj_on_of_nodup_map h.distinct hold hother hid)

/-- A category comes in, alone under its name and its id or in the place of the one that has both. -/
theorem insert_distinct (h : (c.categories.values.map (·.id)).Nodup)
    (hsame : ∀ old ∈ c.categories.values, old.name = cat.name ↔ old.id = cat.id) :
    ((c.categories.insert cat).values.map (·.id)).Nodup := by
  refine List.nodup_cons.mpr ⟨fun hmem => ?_, (List.filter_sublist.map _).nodup h⟩
  obtain ⟨old, hold, hid⟩ := List.mem_map.mp hmem
  obtain ⟨hold, hname⟩ := (KeyedTable.mem_erase_iff _).mp hold
  exact hname ((hsame old hold).mpr hid)

theorem entryAt_insert {c' : DBusLogCore} (h : (c.categories.values.map (·.id)).Nodup)
    (hsame : ∀ old ∈ c.categories.values, old.name = cat.name ↔ old.id = cat.id)
    (hc' : c'.categories = c.categories.insert cat) :
    c'.entryAt = Function.update c.entryAt cat.id (some (cat.name, cat.flags)) := by
  have h' : (c'.categories.values.map (·.id)).Nodup := by
    rw [hc']
    exact insert_distinct h hsame
  funext id
  apply Option.ext
  intro entry
  rw [entryAt_eq_some_iff h', hc']
  by_cases hid : id = cat.id
  · subst hid
    rw [Function.update_self, Option.some.injEq]
    constructor
    · rintro ⟨other, hmem, hother, he⟩
      obtain rfl | ⟨hold, hname⟩ := (KeyedTable.mem_insert_iff _).mp hmem
      · exact he
      · exact absurd ((hsame other hold).mpr hother) hname
    · intro he
      exact ⟨cat, (KeyedTable.mem_insert_iff _).mpr (.inl rfl), rfl, he⟩
  · rw [Function.update_of_ne hid, entryAt_eq_some_iff h]
    constructor
    · rintro ⟨other, hmem, hother, he⟩
      obtain rfl | ⟨hold, _⟩ := (KeyedTable.mem_insert_iff _).mp hmem
      · exact absurd hother.symm hid
      · exact ⟨other, hold, hother, he⟩
    · rintro ⟨other, hold, hother, he⟩
      have hname : other.name ≠ cat.name := fun hname =>
        hid (hother.symm.trans ((hsame other hold).mp hname))
      exact ⟨other, (KeyedTable.mem_insert_iff _).mpr (.inr ⟨hold, hname⟩), hother, he⟩

/-! ## The operations -/

/-- A flag word that passes through 32 bits. -/
theorem and_narrow {a b : UInt64} (h : b.toNat < 2 ^ 32) : (a &&& b).toNat < 2 ^ 32 := by
  rw [UInt64.toNat_and]
  exact Nat.lt_of_le_of_lt Nat.and_le_right h

theorem or_narrow {a b : UInt64} (ha : a.toNat < 2 ^ 32) (hb : b.toNat < 2 ^ 32) :
    (a ||| b).toNat < 2 ^ 32 := by
  rw [UInt64.toNat_or]
  exact Nat.or_lt_two_pow ha hb

/-- The next category, when its name is not in use. -/
theorem newCategory_eq (hname : c.categories.lookup name = none) (level : Level) (flags : UInt64) :
    ∃ cat : DBusLogCategory, cat.name = name ∧
      cat.id = (if c.lastCid + 1 = 0 then c.lastCid + 1 + 1 else c.lastCid + 1) ∧
      cat.flags.toNat < 2 ^ 32 ∧
      (c.newCategory name level flags).2 = { c with
        lastCid := cat.id
        categories := c.categories.insert cat }.emit (.categoryAdded cat) := by
  have hmask : (flags &&& CategoryFlag.mask).toNat < 2 ^ 32 := and_narrow (by decide)
  have hboth : (flags &&& CategoryFlag.mask ||| CategoryFlag.enabledByDefault).toNat < 2 ^ 32 :=
    or_narrow hmask (by decide)
  unfold newCategory
  rw [hname]
  dsimp only
  by_cases hlevel : level ≥ Level.undefined ∧ level < Level.count
  · rw [if_pos hlevel]
    by_cases henabled : flags &&& CategoryFlag.enabled ≠ 0
    · rw [if_pos henabled]
      exact ⟨_, rfl, rfl, hboth, rfl⟩
    · rw [if_neg henabled]
      exact ⟨_, rfl, rfl, hmask, rfl⟩
  · rw [if_neg hlevel]
    by_cases henabled : flags &&& CategoryFlag.enabled ≠ 0
    · rw [if_pos henabled]
      exact ⟨_, rfl, rfl, hboth, rfl⟩
    · rw [if_neg henabled]
      exact ⟨_, rfl, rfl, hmask, rfl⟩

/-- A category is created while there are ids left. -/
theorem newCategory_journal (h : Catalogue n c) (hroom : n + 1 < 2 ^ 32)
    (hname : c.categories.lookup name = none) (level : Level) (flags : UInt64) :
    ∃ log, Journal (n + 1) c (c.newCategory name level flags).2 log := by
  obtain ⟨cat, hcat, hid, hflags, he⟩ := newCategory_eq hname level flags
  have hnext : (c.lastCid + 1).toNat = n + 1 := by
    rw [UInt32.toNat_add, h.counted]
    change (n + 1) % 2 ^ 32 = n + 1
    omega
  have hne : c.lastCid + 1 ≠ 0 := by
    intro hzero
    rw [hzero] at hnext
    cases hnext
  rw [if_neg hne] at hid
  have hfresh : ∀ old ∈ c.categories.values, old.name = cat.name ↔ old.id = cat.id := by
    intro old hold
    refine iff_of_false (fun hn => ?_) fun hi => ?_
    · exact (KeyedTable.lookup_eq_none_iff _).mp hname old hold (hn.trans hcat)
    · have hle := (h.issued old hold).2
      rw [hi, hid, hnext] at hle
      omega
  have hcases : ∀ other ∈ (c.categories.insert cat).values,
      other = cat ∨ other ∈ c.categories.values := by
    intro other hother
    exact ((KeyedTable.mem_insert_iff _).mp hother).imp_right And.left
  refine ⟨[.categoryAdded cat], ⟨?_, ?_, ?_, ?_, ?_⟩, ?_, ?_, ?_⟩
  · rw [he]
    change cat.id.toNat = n + 1
    rw [hid, hnext]
  · rw [he]
    exact insert_distinct h.distinct hfresh
  · rw [he]
    intro other hother
    obtain rfl | hold := hcases other hother
    · rw [hid]
      exact ⟨hne, hnext.le⟩
    · exact ⟨(h.issued other hold).1, Nat.le_succ_of_le (h.issued other hold).2⟩
  · rw [he]
    intro other hother
    obtain rfl | hold := hcases other hother
    · exact hflags
    · exact h.narrow other hold
  · rw [he]
    exact h.heard
  · rw [he]
    rfl
  · rw [he]
    exact entryAt_insert h.distinct hfresh rfl
  · intro signal hsignal
    rw [List.mem_singleton.mp hsignal]
    refine ⟨?_, hflags⟩
    rw [hid]
    exact hne

theorem newCategory_known (h : Catalogue n c) (hname : (c.categories.lookup name).isSome)
    (level : Level) (flags : UInt64) : ∃ log, Journal n c (c.newCategory name level flags).2 log := by
  obtain ⟨cat, hcat⟩ := Option.isSome_iff_exists.mp hname
  refine ⟨[], ?_⟩
  unfold newCategory
  rw [hcat]
  exact Journal.refl h

/-- A category gets another value in the place of the one that it had. -/
theorem Catalogue.replace (h : Catalogue n c) {old : DBusLogCategory}
    (hold : old ∈ c.categories.values) (cat : DBusLogCategory) (hname : cat.name = old.name)
    (hid : cat.id = old.id) (hflags : cat.flags.toNat < 2 ^ 32) (signal : CoreSignal) :
    Catalogue n ({ c with categories := c.categories.insert cat }.emit signal) ∧
      ({ c with categories := c.categories.insert cat }.emit signal).entryAt =
        Function.update c.entryAt cat.id (some (cat.name, cat.flags)) := by
  have hsame : ∀ other ∈ c.categories.values, other.name = cat.name ↔ other.id = cat.id := by
    intro other hother
    rw [hname, hid]
    exact name_iff_id h hother hold
  have hcases : ∀ other ∈ (c.categories.insert cat).values,
      other = cat ∨ other ∈ c.categories.values := by
    intro other hother
    exact ((KeyedTable.mem_insert_iff _).mp hother).imp_right And.left
  refine ⟨⟨h.counted, insert_distinct h.distinct hsame, ?_, ?_, h.heard⟩,
    entryAt_insert h.distinct hsame rfl⟩
  · intro other hother
    obtain rfl | hmem := hcases other hother
    · rw [hid]
      exact h.issued old hold
    · exact h.issued other hmem
  · intro other hother
    obtain rfl | hmem := hcases other hother
    · exact hflags
    · exact h.narrow other hmem

theorem setCategoryEnabled_journal (h : Catalogue n c) (name : String) (enable : Bool) :
    ∃ log, Journal n c (c.setCategoryEnabled name enable) log := by
  unfold setCategoryEnabled
  cases hlookup : c.categories.lookup name with
  | none => exact ⟨[], Journal.refl h⟩
  | some cat =>
    have hmem := KeyedTable.mem_of_lookup hlookup
    have hentry := entryAt_of_lookup h hlookup
    -- either way the flags change, and the signal carries the category with the new flags
    have hchange : ∀ flags : UInt64, flags.toNat < 2 ^ 32 →
        ∃ log, Journal n c ({ c with
          categories := c.categories.insert { cat with flags := flags } }.emit
            (.categoryFlags { cat with flags := flags } CategoryFlag.enabled)) log := by
      intro flags hflags
      obtain ⟨hcatalogue, hentries⟩ := h.replace hmem { cat with flags := flags } rfl rfl hflags
        (.categoryFlags { cat with flags := flags } CategoryFlag.enabled)
      refine ⟨[.categoryFlags { cat with flags := flags } CategoryFlag.enabled], hcatalogue, rfl,
        ?_, ?_⟩
      · rw [hentries]
        change _ = Function.update c.entryAt cat.id
          ((c.entryAt cat.id).map fun e => (e.1, flags))
        rw [hentry]
        rfl
      · intro signal hsignal
        rw [List.mem_singleton.mp hsignal]
        exact ⟨(h.issued cat hmem).1, hflags⟩
    dsimp only
    by_cases hoff : cat.enabled ∧ ¬enable
    · rw [if_pos hoff]
      refine hchange (cat.flags &&& ~~~CategoryFlag.enabled) ?_
      rw [UInt64.toNat_and]
      exact Nat.lt_of_le_of_lt Nat.and_le_left (h.narrow cat hmem)
    · rw [if_neg hoff]
      by_cases hon : ¬cat.enabled ∧ enable
      · rw [if_pos hon]
        exact hchange (cat.flags ||| CategoryFlag.enabled)
          (or_narrow (h.narrow cat hmem) (by decide))
      · rw [if_neg hon]
        exact ⟨[], Journal.refl h⟩

theorem setCategoryLevel_journal (h : Catalogue n c) (name : String) (level : Level) :
    ∃ log, Journal n c (c.setCategoryLevel name level).2 log := by
  unfold setCategoryLevel
  by_cases hlevel : level ≥ Level.undefined ∧ level < Level.count
  · rw [if_pos hlevel]
    cases hlookup : c.categories.lookup name with
    | none => exact ⟨[], Journal.refl h⟩
    | some cat =>
      have hmem := KeyedTable.mem_of_lookup hlookup
      dsimp only
      by_cases hsame : cat.level ≠ level
      · rw [if_pos hsame]
        obtain ⟨hcatalogue, hentries⟩ := h.replace hmem { cat with level := level } rfl rfl
          (h.narrow cat hmem) (.categoryLevel { cat with level := level })
        refine ⟨[.categoryLevel { cat with level := level }], hcatalogue, rfl, ?_, ?_⟩
        · rw [hentries]
          change Function.update c.entryAt cat.id (some (cat.name, cat.flags)) = c.entryAt
          rw [← entryAt_of_lookup h hlookup]
          exact Function.update_eq_self cat.id c.entryAt
        · intro signal hsignal
          rw [List.mem_singleton.mp hsignal]
          trivial
      · rw [if_neg hsame]
        exact ⟨[], Journal.refl h⟩
  · rw [if_neg hlevel]
    exact ⟨[], Journal.refl h⟩

theorem removeCategory_journal (h : Catalogue n c) (name : String) :
    ∃ log, Journal n c (c.removeCategory name).2 log := by
  unfold removeCategory
  cases hlookup : c.categories.lookup name with
  | none => exact ⟨[], Journal.refl h⟩
  | some cat =>
    have hmem := KeyedTable.mem_of_lookup hlookup
    have hname := KeyedTable.key_of_lookup hlookup
    have hdistinct : ((c.categories.erase name).values.map (·.id)).Nodup :=
      (List.filter_sublist.map _).nodup h.distinct
    have hcases : ∀ other ∈ (c.categories.erase name).values, other ∈ c.categories.values :=
      fun other hother => ((KeyedTable.mem_erase_iff _).mp hother).1
    refine ⟨[.categoryRemoved cat], ⟨h.counted, hdistinct, ?_, ?_, h.heard⟩, rfl, ?_, ?_⟩
    · exact fun other hother => h.issued other (hcases other hother)
    · exact fun other hother => h.narrow other (hcases other hother)
    · change entryAt ({ c with categories := c.categories.erase name }.emit (.categoryRemoved cat)) =
        Function.update c.entryAt cat.id none
      funext id
      apply Option.ext
      intro entry
      rw [entryAt_eq_some_iff hdistinct]
      change (∃ other ∈ (c.categories.erase name).values, _) ↔ _
      by_cases hid : id = cat.id
      · subst hid
        rw [Function.update_self]
        refine iff_of_false ?_ (fun he => by cases he)
        rintro ⟨other, hother, hsame, _⟩
        obtain ⟨hold, hne⟩ := (KeyedTable.mem_erase_iff _).mp hother
        exact hne (((name_iff_id h hold hmem).mpr hsame).trans hname)
      · rw [Function.update_of_ne hid, entryAt_eq_some_iff h.distinct]
        constructor
        · rintro ⟨other, hother, hsame, he⟩
          exact ⟨other, hcases other hother, hsame, he⟩
        · rintro ⟨other, hold, hsame, he⟩
          have hne : other.name ≠ name := fun hn =>
            hid (hsame.symm.trans ((name_iff_id h hold hmem).mp (hn.trans hname.symm)))
          exact ⟨other, (KeyedTable.mem_erase_iff _).mpr ⟨hold, hne⟩, hsame, he⟩
    · intro signal hsignal
      rw [List.mem_singleton.mp hsignal]
      exact (h.issued cat hmem).1

/-- The signals about a list of categories that are gone. -/
theorem changes_removed (cats : List DBusLogCategory) :
    (cats.map CoreSignal.categoryRemoved).flatMap CoreSignal.changes =
      (cats.map (·.id)).map Change.drop := by
  induction cats with
  | nil => rfl
  | cons cat cats ih =>
    rw [List.map_cons, List.flatMap_cons, ih]
    rfl

/-- All categories are removed, and there is a signal for each of them. -/
theorem removeAllCategories_journal (h : Catalogue n c) :
    ∃ log, Journal n c c.removeAllCategories log := by
  unfold removeAllCategories
  by_cases hany : c.categories.values.length > 0
  · rw [if_pos hany, if_pos h.heard, emitAll_eq]
    have hmem : ∀ cat, cat ∈ c.getCategories ↔ cat ∈ c.categories.values := fun cat =>
      List.mem_insertionSort _
    refine ⟨c.getCategories.map .categoryRemoved,
      ⟨h.counted, List.nodup_nil, fun _ hcat => (nomatch hcat), fun _ hcat => (nomatch hcat),
        h.heard⟩, rfl, ?_, ?_⟩
    · rw [changes_removed]
      funext id
      rw [replay_drops]
      change none = _
      by_cases hid : id ∈ c.getCategories.map (·.id)
      · rw [if_pos hid]
      · rw [if_neg hid]
        cases hentry : c.entryAt id with
        | none => rfl
        | some entry =>
          obtain ⟨cat, hcat, hsame, _⟩ := (entryAt_eq_some_iff h.distinct).mp hentry
          exact absurd (List.mem_map.mpr ⟨cat, (hmem cat).mpr hcat, hsame⟩) hid
    · intro signal hsignal
      obtain ⟨cat, hcat, rfl⟩ := List.mem_map.mp hsignal
      exact (h.issued cat ((hmem cat).mp hcat)).1
  · rw [if_neg hany]
    exact ⟨[], Journal.refl h⟩

end Catalogue

end DBusLogCore

end DBusLog

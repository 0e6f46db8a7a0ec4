import DBusLog.Core.References
import DBusLog.Core.Identity
import DBusLog.Core.Settings

/-!
# Handlers that call the core

The functions of the core change the category table before they emit a signal. So a call that a
handler makes finds the table as all calls begun before it have left it, and the nested calls do
what they would do one after another. Only the signals come in another order: while
`dbus_log_core_remove_all_categories` reports one category, its handlers may have the core say other
things before the rest is reported. What is said about each single category keeps its order.
-/

namespace DBusLog

/-- The category that a signal is about. -/
def CoreSignal.about : CoreSignal → Option UInt32
  | .categoryAdded cat | .categoryRemoved cat | .categoryLevel cat | .categoryFlags cat _ =>
    some cat.id
  | .backlog | .defaultLevel => none

/-- What signals say about one category. -/
def CoreSignal.saidAbout (id : UInt32) (signals : List CoreSignal) : List CoreSignal :=
  signals.filter fun signal => signal.about = some id

/-- A call that changes the table. -/
def CategoryCall.coreOp? : CategoryCall → Option CoreOp
  | .newCategory name level flags => some (.newCategory name level flags)
  | .removeCategory name => some (.removeCategory name)
  | .removeAllCategories => some .removeAllCategories
  | .setCategoryEnabled name enable => some (.setCategoryEnabled name enable)
  | .setCategoryLevel name level => some (.setCategoryLevel name level)
  | _ => none

namespace CoreCategories

/-- `dbus_log_core_find_category`: the category that the table has under a name. -/
def findCategory (c : CoreCategories) (name : String) : Option DBusLogCategory :=
  (c.categories.lookup name).bind fun e => c.objects.read e.2

/-- The categories that loops of `dbus_log_core_remove_all_categories` have still to report. -/
def owed (c : CoreCategories) : List Nat :=
  c.frames.flatMap fun
    | .removedAll _ _ rest => rest
    | _ => []

/-- The signals for them. -/
def owedSignals (c : CoreCategories) : List CoreSignal :=
  c.owed.filterMap fun q => (c.objects.read q).map .categoryRemoved

/-- The table, the ids and what has been said are those of the core `d`. -/
structure Mirrors (c : CoreCategories) (d : DBusLogCore) : Prop where
  table : ∀ name, c.findCategory name = d.categories.lookup name
  named : ∀ e ∈ c.categories.values, (c.objects.read e.2).map (·.name) = some e.1
  lastCid : c.lastCid = d.lastCid
  counted : c.lastCid.toNat = c.objects.heap.length
  ids : ∀ p cat, c.objects.read p = some cat → cat.id.toNat = p + 1
  handlers : c.removedHandlers = d.removedHandlers
  gone : ∀ q ∈ c.owed, q ∉ c.pointers ∧ q < c.objects.heap.length
  said : ∀ id, CoreSignal.saidAbout id (c.signals ++ c.owedSignals) =
    CoreSignal.saidAbout id d.signals

section Reentrancy

variable {c c' : CoreCategories} {d : DBusLogCore} {p q : Nat} {cat : DBusLogCategory}
  {name : String} {e : String × Nat} {id : UInt32}

open CoreSignal (saidAbout)

/-! ## What is said -/

@[simp] theorem saidAbout_append (id : UInt32) (xs ys : List CoreSignal) :
    saidAbout id (xs ++ ys) = saidAbout id xs ++ saidAbout id ys := List.filter_append xs ys

/-- What is said about other categories may come later. -/
theorem saidAbout_insert {xs news ys : List CoreSignal}
    (hother : ∀ s ∈ news, ∀ t ∈ ys, t.about ≠ s.about) (id : UInt32) :
    saidAbout id (xs ++ news ++ ys) = saidAbout id (xs ++ ys) ++ saidAbout id news := by
  rw [saidAbout_append, saidAbout_append, saidAbout_append, List.append_assoc, List.append_assoc]
  congr 1
  by_cases hys : saidAbout id ys = []
  · rw [hys, List.append_nil, List.nil_append]
  · obtain ⟨t, ht⟩ := List.exists_mem_of_ne_nil _ hys
    obtain ⟨htys, habout⟩ := List.mem_filter.mp ht
    have hnews : saidAbout id news = [] := by
      refine List.filter_eq_nil_iff.mpr fun s hs hsaid => hother s hs t htys ?_
      exact (of_decide_eq_true habout).trans (of_decide_eq_true hsaid).symm
    rw [hnews, List.append_nil, List.nil_append]

/-- The signal is about the category of the pointer. -/
def AboutPointer (signal : CoreSignal) (p : Nat) : Prop :=
  ∃ id : UInt32, signal.about = some id ∧ id.toNat = p + 1

theorem AboutPointer.ne {s t : CoreSignal} (hs : AboutPointer s p) (ht : AboutPointer t q)
    (hne : q ≠ p) : t.about ≠ s.about := by
  obtain ⟨i, hi, hp⟩ := hs
  obtain ⟨k, hk, hq⟩ := ht
  intro he
  have hsame : k = i := Option.some.inj (hk.symm.trans (he.trans hi))
  subst hsame
  omega

theorem Mirrors.owed_about (h : Mirrors c d) {t : CoreSignal} (ht : t ∈ c.owedSignals) :
    ∃ q ∈ c.owed, AboutPointer t q := by
  obtain ⟨q, hq, he⟩ := List.mem_filterMap.mp ht
  obtain ⟨cat, hread, rfl⟩ := Option.map_eq_some_iff.mp he
  exact ⟨q, hq, cat.id, rfl, h.ids q cat hread⟩

/-- The core says something, about categories that no loop has still to report. -/
theorem Mirrors.say (h : Mirrors c d) {news : List CoreSignal}
    (hnews : ∀ s ∈ news, ∃ p, AboutPointer s p ∧ p ∉ c.owed) (id : UInt32) :
    saidAbout id (c.signals ++ news ++ c.owedSignals) = saidAbout id (d.signals ++ news) := by
  rw [saidAbout_insert, h.said id, saidAbout_append]
  intro s hs t ht
  obtain ⟨p, hp, hnot⟩ := hnews s hs
  obtain ⟨q, hq, habout⟩ := h.owed_about ht
  exact hp.ne habout fun he => hnot (he ▸ hq)

/-! ## The table -/

theorem Mirrors.lookup_none (h : Mirrors c d) (hlookup : c.categories.lookup name = none) :
    d.categories.lookup name = none := by
  rw [← h.table name, findCategory, hlookup]
  rfl

theorem Mirrors.lookup_some (h : Mirrors c d) (hlookup : c.categories.lookup name = some e) :
    ∃ cat, c.objects.read e.2 = some cat ∧ cat.name = name ∧
      d.categories.lookup name = some cat := by
  obtain ⟨cat, hread, hname⟩ := Option.map_eq_some_iff.mp
    (h.named e (KeyedTable.mem_of_lookup hlookup))
  refine ⟨cat, hread, hname.trans (KeyedTable.key_of_lookup hlookup), ?_⟩
  rw [← h.table name, findCategory, hlookup]
  exact hread

/-- An entry of the table has the pointer for itself. -/
theorem Mirrors.pointer_inj (h : Mirrors c d) {e' : String × Nat} (he : e ∈ c.categories.values)
    (he' : e' ∈ c.categories.values) (hp : e.2 = e'.2) : e = e' := by
  have hname := (h.named e he).symm
  rw [hp, h.named e' he'] at hname
  exact Prod.ext (Option.some.inj hname) hp

theorem Mirrors.pointer_lt (h : Mirrors c d) (he : e ∈ c.categories.values) :
    e.2 < c.objects.heap.length := by
  obtain ⟨cat, hread, _⟩ := Option.map_eq_some_iff.mp (h.named e he)
  obtain ⟨cell, hcell, _⟩ := Option.map_eq_some_iff.mp hread
  exact (List.getElem?_eq_some_iff.mp hcell).1

/-- Whatever leaves the table and the categories alone, and says what has been owed. -/
theorem Mirrors.of_said (h : Mirrors c d) (hread : ∀ a, c'.objects.read a = c.objects.read a)
    (hlength : c'.objects.heap.length = c.objects.heap.length)
    (htable : c'.categories = c.categories) (hlast : c'.lastCid = c.lastCid)
    (hhandlers : c'.removedHandlers = c.removedHandlers) (howed : ∀ q ∈ c'.owed, q ∈ c.owed)
    (hsaid : c'.signals ++ c'.owedSignals = c.signals ++ c.owedSignals) : Mirrors c' d where
  table name := by
    rw [← h.table name]
    unfold findCategory
    rw [htable]
    simp only [hread]
  named e he := by
    rw [htable] at he
    rw [hread]
    exact h.named e he
  lastCid := hlast.trans h.lastCid
  counted := by
    rw [hlast, hlength]
    exact h.counted
  ids p cat hp := h.ids p cat ((hread p).symm.trans hp)
  handlers := hhandlers.trans h.handlers
  gone q hq := by
    rw [hlength]
    unfold pointers
    rw [htable]
    exact h.gone q (howed q hq)
  said id := by
    rw [hsaid]
    exact h.said id

/-- Whatever leaves the signals alone, too. -/
theorem Mirrors.of_same (h : Mirrors c d) (hread : ∀ a, c'.objects.read a = c.objects.read a)
    (hlength : c'.objects.heap.length = c.objects.heap.length)
    (htable : c'.categories = c.categories) (hlast : c'.lastCid = c.lastCid)
    (hhandlers : c'.removedHandlers = c.removedHandlers) (howed : c'.owed = c.owed)
    (hsignals : c'.signals = c.signals) : Mirrors c' d := by
  refine h.of_said hread hlength htable hlast hhandlers (fun q hq => howed ▸ hq) ?_
  unfold owedSignals
  simp only [hsignals, howed, hread]

theorem new_mirrors (backlog : Int32) (removedHandlers : Bool) :
    Mirrors (new removedHandlers) (.new backlog removedHandlers) where
  table _ := rfl
  named e he := by cases he
  lastCid := rfl
  counted := rfl
  ids p cat hp := by cases hp
  handlers := rfl
  gone q hq := by cases hq
  said _ := rfl

/-- A signal goes out, about a category that no loop has still to report. -/
theorem Mirrors.emit (h : Mirrors c d) {frame : CategoryFrame}
    {signal : DBusLogCategory → CoreSignal} (hframe : frame.heldArrays = [])
    (hread : c.objects.read p = some cat) (habout : (signal cat).about = some cat.id)
    (hnot : p ∉ c.owed) : Mirrors (c.emit frame p signal) (d.emit (signal cat)) := by
  have howed : (c.emit frame p signal).owed = c.owed := by
    cases frame with
    | removedAll array q rest => cases hframe
    | _ => rfl
  have hreads : ∀ a, (c.emit frame p signal).objects.read a = c.objects.read a :=
    fun a => RefMemory.read_ref a
  have hlength : (c.emit frame p signal).objects.heap.length = c.objects.heap.length :=
    RefMemory.length_ref
  have hsignals : (c.emit frame p signal).signals = c.signals ++ [signal cat] := by
    show c.signals ++ ((c.objects.read p).map signal).toList = _
    rw [hread]
    rfl
  refine ⟨fun name => ?_, fun e he => ?_, h.lastCid, ?_, fun q cat' hq => ?_, h.handlers,
    fun q hq => ?_, fun id => ?_⟩
  · show (c.categories.lookup name).bind
      (fun e => (c.emit frame p signal).objects.read e.2) = d.categories.lookup name
    simp only [hreads]
    exact h.table name
  · rw [hreads]
    exact h.named e he
  · rw [hlength]
    exact h.counted
  · exact h.ids q cat' ((hreads q).symm.trans hq)
  · rw [hlength]
    rw [howed] at hq
    exact h.gone q hq
  · have howedSignals : (c.emit frame p signal).owedSignals = c.owedSignals := by
      unfold owedSignals
      simp only [howed, hreads]
    rw [hsignals, howedSignals]
    refine h.say (fun s hs => ?_) id
    rw [List.mem_singleton.mp hs]
    exact ⟨p, ⟨cat.id, habout, h.ids p cat hread⟩, hnot⟩

/-! ## The functions -/

theorem create_name (name : String) (cid : UInt32) (level : Level) (flags : UInt64) :
    (DBusLogCategory.create name cid level flags).name = name := by
  unfold DBusLogCategory.create
  dsimp only
  repeat' split
  all_goals rfl

theorem create_id (name : String) (cid : UInt32) (level : Level) (flags : UInt64) :
    (DBusLogCategory.create name cid level flags).id = cid := by
  unfold DBusLogCategory.create
  dsimp only
  repeat' split
  all_goals rfl

/-- A category with a new name takes the next id. -/
theorem Mirrors.insert (h : Mirrors c d) (hname : cat.name = name)
    (hid : cat.id = c.lastCid + 1) (hnext : (c.lastCid + 1).toNat = c.objects.heap.length + 1) :
    Mirrors { c with
      lastCid := c.lastCid + 1
      objects := c.objects.alloc cat
      categories := c.categories.insert (name, c.objects.heap.length) }
    { d with lastCid := c.lastCid + 1, categories := d.categories.insert cat } := by
  have hself : (c.objects.alloc cat).read c.objects.heap.length = some cat :=
    RefMemory.read_alloc_self cat
  have hold : ∀ q, q < c.objects.heap.length →
      (c.objects.alloc cat).read q = c.objects.read q :=
    fun q hq => RefHeap.read_alloc_of_lt hq cat
  have hmem : ∀ e ∈ (c.categories.insert (name, c.objects.heap.length)).values,
      e = (name, c.objects.heap.length) ∨ e ∈ c.categories.values := fun e he =>
    ((KeyedTable.mem_insert_iff _).mp he).imp_right And.left
  refine ⟨fun other => ?_, fun e he => ?_, rfl, ?_, fun q cat' hq => ?_, h.handlers,
    fun q hq => ⟨fun hpointer => ?_, ?_⟩, fun id => ?_⟩
  · unfold findCategory
    dsimp only
    by_cases hother : other = name
    · have hd : (d.categories.insert cat).lookup cat.name = some cat :=
        KeyedTable.lookup_insert _ cat
      have hc : (c.categories.insert (name, c.objects.heap.length)).lookup name =
          some (name, c.objects.heap.length) :=
        KeyedTable.lookup_insert _ (name, c.objects.heap.length)
      rw [hname] at hd
      rw [hother, hc, hd]
      exact hself
    · rw [KeyedTable.lookup_insert_ne _ hother,
        KeyedTable.lookup_insert_ne _ (fun he => hother (he.trans hname)), ← h.table other]
      unfold findCategory
      cases hother' : c.categories.lookup other with
      | none => rfl
      | some e => exact hold e.2 (h.pointer_lt (KeyedTable.mem_of_lookup hother'))
  · obtain rfl | he := hmem e he
    · show ((c.objects.alloc cat).read c.objects.heap.length).map (·.name) = some name
      rw [hself, ← hname]
      rfl
    · show ((c.objects.alloc cat).read e.2).map (·.name) = some e.1
      rw [hold e.2 (h.pointer_lt he)]
      exact h.named e he
  · rw [RefMemory.length_alloc]
    exact hnext
  · obtain ⟨cell, hcell, _⟩ := Option.map_eq_some_iff.mp hq
    have hlt := (List.getElem?_eq_some_iff.mp hcell).1
    rw [RefMemory.length_alloc] at hlt
    obtain hlt | rfl := Nat.lt_succ_iff_lt_or_eq.mp hlt
    · exact h.ids q cat' ((hold q hlt).symm.trans hq)
    · have hsame : cat = cat' := Option.some.inj (hself.symm.trans hq)
      rw [← hsame, hid]
      exact hnext
  · obtain ⟨hnot, hlt⟩ := h.gone q hq
    obtain ⟨e, he, rfl⟩ := List.mem_map.mp hpointer
    obtain rfl | he := hmem e he
    · exact Nat.lt_irrefl _ hlt
    · exact hnot (List.mem_map.mpr ⟨e, he, rfl⟩)
  · rw [RefMemory.length_alloc]
    exact Nat.lt_succ_of_lt (h.gone q hq).2
  · refine Eq.trans ?_ (h.said id)
    congr 2
    refine List.filterMap_congr fun q hq => ?_
    exact congrArg _ (hold q (h.gone q hq).2)

theorem newCategory_length (hlookup : c.categories.lookup name = none) (level : Level)
    (flags : UInt64) :
    (c.newCategory name level flags).objects.heap.length = c.objects.heap.length + 1 := by
  unfold CoreCategories.newCategory
  rw [hlookup]
  simp only [CoreCategories.emit, RefMemory.length_use, RefMemory.length_ref,
    RefMemory.length_alloc]

/-- A new category. The ids do not come round. -/
theorem Mirrors.newCategory (h : Mirrors c d) (name : String) (level : Level) (flags : UInt64)
    (hroom : (c.newCategory name level flags).objects.heap.length < 2 ^ 32) :
    Mirrors (c.newCategory name level flags) (d.newCategory name level flags).2 := by
  cases hlookup : c.categories.lookup name with
  | some e =>
    unfold CoreCategories.newCategory
    rw [hlookup]
    obtain ⟨cat, _, _, hd⟩ := h.lookup_some hlookup
    have hsame : (d.newCategory name level flags).2 = d := by
      unfold DBusLogCore.newCategory
      rw [hd]
    rw [hsame]
    exact h.of_same (fun a => RefMemory.read_ref a) RefMemory.length_ref rfl rfl rfl rfl rfl
  | none =>
    rw [newCategory_length hlookup] at hroom
    unfold CoreCategories.newCategory
    rw [hlookup]
    have hnext : (c.lastCid + 1).toNat = c.objects.heap.length + 1 := by
      rw [UInt32.toNat_add, h.counted]
      change (c.objects.heap.length + 1) % 2 ^ 32 = c.objects.heap.length + 1
      omega
    have hne : c.lastCid + 1 ≠ 0 := by
      intro hzero
      rw [hzero] at hnext
      cases hnext
    have hd : (d.newCategory name level flags).2 = { d with
        lastCid := c.lastCid + 1
        categories := d.categories.insert (.create name (c.lastCid + 1) level flags) }.emit
          (.categoryAdded (.create name (c.lastCid + 1) level flags)) := by
      unfold DBusLogCore.newCategory
      rw [h.lookup_none hlookup, ← h.lastCid]
      simp only [if_neg hne]
      rfl
    rw [hd]
    simp only [if_neg hne]
    have hname := create_name name (c.lastCid + 1) level flags
    have hid := create_id name (c.lastCid + 1) level flags
    generalize DBusLogCategory.create name (c.lastCid + 1) level flags = cat at hname hid
    refine (h.insert hname hid hnext).emit rfl (RefMemory.read_alloc_self cat) rfl ?_
    exact fun hmem => Nat.lt_irrefl _ (h.gone _ hmem).2

/-- A category leaves the table. -/
theorem Mirrors.erase (h : Mirrors c d) (name : String) :
    Mirrors { c with categories := c.categories.erase name }
      { d with categories := d.categories.erase name } where
  table other := by
    unfold findCategory
    dsimp only
    by_cases hother : other = name
    · rw [hother, KeyedTable.lookup_erase, KeyedTable.lookup_erase]
      rfl
    · rw [KeyedTable.lookup_erase_ne _ hother, KeyedTable.lookup_erase_ne _ hother]
      exact h.table other
  named e he := h.named e ((KeyedTable.mem_erase_iff _).mp he).1
  lastCid := h.lastCid
  counted := h.counted
  ids := h.ids
  handlers := h.handlers
  gone q hq := by
    obtain ⟨hnot, hlt⟩ := h.gone q hq
    refine ⟨fun hpointer => hnot ?_, hlt⟩
    obtain ⟨e, he, hp⟩ := List.mem_map.mp hpointer
    exact List.mem_map.mpr ⟨e, ((KeyedTable.mem_erase_iff _).mp he).1, hp⟩
  said := h.said

theorem Mirrors.removeCategory (h : Mirrors c d) (name : String) :
    Mirrors (c.removeCategory name) (d.removeCategory name).2 := by
  unfold CoreCategories.removeCategory DBusLogCore.removeCategory
  cases hlookup : c.categories.lookup name with
  | none =>
    rw [h.lookup_none hlookup]
    exact h
  | some e =>
    obtain ⟨cat, hread, _, hd⟩ := h.lookup_some hlookup
    rw [hd]
    have hreads : ∀ a, ((c.objects.ref e.2).unref e.2).read a = c.objects.read a := fun a =>
      (RefMemory.read_unref a).trans (RefMemory.read_ref a)
    have herased : Mirrors { c with
        objects := (c.objects.ref e.2).unref e.2
        categories := c.categories.erase name } { d with categories := d.categories.erase name } :=
      (h.erase name).of_same hreads (RefMemory.length_unref.trans RefMemory.length_ref) rfl rfl rfl
        rfl rfl
    refine herased.emit rfl ((hreads e.2).trans hread) rfl fun hmem => ?_
    exact (h.gone e.2 hmem).1 (mem_pointers hlookup)

/-- A category of the table is changed. -/
theorem Mirrors.write (h : Mirrors c d) (hlookup : c.categories.lookup name = some e)
    (hread : c.objects.read e.2 = some cat) (f : DBusLogCategory → DBusLogCategory)
    (hname : (f cat).name = cat.name) (hid : (f cat).id = cat.id) :
    Mirrors { c with objects := c.objects.write e.2 f }
      { d with categories := d.categories.insert (f cat) } := by
  have hmem := KeyedTable.mem_of_lookup hlookup
  have hkey : e.1 = name := KeyedTable.key_of_lookup hlookup
  have hcat : cat.name = name := by
    have hnamed := h.named e hmem
    rw [hread] at hnamed
    exact (Option.some.inj hnamed).trans hkey
  have hself : (c.objects.write e.2 f).read e.2 = some (f cat) := by
    rw [RefMemory.read_write, hread]
    exact congrArg some (if_pos rfl)
  have hold : ∀ q, q ≠ e.2 → (c.objects.write e.2 f).read q = c.objects.read q := by
    intro q hq
    rw [RefMemory.read_write]
    simp only [if_neg hq.symm, Option.map_id']
  refine ⟨fun other => ?_, fun e' he' => ?_, h.lastCid, ?_, fun q cat' hq => ?_, h.handlers,
    fun q hq => ?_, fun id => ?_⟩
  · unfold findCategory
    dsimp only
    by_cases hother : other = name
    · have hd : (d.categories.insert (f cat)).lookup (f cat).name = some (f cat) :=
        KeyedTable.lookup_insert _ (f cat)
      rw [hname, hcat] at hd
      rw [hother, hlookup, hd]
      exact hself
    · rw [KeyedTable.lookup_insert_ne _ (fun he => hother (he.trans (hname.trans hcat))),
        ← h.table other]
      unfold findCategory
      cases hother' : c.categories.lookup other with
      | none => rfl
      | some e' =>
        refine hold e'.2 fun hp => hother ?_
        have hsame := h.pointer_inj (KeyedTable.mem_of_lookup hother') hmem hp
        rw [← KeyedTable.key_of_lookup hother', hsame]
        exact hkey
  · show ((c.objects.write e.2 f).read e'.2).map (·.name) = some e'.1
    by_cases hp : e'.2 = e.2
    · rw [h.pointer_inj he' hmem hp, hself, hkey]
      exact congrArg some (hname.trans hcat)
    · rw [hold e'.2 hp]
      exact h.named e' he'
  · exact h.counted.trans (RefHeap.length_write e.2 f).symm
  · by_cases hp : q = e.2
    · rw [hp] at hq ⊢
      rw [← Option.some.inj (hself.symm.trans hq), hid]
      exact h.ids e.2 cat hread
    · exact h.ids q cat' ((hold q hp).symm.trans hq)
  · obtain ⟨hnot, hlt⟩ := h.gone q hq
    exact ⟨hnot, hlt.trans_eq (RefHeap.length_write e.2 f).symm⟩
  · refine Eq.trans ?_ (h.said id)
    congr 2
    refine List.filterMap_congr fun q hq => ?_
    have hne : q ≠ e.2 := fun hp => (h.gone q hq).1 (hp ▸ mem_pointers hlookup)
    exact congrArg _ (hold q hne)

/-- It is changed, and a signal about it goes out. -/
theorem Mirrors.change (h : Mirrors c d) (hlookup : c.categories.lookup name = some e)
    (hread : c.objects.read e.2 = some cat) (f : DBusLogCategory → DBusLogCategory)
    {signal : DBusLogCategory → CoreSignal} (hname : (f cat).name = cat.name)
    (hid : (f cat).id = cat.id) (habout : (signal (f cat)).about = some (f cat).id) :
    Mirrors ({ c with objects := c.objects.write e.2 f }.emit (.changed e.2) e.2 signal)
      ({ d with categories := d.categories.insert (f cat) }.emit (signal (f cat))) := by
  refine (h.write hlookup hread f hname hid).emit rfl ?_ habout fun hmem => ?_
  · rw [RefMemory.read_write, hread]
    exact congrArg some (if_pos rfl)
  · exact (h.gone e.2 hmem).1 (mem_pointers hlookup)

theorem Mirrors.use (h : Mirrors c d) (p : Nat) :
    Mirrors { c with objects := c.objects.use p } d :=
  h.of_same (fun _ => rfl) rfl rfl rfl rfl rfl rfl

theorem Mirrors.setCategoryEnabled (h : Mirrors c d) (name : String) (enable : Bool) :
    Mirrors (c.setCategoryEnabled name enable) (d.setCategoryEnabled name enable) := by
  unfold CoreCategories.setCategoryEnabled DBusLogCore.setCategoryEnabled
  cases hlookup : c.categories.lookup name with
  | none =>
    rw [h.lookup_none hlookup]
    exact h
  | some e =>
    obtain ⟨cat, hread, _, hd⟩ := h.lookup_some hlookup
    rw [hd]
    dsimp only
    rw [hread]
    dsimp only
    by_cases hoff : cat.enabled ∧ ¬enable
    · simp only [if_pos hoff]
      exact h.change hlookup hread _ rfl rfl rfl
    · by_cases hon : ¬cat.enabled ∧ enable
      · simp only [if_neg hoff, if_pos hon]
        exact h.change hlookup hread _ rfl rfl rfl
      · simp only [if_neg hoff, if_neg hon]
        exact h.use e.2

theorem Mirrors.setCategoryLevel (h : Mirrors c d) (name : String) (level : Level) :
    Mirrors (c.setCategoryLevel name level) (d.setCategoryLevel name level).2 := by
  unfold CoreCategories.setCategoryLevel DBusLogCore.setCategoryLevel
  by_cases hlevel : level ≥ Level.undefined ∧ level < Level.count
  · rw [if_pos hlevel, if_pos hlevel]
    cases hlookup : c.categories.lookup name with
    | none =>
      rw [h.lookup_none hlookup]
      exact h
    | some e =>
      obtain ⟨cat, hread, _, hd⟩ := h.lookup_some hlookup
      rw [hd]
      dsimp only
      rw [hread]
      dsimp only
      by_cases hsame : cat.level ≠ level
      · rw [if_pos hsame, if_pos hsame]
        exact h.change hlookup hread _ rfl rfl rfl
      · rw [if_neg hsame, if_neg hsame]
        exact h.use e.2
  · rw [if_neg hlevel, if_neg hlevel]
    exact h

/-! ## Removing all categories -/

/-- The signals for removed categories. -/
def removals (c : CoreCategories) (cats : List Nat) : List CoreSignal :=
  cats.filterMap fun q => (c.objects.read q).map .categoryRemoved

/-- Two orders of signals that are about different categories. -/
theorem saidAbout_of_perm {xs ys : List CoreSignal} (hperm : xs.Perm ys)
    (hnodup : (xs.map CoreSignal.about).Nodup) (id : UInt32) :
    saidAbout id xs = saidAbout id ys := by
  have hfiltered : (saidAbout id xs).Perm (saidAbout id ys) := hperm.filter _
  have hsame : ∀ s ∈ saidAbout id xs, s.about = some id := fun s hs =>
    of_decide_eq_true (List.mem_filter.mp hs).2
  have hsub : ((saidAbout id xs).map CoreSignal.about).Nodup :=
    (List.filter_sublist.map CoreSignal.about).nodup hnodup
  revert hfiltered hsame hsub
  cases saidAbout id xs with
  | nil =>
    intro hfiltered _ _
    exact hfiltered.nil_eq
  | cons s rest =>
    intro hfiltered hsame hsub
    cases rest with
    | nil => exact hfiltered.singleton_eq
    | cons t rest =>
      obtain ⟨hnot, _⟩ := List.nodup_cons.mp hsub
      rw [List.map_cons, hsame s List.mem_cons_self,
        hsame t (List.mem_cons_of_mem s List.mem_cons_self)] at hnot
      exact absurd List.mem_cons_self hnot

/-- The categories of the table. -/
def contents (c : CoreCategories) : List DBusLogCategory := c.pointers.filterMap c.objects.read

theorem Mirrors.contents_names (h : Mirrors c d) :
    c.contents.map (·.name) = c.categories.values.map Prod.fst := by
  unfold contents pointers
  rw [List.filterMap_map, List.map_filterMap, ← List.filterMap_eq_map]
  exact List.filterMap_congr fun e he => h.named e he

theorem Mirrors.contents_perm (h : Mirrors c d) : c.contents.Perm d.categories.values := by
  have hcontents : c.contents = c.categories.values.filterMap fun e => c.objects.read e.2 :=
    List.filterMap_map
  have hnodup : (c.contents.map (·.name)).Nodup := h.contents_names ▸ c.categories.nodup
  refine (List.perm_ext_iff_of_nodup (hnodup.of_map _) (d.categories.nodup.of_map _)).mpr
    fun cat => ?_
  rw [hcontents, List.mem_filterMap]
  constructor
  · rintro ⟨e, he, hread⟩
    obtain ⟨cat', hread', _, hd⟩ := h.lookup_some (KeyedTable.lookup_of_mem he)
    cases hread.symm.trans hread'
    exact KeyedTable.mem_of_lookup hd
  · intro hcat
    have hd := KeyedTable.lookup_of_mem hcat
    rw [← h.table cat.name] at hd
    obtain ⟨e, he, hread⟩ := Option.bind_eq_some_iff.mp hd
    exact ⟨e, KeyedTable.mem_of_lookup he, hread⟩

theorem matched_perm (c : CoreCategories) : (c.matched fun _ => true).Perm c.pointers := by
  unfold matched pointers
  rw [List.filter_true]
  exact (List.perm_insertionSort _ _).map Prod.snd

theorem Mirrors.pointers_nodup (h : Mirrors c d) : c.pointers.Nodup :=
  List.Nodup.map_on (fun _ he _ he' hp => h.pointer_inj he he' hp) (c.categories.nodup.of_map _)

/-- Both cores report the same categories. -/
theorem Mirrors.removals_said (h : Mirrors c d) (id : UInt32) :
    saidAbout id (c.removals (c.matched fun _ => true)) =
      saidAbout id (d.getCategories.map .categoryRemoved) := by
  have hmap : ∀ cats : List Nat, c.removals cats =
      (cats.filterMap c.objects.read).map .categoryRemoved := fun cats =>
    List.map_filterMap.symm
  refine saidAbout_of_perm ?_ ?_ id
  · rw [hmap]
    refine List.Perm.map _ (((matched_perm c).filterMap _).trans (h.contents_perm.trans ?_))
    exact (List.perm_insertionSort _ _).symm
  · rw [removals, List.map_filterMap]
    refine List.Nodup.filterMap (fun p q k hp hq => ?_)
      ((matched_perm c).nodup_iff.mpr h.pointers_nodup)
    rw [Option.mem_def, Option.map_map] at hp hq
    obtain ⟨cat, hcat, rfl⟩ := Option.map_eq_some_iff.mp hp
    obtain ⟨cat', hcat', hk⟩ := Option.map_eq_some_iff.mp hq
    -- the ids tell the pointers apart
    have hid : cat'.id = cat.id := Option.some.inj hk
    have hp := h.ids p cat hcat
    have hq := h.ids q cat' hcat'
    rw [hid] at hq
    omega

theorem Mirrors.clear (h : Mirrors c d) :
    Mirrors c.clear { d with categories := .empty } := by
  have hread : ∀ a, c.clear.objects.read a = c.objects.read a := RefMemory.read_unrefAll c.pointers
  refine ⟨fun name => rfl, fun e he => absurd he List.not_mem_nil, h.lastCid, ?_,
    fun q cat hq => ?_, h.handlers, fun q hq => ⟨List.not_mem_nil, ?_⟩, fun id => ?_⟩
  · exact h.counted.trans (RefMemory.length_unrefAll _).symm
  · exact h.ids q cat ((hread q).symm.trans hq)
  · exact (h.gone q hq).2.trans_eq (RefMemory.length_unrefAll _).symm
  · refine Eq.trans ?_ (h.said id)
    congr 2
    exact List.filterMap_congr fun q _ => congrArg _ (hread q)

/-- The loop over the array begins, with all of the signals owed. -/
theorem Mirrors.begin (h : Mirrors c d) (array : Nat) (cats : List Nat) (log : List CoreSignal)
    (hcats : ∀ q ∈ cats, q ∉ c.pointers ∧ q < c.objects.heap.length ∧ q ∉ c.owed)
    (hlog : ∀ id, saidAbout id (c.removals cats) = saidAbout id log) :
    Mirrors { c with frames := .removedAll array 0 cats :: c.frames }
      { d with signals := d.signals ++ log } := by
  have howed : ∀ q ∈ cats ++ c.owed, q ∉ c.pointers ∧ q < c.objects.heap.length := by
    intro q hq
    obtain hq | hq := List.mem_append.mp hq
    · exact ⟨(hcats q hq).1, (hcats q hq).2.1⟩
    · exact h.gone q hq
  refine ⟨h.table, h.named, h.lastCid, h.counted, h.ids, h.handlers, howed, fun id => ?_⟩
  have hsplit : c.signals ++ (cats ++ c.owed).filterMap (fun q =>
      (c.objects.read q).map .categoryRemoved) =
        c.signals ++ c.removals cats ++ c.owedSignals := by
    rw [List.filterMap_append, ← List.append_assoc]
    rfl
  show saidAbout id (c.signals ++ (cats ++ c.owed).filterMap fun q =>
      (c.objects.read q).map .categoryRemoved) = saidAbout id (d.signals ++ log)
  rw [hsplit, h.say, saidAbout_append, saidAbout_append, hlog]
  intro s hs
  obtain ⟨q, hq, he⟩ := List.mem_filterMap.mp hs
  obtain ⟨cat, hread, rfl⟩ := Option.map_eq_some_iff.mp he
  exact ⟨q, ⟨cat.id, rfl, h.ids q cat hread⟩, (hcats q hq).2.2⟩

/-- The loop goes on, and says what has been owed. -/
theorem Mirrors.removeNext {array p : Nat} {cats : List Nat} {frames : List CategoryFrame}
    (h : Mirrors { c with frames := .removedAll array p cats :: frames } d) (array' : Nat) :
    Mirrors ({ c with frames := frames }.removeNext array' cats) d := by
  cases cats with
  | nil =>
    refine h.of_said (fun a => RefArrays.read_objects_unrefArray a)
      RefArrays.length_objects_unrefArray rfl rfl rfl (fun q hq => hq) (congrArg _ ?_)
    exact List.filterMap_congr fun q _ => congrArg _ (RefArrays.read_objects_unrefArray q)
  | cons q rest =>
    have hlt : q < c.objects.heap.length := (h.gone q List.mem_cons_self).2
    obtain ⟨cat, hcat⟩ : ∃ cat, c.objects.read q = some cat := by
      simp [RefMemory.read, RefHeap.read, hlt]
    have hread : ∀ a, ((c.objects.ref q).use q).read a = c.objects.read a := fun a =>
      RefMemory.read_ref a
    refine h.of_said hread RefMemory.length_ref rfl rfl rfl
      (fun q' hq' => List.mem_cons_of_mem q hq') ?_
    have hnext : c.removals (q :: (rest ++ { c with frames := frames }.owed)) =
        .categoryRemoved cat :: c.removals (rest ++ { c with frames := frames }.owed) := by
      unfold removals
      rw [List.filterMap_cons, hcat]
      rfl
    have hsame : (rest ++ { c with frames := frames }.owed).filterMap (fun a =>
        (((c.objects.ref q).use q).read a).map .categoryRemoved) =
          c.removals (rest ++ { c with frames := frames }.owed) :=
      List.filterMap_congr fun a _ => congrArg _ (hread a)
    show (c.signals ++ ((c.objects.read q).map .categoryRemoved).toList) ++
      (rest ++ { c with frames := frames }.owed).filterMap (fun a =>
        (((c.objects.ref q).use q).read a).map .categoryRemoved) =
        c.signals ++ c.removals (q :: (rest ++ { c with frames := frames }.owed))
    rw [hsame, hnext, hcat, List.append_assoc]
    rfl

theorem findCategories_read (c : CoreCategories) (matching : String → Bool) (a : Nat) :
    (c.findCategories matching).objects.read a = c.objects.read a :=
  (RefMemory.read_refAll _ a).trans (RefMemory.read_useAll _ a)

theorem findCategories_length (c : CoreCategories) (matching : String → Bool) :
    (c.findCategories matching).objects.heap.length = c.objects.heap.length :=
  (RefMemory.length_refAll _).trans (RefMemory.length_useAll _)

theorem Mirrors.findCategories (h : Mirrors c d) (matching : String → Bool) :
    Mirrors (c.findCategories matching) d :=
  h.of_same (c.findCategories_read matching) (c.findCategories_length matching) rfl rfl rfl rfl rfl

theorem Mirrors.removeAllCategories (h : Mirrors c d) :
    Mirrors c.removeAllCategories d.removeAllCategories := by
  have hlength : c.categories.values.length = d.categories.values.length := by
    have hnames := congrArg List.length h.contents_names
    rw [List.length_map, List.length_map] at hnames
    exact hnames.symm.trans h.contents_perm.length_eq
  unfold CoreCategories.removeAllCategories DBusLogCore.removeAllCategories
  by_cases hany : c.categories.values.length > 0
  · have hany' : d.categories.values.length > 0 := hlength ▸ hany
    rw [if_pos hany, if_pos hany']
    by_cases hhandlers : c.removedHandlers = true
    · rw [if_pos hhandlers, if_pos (h.handlers.symm.trans hhandlers), DBusLogCore.emitAll_eq]
      have hread := fun a => c.findCategories_read (fun _ => true) a
      have hfound : Mirrors { c.findCategories (fun _ => true) with
          toRefArrays := (c.findCategories fun _ => true).toRefArrays.refArray
            c.arrays.heap.length } d :=
        (h.findCategories fun _ => true).of_same (fun _ => rfl) rfl rfl rfl rfl rfl rfl
      have hloop := hfound.clear.begin c.arrays.heap.length (c.matched fun _ => true)
        (d.getCategories.map .categoryRemoved) (fun q hq => ?_) fun id => ?_
      · exact hloop.removeNext c.arrays.heap.length
      · have hpointer := mem_matched hq
        obtain ⟨e, he, rfl⟩ := List.mem_map.mp hpointer
        refine ⟨List.not_mem_nil, ?_, fun howed => (h.gone _ howed).1 hpointer⟩
        refine (h.pointer_lt he).trans_eq ?_
        exact ((RefMemory.length_unrefAll _).trans (c.findCategories_length _)).symm
      · refine Eq.trans (congrArg _ ?_) (h.removals_said id)
        refine List.filterMap_congr fun q _ => congrArg _ ?_
        exact (RefMemory.read_unrefAll _ q).trans (hread q)
    · rw [if_neg hhandlers, if_neg (h.handlers ▸ hhandlers)]
      exact h.clear
  · have hany' : ¬d.categories.values.length > 0 := hlength ▸ hany
    rw [if_neg hany, if_neg hany']
    exact h

/-! ## Every step -/

/-- The handlers return, and the function goes on. Nothing is said that has not been owed. -/
theorem Mirrors.goOn {frame : CategoryFrame} {frames : List CategoryFrame} (h : Mirrors c d)
    (hframes : c.frames = frame :: frames) :
    Mirrors ({ c with frames := frames }.goOn frame) d := by
  have howed : c.owed = { c with frames := frame :: frames }.owed := by
    unfold owed
    rw [hframes]
  have hframe : Mirrors { c with frames := frame :: frames } d :=
    h.of_same (fun _ => rfl) rfl rfl rfl rfl howed.symm rfl
  cases frame with
  | added p =>
    refine hframe.of_same (fun a => ?_) ?_ rfl rfl rfl rfl rfl
    · exact (RefMemory.read_ref a).trans (RefMemory.read_unref a)
    · exact RefMemory.length_ref.trans RefMemory.length_unref
  | removed p =>
    refine hframe.of_same (fun a => ?_) ?_ rfl rfl rfl rfl rfl
    · exact (RefMemory.read_unref a).trans (RefMemory.read_unref a)
    · exact RefMemory.length_unref.trans RefMemory.length_unref
  | removedAll array p rest =>
    have hunref : Mirrors { c with
        objects := c.objects.unref p
        frames := .removedAll array p rest :: frames } d :=
      hframe.of_same (fun a => RefMemory.read_unref a) RefMemory.length_unref rfl rfl rfl rfl ?_
    · exact Mirrors.removeNext (c := { c with objects := c.objects.unref p }) hunref array
    · rfl
  | changed p =>
    exact hframe.of_same (fun a => RefMemory.read_unref a) RefMemory.length_unref rfl rfl rfl rfl
      rfl

/-- Step lemma. A call has its effect on the table when it is made. -/
theorem Mirrors.step (h : Mirrors c d) {call : CategoryCall} (hs : c.step call = some c')
    (hthere : c'.disposed = false) (hroom : c'.objects.heap.length < 2 ^ 32) :
    ∃ d', Runs.run DBusLogCore.step d call.coreOp?.toList = some d' ∧ Mirrors c' d' := by
  have hquiet : Mirrors c' d → call.coreOp? = none →
      ∃ d', Runs.run DBusLogCore.step d call.coreOp?.toList = some d' ∧ Mirrors c' d' := by
    intro h' hnone
    rw [hnone]
    exact ⟨d, rfl, h'⟩
  cases call with
  | newCategory name level flags =>
    obtain ⟨_, rfl⟩ := whenThere_iff.mp hs
    exact ⟨_, rfl, h.newCategory name level flags hroom⟩
  | removeCategory name =>
    obtain ⟨_, rfl⟩ := whenThere_iff.mp hs
    exact ⟨_, rfl, h.removeCategory name⟩
  | removeAllCategories =>
    obtain ⟨_, rfl⟩ := whenThere_iff.mp hs
    exact ⟨_, rfl, h.removeAllCategories⟩
  | setCategoryEnabled name enable =>
    obtain ⟨_, rfl⟩ := whenThere_iff.mp hs
    exact ⟨_, rfl, h.setCategoryEnabled name enable⟩
  | setCategoryLevel name level =>
    obtain ⟨_, rfl⟩ := whenThere_iff.mp hs
    exact ⟨_, rfl, h.setCategoryLevel name level⟩
  | findCategories matching =>
    obtain ⟨_, rfl⟩ := whenThere_iff.mp hs
    exact hquiet (h.findCategories matching) rfl
  | log cname =>
    obtain ⟨_, rfl⟩ := whenThere_iff.mp hs
    refine hquiet ?_ rfl
    unfold CoreCategories.log
    split
    · exact h.use _
    · exact h
  | handlersReturn =>
    obtain ⟨frame, frames, hframes, rfl⟩ := handlersReturn_iff.mp hs
    exact hquiet (h.goOn hframes) rfl
  | drainPool =>
    obtain ⟨_, rfl⟩ := whenThere_iff.mp hs
    refine hquiet (h.of_same (fun a => ?_) ?_ rfl rfl rfl rfl rfl) rfl
    · exact RefArrays.read_objects_unrefArrays c.pool a
    · exact RefArrays.length_objects_unrefArrays c.pool
  | ref p =>
    obtain ⟨_, he⟩ := Option.ite_none_right_eq_some.mp hs
    cases he
    exact hquiet (h.of_same (fun a => RefMemory.read_ref a) RefMemory.length_ref rfl rfl rfl rfl
      rfl) rfl
  | unref p =>
    obtain ⟨_, he⟩ := Option.ite_none_right_eq_some.mp hs
    cases he
    exact hquiet (h.of_same (fun a => RefMemory.read_unref a) RefMemory.length_unref rfl rfl rfl
      rfl rfl) rfl
  | refArray a =>
    obtain ⟨_, he⟩ := Option.ite_none_right_eq_some.mp hs
    cases he
    exact hquiet (h.of_same (fun _ => rfl) rfl rfl rfl rfl rfl rfl) rfl
  | unrefArray a =>
    obtain ⟨_, he⟩ := Option.ite_none_right_eq_some.mp hs
    cases he
    refine hquiet (h.of_same (fun b => ?_) ?_ rfl rfl rfl rfl rfl) rfl
    · exact RefArrays.read_objects_unrefArray b
    · exact RefArrays.length_objects_unrefArray
  | dispose =>
    obtain ⟨_, he⟩ := Option.ite_none_right_eq_some.mp hs
    cases he
    cases hthere

theorem step_disposed {call : CategoryCall} (h : c.disposed = true) (hs : c.step call = some c') :
    c'.disposed = true := by
  by_cases hcall : call = .dispose
  · subst hcall
    obtain ⟨⟨_, hthere⟩, _⟩ := Option.ite_none_right_eq_some.mp hs
    cases h.symm.trans hthere
  · exact (step_follows hs hcall).disposed.trans h

/-- Run lemma. -/
theorem Mirrors.run {calls : List CategoryCall} (h : Mirrors c d)
    (hrun : Runs.run CoreCategories.step c calls = some c') (hthere : c'.disposed = false)
    (hroom : c'.objects.heap.length < 2 ^ 32) :
    ∃ d', Runs.run DBusLogCore.step d (calls.filterMap CategoryCall.coreOp?) = some d' ∧
      Mirrors c' d' := by
  induction calls generalizing c d with
  | nil =>
    cases hrun
    exact ⟨d, rfl, h⟩
  | cons call calls ih =>
    obtain ⟨s, hs, hrun⟩ := Runs.run_cons_iff.mp hrun
    have hs_there : s.disposed = false := by
      refine Bool.eq_false_of_not_eq_true fun hgone => ?_
      have hend := Runs.invariant_of_forall (C := fun _ => True)
        (P := fun s : CoreCategories => s.disposed = true)
        (fun _ _ _ h _ hs => step_disposed h hs) (fun _ _ => trivial) hrun hgone
      cases hthere.symm.trans hend
    -- the categories of the run so far are among all of them
    have hlength := Runs.invariant_of_forall (C := fun _ => True)
      (P := fun t : CoreCategories => s.objects.heap.length ≤ t.objects.heap.length)
      (fun _ _ _ h _ hs => h.trans (step_length hs)) (fun _ _ => trivial) hrun (Nat.le_refl _)
    obtain ⟨d₁, hd₁, h₁⟩ := h.step hs hs_there (hlength.trans_lt hroom)
    obtain ⟨d', hd', h'⟩ := ih h₁ hrun
    refine ⟨d', ?_, h'⟩
    rw [List.filterMap_cons]
    cases hop : call.coreOp? with
    | none =>
      rw [hop] at hd₁
      cases hd₁
      exact hd'
    | some op =>
      rw [hop] at hd₁
      obtain ⟨t, ht, hdone⟩ := Runs.run_cons_iff.mp hd₁
      cases hdone
      exact Runs.run_cons_iff.mpr ⟨d₁, ht, hd'⟩

end Reentrancy

/-- Calls take effect when they are made. In every run of a core whose handlers call it again,
nested in any way, and in which fewer than 2 ^ 32 categories are made: the category table is the one
that the calls would make one after another, in the order in which they have been made; and about
each category the core has said, with what loops have still to report, exactly what it would have
said then, in this order. -/
theorem callsTakeEffectAtOnce (backlog : Int32) (removedHandlers : Bool)
    (calls : List CategoryCall) (c : CoreCategories)
    (hrun : Runs.run step (new removedHandlers) calls = some c) (hthere : c.disposed = false)
    (hroom : c.objects.heap.length < 2 ^ 32) :
    ∃ d, Runs.run DBusLogCore.step (.new backlog removedHandlers)
        (calls.filterMap CategoryCall.coreOp?) = some d ∧
      (∀ name, c.findCategory name = d.categories.lookup name) ∧
      (∀ id, CoreSignal.saidAbout id (c.signals ++ c.owedSignals) =
        CoreSignal.saidAbout id d.signals) ∧
      (c.frames = [] → ∀ id, CoreSignal.saidAbout id c.signals =
        CoreSignal.saidAbout id d.signals) := by
  obtain ⟨d, hd, h⟩ := (new_mirrors backlog removedHandlers).run hrun hthere hroom
  refine ⟨d, hd, h.table, h.said, fun hframes id => ?_⟩
  have hnone : c.owedSignals = [] := by simp [owedSignals, owed, hframes]
  have hsaid := h.said id
  rw [hnone, List.append_nil] at hsaid
  exact hsaid

/-- A handler for the first of two removed categories adds a third one. -/
def addedBetween : List CategoryCall :=
  [.newCategory "net" 0 1, .handlersReturn, .newCategory "usb" 0 0, .handlersReturn,
    .removeAllCategories, .newCategory "net" 6 0, .setCategoryEnabled "net" true, .handlersReturn,
    .handlersReturn, .handlersReturn, .handlersReturn]

theorem callsTakeEffectAtOnce_addedBetween : ∃ c d,
    Runs.run step (new true) addedBetween = some c ∧
    Runs.run DBusLogCore.step (.new 100 true) (addedBetween.filterMap CategoryCall.coreOp?) =
      some d ∧
    c.signals ≠ d.signals ∧
    (∀ id, CoreSignal.saidAbout id c.signals = CoreSignal.saidAbout id d.signals) ∧
    c.findCategory "net" = d.categories.lookup "net" := by
  obtain ⟨c, hc, he⟩ := Option.map_eq_some_iff.mp (by decide +kernel :
    (Runs.run step (new true) addedBetween).map (fun c =>
      (c.frames, c.disposed, c.objects.heap.length, c.signals.map CoreSignal.about)) =
        some ([], false, 3, [some 1, some 2, some 1, some 3, some 3, some 2]))
  obtain ⟨hframes, hrest⟩ := Prod.mk.inj he
  obtain ⟨hthere, hrest⟩ := Prod.mk.inj hrest
  obtain ⟨hmade, hc_about⟩ := Prod.mk.inj hrest
  obtain ⟨d, hd, htable, _, hsaid⟩ := callsTakeEffectAtOnce 100 true addedBetween c hc hthere
    (by rw [hmade]; decide)
  obtain ⟨d', hd', hd_about⟩ := Option.map_eq_some_iff.mp (by decide +kernel :
    (Runs.run DBusLogCore.step (.new 100 true)
      (addedBetween.filterMap CategoryCall.coreOp?)).map (fun d =>
        d.signals.map CoreSignal.about) =
        some [some 1, some 2, some 1, some 2, some 3, some 3])
  cases hd.symm.trans hd'
  refine ⟨c, d, hc, hd, fun hsame => ?_, hsaid hframes, htable "net"⟩
  rw [hsame, hd_about] at hc_about
  exact absurd hc_about (by decide)

end CoreCategories

end DBusLog

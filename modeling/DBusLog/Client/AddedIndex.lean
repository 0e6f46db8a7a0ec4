import DBusLog.Client.Containers
import DBusLog.Lib.Placement

/-!
# Where a new category is found

A new category is found by comparing the new array with the old one, place by place. With different
names the new array is the old one with the category put in where its name belongs, in whatever
order the hash table is gone through. The search finds that place; it stays within the old array
unless the place is at its end.
-/

namespace DBusLog

namespace DBusLogClient

/-- The search finds the place of a new pointer, and it reads beyond the end if nothing follows. -/
theorem findAdded_place {p : Nat} (xs : List Nat) {ys : List Nat} (hp : p ∉ ys) (i : Nat) :
    findAdded (xs ++ p :: ys) (xs ++ ys) i = (some (i + xs.length), ys.isEmpty) := by
  induction xs generalizing i with
  | nil =>
    cases ys with
    | nil => rfl
    | cons q ys =>
      have hne : p ≠ q := fun heq => hp (heq ▸ List.mem_cons_self)
      exact if_pos hne
  | cons x xs ih =>
    refine (if_neg (not_not.mpr rfl)).trans ((ih (i + 1)).trans ?_)
    rw [List.length_cons, show i + 1 + xs.length = i + (xs.length + 1) by omega]

/-- The places where a new category changes a client, with the answer of the search. -/
theorem categoryAddedIn_eq (order : HashOrder) (c : DBusLogClient) (name : String)
    (id flags : UInt32) :
    let cat := { DBusLogCategory.new name id with flags := flags.toUInt64 }
    let removed := (c.categoryRemove id).2
    let table := removed.table.insert (id, c.memory.length)
    let new := sortedIn order (c.memory ++ [cat]) table
    c.categoryAddedIn order name id flags = { removed with
      memory := c.memory ++ [cat]
      table := table
      categories := new
      emitted := removed.emitted ++
        [.categoryAdded c.memory.length (findAdded new removed.categories 0).1]
      overread := removed.overread || (findAdded new removed.categories 0).2 } := by
  unfold categoryAddedIn
  dsimp only
  rw [categoryRemove_memory (c.memory ++ [DBusLogCategory.new name id])]
  dsimp only
  rw [modify_last]
  rfl

/-- A removal reads no array beyond its end, and does not look at what has been read so far. -/
theorem categoryRemove_overread (c : DBusLogClient) (id : UInt32) (overread : Bool) :
    (categoryRemove { c with overread := overread } id).2 =
      { (c.categoryRemove id).2 with overread := overread } := by
  unfold categoryRemove
  rw [show category { c with overread := overread } id = c.category id from rfl]
  cases c.category id with
  | none => rfl
  | some p =>
    rw [show categoryIndex { c with overread := overread } (some p) = c.categoryIndex (some p)
      from rfl]
    cases c.categoryIndex (some p) with
    | none => rfl
    | some index => rfl

/-- The new category is reported at the place `k`. The search for it has stayed within the old
array, which is the one after the category with the same id has gone. -/
structure ReportedAt (order : HashOrder) (c : DBusLogClient) (name : String) (id flags : UInt32)
    (k : Nat) : Prop where
  inBounds : (categoryAddedIn order { c with overread := false } name id flags).overread = false
  reported : (c.categoryAddedIn order name id flags).emitted.getLast? =
    some (.categoryAdded c.memory.length (some k))
  placed : (c.categoryAddedIn order name id flags).categories[k]? = some c.memory.length
  object : (c.categoryAddedIn order name id flags).memory[c.memory.length]? =
    some { DBusLogCategory.new name id with flags := flags.toUInt64 }
  rest : (c.categoryAddedIn order name id flags).categories.eraseIdx k =
    (c.categoryRemove id).2.categories

section Added

variable {c : DBusLogClient} {name : String} {id : UInt32}

/-- The table without the category that has the id. -/
theorem mem_removed (h : Agreeing c) (hid : id ≠ 0) {e : UInt32 × Nat} :
    e ∈ (c.categoryRemove id).2.table.values ↔ e ∈ c.table.values ∧ e.1 ≠ id := by
  obtain ⟨hnone, he⟩ | ⟨p, index, _, he⟩ := h.categoryRemove_eq id
  · rw [he]
    refine (and_iff_left_of_imp fun hmem hkey => ?_).symm
    have hlookup := KeyedTable.lookup_of_mem hmem
    rw [hkey] at hlookup
    unfold category at hnone
    rw [if_pos hid, hlookup] at hnone
    cases hnone
  · rw [he]
    exact KeyedTable.mem_erase_iff _

/-- The new array has the new category and the old ones. -/
theorem sortedIn_added (h : Agreeing c) (hid : id ≠ 0) (order : HashOrder)
    (memory : List DBusLogCategory) (p : Nat) :
    (sortedIn order memory ((c.categoryRemove id).2.table.insert (id, p))).Perm
      (p :: (c.categoryRemove id).2.categories) := by
  obtain ⟨hremoved, _⟩ := h.categoryRemove id
  have hkept : ((c.categoryRemove id).2.table.erase id).values =
      (c.categoryRemove id).2.table.values :=
    List.filter_eq_self.mpr fun e he => decide_eq_true ((mem_removed h hid).mp he).2
  have harray : ((c.categoryRemove id).2.table.values.map Prod.snd).Perm
      (c.categoryRemove id).2.categories := by
    refine (List.perm_ext_iff_of_nodup hremoved.owned.pointers_nodup hremoved.distinct).mpr
      fun q => ?_
    rw [hremoved.shown, List.mem_map]
  refine (sortedIn_perm order memory _).trans ?_
  change (p :: ((c.categoryRemove id).2.table.erase id).values.map Prod.snd).Perm _
  rw [hkept]
  exact harray.cons p

/-- The new array, whatever the order of the hash table: the category stands where its name
belongs. -/
theorem categoryAddedIn_place (h : Agreeing c)
    (hdistinct : (c.categories.map (nameAt c.memory)).Nodup) (hid : id ≠ 0)
    (hname : name ∉ c.categories.map (nameAt c.memory)) (order : HashOrder) (flags : UInt32) :
    ∃ xs ys, (c.categoryRemove id).2.categories = xs ++ ys ∧
      (∀ x ∈ xs, nameAt c.memory x < name) ∧ (∀ y ∈ ys, name < nameAt c.memory y) ∧
      (c.categoryAddedIn order name id flags).categories = xs ++ c.memory.length :: ys := by
  obtain ⟨hremoved, _⟩ := h.categoryRemove id
  obtain ⟨hadded, _⟩ := h.categoryAddedIn order name id flags
  obtain ⟨hmemory, _⟩ := categoryRemove_frame h.toSound id
  have hsub : (c.categoryRemove id).2.categories.Sublist c.categories := by
    obtain ⟨_, he⟩ | ⟨p, index, _, he⟩ := h.categoryRemove_eq id
    · rw [he]
    · rw [he]
      exact List.erase_sublist
  have hsorted := hremoved.sorted
  rw [hmemory] at hsorted
  obtain ⟨xs, ys, hold, hxs, hys⟩ :=
    Placement.exists_place hsorted fun hmem => hname ((hsub.map _).subset hmem)
  refine ⟨xs, ys, hold, hxs, hys, ?_⟩
  -- in the larger memory the old categories have the names that they had
  have hnames : ∀ q ∈ xs ++ ys, nameAt (c.categoryAddedIn order name id flags).memory q =
      nameAt c.memory q := by
    intro q hq
    rw [← hold] at hq
    obtain ⟨e, he, rfl⟩ := (hremoved.shown q).mp hq
    have hlt := hremoved.owned.lt he
    rw [hmemory] at hlt
    rw [categoryAddedIn_eq]
    exact nameAt_append hlt _
  have hown : nameAt (c.categoryAddedIn order name id flags).memory c.memory.length = name := by
    rw [categoryAddedIn_eq]
    unfold nameAt
    rw [List.getElem?_concat_length]
    rfl
  have hperm : (c.categoryAddedIn order name id flags).categories.Perm
      (c.memory.length :: (xs ++ ys)) := by
    rw [categoryAddedIn_eq, ← hold]
    exact sortedIn_added h hid order _ _
  refine Placement.sorted_eq_of_perm (f := nameAt (c.categoryAddedIn order name id flags).memory)
    hperm hadded.sorted ?_ ?_ (fun x hx => ?_) fun y hy => ?_
  · rw [hold] at hsorted
    refine hsorted.imp_of_mem fun {a b} ha hb hle => ?_
    rw [hnames a ha, hnames b hb]
    exact hle
  · rw [List.map_congr_left hnames, ← hold]
    exact (hsub.map _).nodup hdistinct
  · rw [hnames x (List.mem_append_left _ hx), hown]
    exact hxs x hx
  · rw [hnames y (List.mem_append_right _ hy), hown]
    exact hys y hy

/-- The categories whose names come after the new one are those of the second part. -/
theorem later_iff (h : Agreeing c) (hid : id ≠ 0) {xs ys : List Nat}
    (hold : (c.categoryRemove id).2.categories = xs ++ ys)
    (hxs : ∀ x ∈ xs, nameAt c.memory x < name) (hys : ∀ y ∈ ys, name < nameAt c.memory y) :
    (∃ e ∈ c.table.values, e.1 ≠ id ∧ name < nameAt c.memory e.2) ↔ ys ≠ [] := by
  obtain ⟨hremoved, _⟩ := h.categoryRemove id
  have hmem : ∀ q, q ∈ xs ++ ys ↔ ∃ e ∈ c.table.values, e.1 ≠ id ∧ e.2 = q := by
    intro q
    rw [← hold, hremoved.shown]
    constructor
    · rintro ⟨e, he, hq⟩
      obtain ⟨he, hne⟩ := (mem_removed h hid).mp he
      exact ⟨e, he, hne, hq⟩
    · rintro ⟨e, he, hne, hq⟩
      exact ⟨e, (mem_removed h hid).mpr ⟨he, hne⟩, hq⟩
  constructor
  · rintro ⟨e, he, hne, hlt⟩ hnil
    have hx := (hmem e.2).mpr ⟨e, he, hne, rfl⟩
    rw [hnil, List.append_nil] at hx
    exact lt_asymm hlt (hxs e.2 hx)
  · intro hys'
    obtain ⟨y, hy⟩ := List.exists_mem_of_ne_nil ys hys'
    obtain ⟨e, he, hne, rfl⟩ := (hmem y).mp (List.mem_append_right xs hy)
    exact ⟨e, he, hne, hys e.2 hy⟩

/-- A new category is found and reported at its place in the new array, and the rest of that is the
old array, if and only if the new name is not the last one: some other category has a name that
sorts after it. `Agreeing` and the first hypothesis are the state of the client, `hname` says that
it does not know the name. -/
theorem addedIndex (h : Agreeing c) (hdistinct : (c.categories.map (nameAt c.memory)).Nodup)
    (hid : id ≠ 0) (hname : name ∉ c.categories.map (nameAt c.memory)) (order : HashOrder)
    (flags : UInt32) :
    (∃ k, ReportedAt order c name id flags k) ↔
      ∃ e ∈ c.table.values, e.1 ≠ id ∧ name < nameAt c.memory e.2 := by
  obtain ⟨xs, ys, hold, hxs, hys, hnew⟩ :=
    categoryAddedIn_place h hdistinct hid hname order flags
  obtain ⟨hremoved, _⟩ := h.categoryRemove id
  obtain ⟨hmemory, _⟩ := categoryRemove_frame h.toSound id
  have hlater := later_iff h hid hold hxs hys
  have hfresh : c.memory.length ∉ ys := by
    intro hy
    have hold' := List.mem_append_right xs hy
    rw [← hold] at hold'
    obtain ⟨e, he, hp⟩ := (hremoved.shown c.memory.length).mp hold'
    have hlt := hremoved.owned.lt he
    rw [hmemory, hp] at hlt
    exact lt_irrefl _ hlt
  have hfound := findAdded_place xs hfresh 0
  rw [Nat.zero_add, ← hnew, ← hold] at hfound
  have hbounds : (categoryAddedIn order { c with overread := false } name id flags).overread =
      ys.isEmpty := by
    rw [categoryAddedIn_eq] at hfound ⊢
    dsimp only
    rw [categoryRemove_overread]
    exact congrArg Prod.snd hfound
  rw [hlater]
  constructor
  · rintro ⟨k, hreported⟩ hnil
    have hread := hreported.inBounds
    rw [hbounds, hnil] at hread
    cases hread
  · intro hys'
    refine ⟨xs.length, ?_, ?_, ?_, ?_, ?_⟩
    · rw [hbounds]
      exact List.isEmpty_eq_false_iff.mpr hys'
    · rw [categoryAddedIn_eq] at hfound ⊢
      dsimp only
      rw [List.getLast?_concat]
      exact congrArg (fun found => some (ClientSignal.categoryAdded c.memory.length found))
        (congrArg Prod.fst hfound)
    · rw [hnew, List.getElem?_append_right le_rfl, Nat.sub_self]
      rfl
    · rw [categoryAddedIn_eq]
      exact List.getElem?_concat_length
    · rw [hnew, hold, List.eraseIdx_append_of_length_le le_rfl, Nat.sub_self]
      rfl

theorem addedIndex_beforeUsb :
    ∃ k, ReportedAt .asStored (categoryAddedIn .asStored .new "usb" 1 0) "net" 2 0 k :=
  (addedIndex ((ClientConnection.new_agreeing false).categoryAddedIn .asStored "usb" 1 0).1
    (by decide +kernel) (by decide) (by decide +kernel) .asStored 0).mpr
    ⟨(1, 0), by decide +kernel, by decide, by decide +kernel⟩

/-- The first category of all, and one whose name is the last one: the old array is read beyond its
end. -/
theorem addedIndex_last :
    (Agreeing .new ∧ ¬∃ k, ReportedAt .asStored .new "net" 1 0 k) ∧
      Agreeing (categoryAddedIn .asStored .new "net" 1 0) ∧
        ¬∃ k, ReportedAt .asStored (categoryAddedIn .asStored .new "net" 1 0) "usb" 2 0 k := by
  have hnew : Agreeing .new := ClientConnection.new_agreeing false
  refine ⟨⟨hnew, ?_⟩, (hnew.categoryAddedIn .asStored "net" 1 0).1, ?_⟩
  · rintro ⟨k, hreported⟩
    exact absurd hreported.inBounds (by decide +kernel)
  · rintro ⟨k, hreported⟩
    exact absurd hreported.inBounds (by decide +kernel)

end Added

end DBusLogClient

end DBusLog

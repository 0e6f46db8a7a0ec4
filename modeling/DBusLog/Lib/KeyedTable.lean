import Mathlib.Data.List.Nodup

/-!
# Finite tables of values that carry their own key

At most one value for each key, by construction. `insert` replaces the value that has the same
key, so an update in place is an insertion of the changed value. Nothing depends on the order of
`values`.
-/

/-- A table whose values are found by their `key`. -/
structure KeyedTable {κ α : Type*} (key : α → κ) where
  values : List α
  nodup : (values.map key).Nodup

namespace KeyedTable

variable {κ α : Type*} {key : α → κ}

instance [DecidableEq α] : DecidableEq (KeyedTable key) := fun s t =>
  decidable_of_iff (s.values = t.values) ⟨fun h => by cases s; cases t; cases h; rfl, congrArg _⟩

def empty : KeyedTable key := ⟨[], List.nodup_nil⟩

/-- Two values with one key are one value. -/
theorem eq_of_key_eq {t : KeyedTable key} {a b : α} (ha : a ∈ t.values) (hb : b ∈ t.values)
    (h : key a = key b) : a = b :=
  List.inj_on_of_nodup_map t.nodup ha hb h

variable [DecidableEq κ]

def lookup (t : KeyedTable key) (k : κ) : Option α := t.values.find? fun a => key a = k

/-- Remove the value with the key. -/
def erase (t : KeyedTable key) (k : κ) : KeyedTable key :=
  ⟨t.values.filter fun a => key a ≠ k, (List.filter_sublist.map key).nodup t.nodup⟩

/-- Add a value, in the place of the one that has its key. -/
def insert (t : KeyedTable key) (a : α) : KeyedTable key :=
  ⟨a :: (t.erase (key a)).values, by
    refine List.nodup_cons.mpr ⟨fun hmem => ?_, (t.erase (key a)).nodup⟩
    obtain ⟨b, hb, hkey⟩ := List.mem_map.mp hmem
    exact of_decide_eq_true (List.mem_filter.mp hb).2 hkey⟩

variable (t : KeyedTable key)

@[simp] theorem lookup_empty (k : κ) : (empty : KeyedTable key).lookup k = none := rfl

theorem lookup_eq_none_iff {k : κ} : t.lookup k = none ↔ ∀ a ∈ t.values, key a ≠ k := by
  simp [lookup]

variable {t}

theorem key_of_lookup {k : κ} {a : α} (h : t.lookup k = some a) : key a = k := by
  simpa using List.find?_some h

theorem mem_of_lookup {k : κ} {a : α} (h : t.lookup k = some a) : a ∈ t.values :=
  List.mem_of_find?_eq_some h

theorem lookup_of_mem {a : α} (h : a ∈ t.values) : t.lookup (key a) = some a := by
  cases hl : t.lookup (key a) with
  | none => exact absurd rfl ((lookup_eq_none_iff t).mp hl a h)
  | some b => rw [eq_of_key_eq (mem_of_lookup hl) h (key_of_lookup hl)]

theorem lookup_eq_some_iff {k : κ} {a : α} : t.lookup k = some a ↔ a ∈ t.values ∧ key a = k := by
  constructor
  · intro h
    exact ⟨mem_of_lookup h, key_of_lookup h⟩
  · rintro ⟨hmem, rfl⟩
    exact lookup_of_mem hmem

variable (t)

theorem mem_erase_iff {k : κ} {a : α} : a ∈ (t.erase k).values ↔ a ∈ t.values ∧ key a ≠ k := by
  simp [erase]

theorem mem_insert_iff {a b : α} :
    b ∈ (t.insert a).values ↔ b = a ∨ b ∈ t.values ∧ key b ≠ key a := by
  simp [insert, mem_erase_iff]

@[simp] theorem lookup_insert (a : α) : (t.insert a).lookup (key a) = some a :=
  lookup_of_mem (List.mem_cons_self)

@[simp] theorem lookup_erase (k : κ) : (t.erase k).lookup k = none :=
  (lookup_eq_none_iff _).mpr fun _ ha => ((mem_erase_iff t).mp ha).2

theorem lookup_erase_ne {k k' : κ} (h : k' ≠ k) : (t.erase k).lookup k' = t.lookup k' := by
  apply Option.ext
  intro a
  rw [lookup_eq_some_iff, lookup_eq_some_iff, mem_erase_iff]
  constructor
  · rintro ⟨⟨hmem, _⟩, hkey⟩
    exact ⟨hmem, hkey⟩
  · rintro ⟨hmem, rfl⟩
    exact ⟨⟨hmem, h⟩, rfl⟩

theorem lookup_insert_ne {a : α} {k : κ} (h : k ≠ key a) : (t.insert a).lookup k = t.lookup k := by
  rw [← lookup_erase_ne t h]
  exact List.find?_cons_of_neg (by simpa using Ne.symm h)

variable {t}

/-- The value under a key, and the values without it. -/
theorem perm_cons_erase {k : κ} {a : α} (h : t.lookup k = some a) :
    t.values.Perm (a :: (t.erase k).values) := by
  have hkey := key_of_lookup h
  have hnot : a ∉ (t.erase k).values := fun ha => ((mem_erase_iff t).mp ha).2 hkey
  refine (List.perm_ext_iff_of_nodup (t.nodup.of_map _)
    (List.nodup_cons.mpr ⟨hnot, (t.erase k).nodup.of_map _⟩)).mpr fun b => ?_
  rw [List.mem_cons, mem_erase_iff]
  constructor
  · intro hb
    by_cases hbk : key b = k
    · exact .inl (eq_of_key_eq hb (mem_of_lookup h) (hbk.trans hkey.symm))
    · exact .inr ⟨hb, hbk⟩
  · rintro (rfl | ⟨hb, _⟩)
    · exact mem_of_lookup h
    · exact hb

theorem values_erase_of_lookup {k : κ} (h : t.lookup k = none) : (t.erase k).values = t.values :=
  List.filter_eq_self.mpr fun a ha => decide_eq_true ((lookup_eq_none_iff t).mp h a ha)

end KeyedTable

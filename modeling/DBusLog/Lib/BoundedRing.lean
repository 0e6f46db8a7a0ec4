import Mathlib.Data.List.Basic

/-!
# A bounded first-in first-out ring

The oldest element is the head of `items`. A bound of `none` means that the ring is unlimited.
The bound is a field of the structure, so every ring that can be built respects it.
-/

/-- A queue that never holds more than `maxSize` elements. -/
structure BoundedRing (α : Type*) where
  items : List α
  maxSize : Option Nat
  bounded : ∀ n, maxSize = some n → items.length ≤ n
  deriving DecidableEq

namespace BoundedRing

variable {α : Type*}

@[ext] theorem ext {r s : BoundedRing α} (hi : r.items = s.items) (hm : r.maxSize = s.maxSize) :
    r = s := by
  cases r
  cases s
  simp only at hi hm
  subst hi hm
  rfl

def empty (maxSize : Option Nat) : BoundedRing α := ⟨[], maxSize, fun _ _ => Nat.zero_le _⟩

def size (r : BoundedRing α) : Nat := r.items.length

/-- There is room for `n` more elements. -/
def canPut (r : BoundedRing α) (n : Nat) : Bool :=
  match r.maxSize with
  | none => true
  | some m => decide (r.size + n ≤ m)

theorem canPut_one_iff (r : BoundedRing α) :
    r.canPut 1 = true ↔ ∀ n, r.maxSize = some n → r.items.length < n := by
  unfold canPut
  cases r.maxSize with
  | none => simp
  | some m =>
    simp only [size, Option.some.injEq, forall_eq']
    exact decide_eq_true_iff.trans Nat.succ_le_iff

/-- Append the newest element; `none` when the ring is full. -/
def put? (r : BoundedRing α) (a : α) : Option (BoundedRing α) :=
  if h : r.canPut 1 = true then
    some ⟨r.items ++ [a], r.maxSize, fun n hn => by
      have := (canPut_one_iff r).mp h n hn
      simp only [List.length_append, List.length_singleton]
      omega⟩
  else none

/-- Take the oldest element out. -/
def get (r : BoundedRing α) : Option α × BoundedRing α :=
  (r.items.head?, ⟨r.items.tail, r.maxSize, fun n hn => by
    have := r.bounded n hn
    simp only [List.length_tail]
    omega⟩)

/-- Remove the `n` newest elements. -/
def dropLast (r : BoundedRing α) (n : Nat) : BoundedRing α :=
  ⟨r.items.take (r.size - n), r.maxSize, fun m hm => by
    have := r.bounded m hm
    simp only [List.length_take]
    omega⟩

@[simp] theorem empty_items (m : Option Nat) : (empty m : BoundedRing α).items = [] := rfl

@[simp] theorem empty_maxSize (m : Option Nat) : (empty m : BoundedRing α).maxSize = m := rfl

@[simp] theorem get_fst (r : BoundedRing α) : r.get.1 = r.items.head? := rfl

@[simp] theorem get_snd_items (r : BoundedRing α) : r.get.2.items = r.items.tail := rfl

@[simp] theorem get_snd_maxSize (r : BoundedRing α) : r.get.2.maxSize = r.maxSize := rfl

@[simp] theorem dropLast_items (r : BoundedRing α) (n : Nat) :
    (r.dropLast n).items = r.items.take (r.items.length - n) := rfl

@[simp] theorem dropLast_maxSize (r : BoundedRing α) (n : Nat) :
    (r.dropLast n).maxSize = r.maxSize := rfl

theorem size_eq (r : BoundedRing α) : r.size = r.items.length := rfl

theorem put?_eq_some {r s : BoundedRing α} {a : α} (h : r.put? a = some s) :
    s.items = r.items ++ [a] ∧ s.maxSize = r.maxSize := by
  unfold put? at h
  split at h
  · cases h
    exact ⟨rfl, rfl⟩
  · cases h

/-- A put into a full ring leaves it alone. -/
theorem put?_getD_items (r : BoundedRing α) (a : α) :
    ((r.put? a).getD r).items = if r.canPut 1 = true then r.items ++ [a] else r.items := by
  unfold put?
  by_cases h : r.canPut 1 = true
  · rw [dif_pos h, if_pos h]
    rfl
  · rw [dif_neg h, if_neg h]
    rfl

/-- A ring that is full holds exactly its bound. -/
theorem size_eq_of_not_canPut {r : BoundedRing α} (h : r.canPut 1 ≠ true) :
    ∃ n, r.maxSize = some n ∧ r.items.length = n := by
  rw [ne_eq, canPut_one_iff] at h
  simp only [not_forall] at h
  obtain ⟨n, hn, hle⟩ := h
  exact ⟨n, hn, Nat.le_antisymm (r.bounded n hn) (Nat.le_of_not_lt hle)⟩

/-- Dropping elements of a full ring makes room if there is one to drop. -/
theorem canPut_dropLast_iff {r : BoundedRing α} (h : r.canPut 1 ≠ true) (k : Nat) :
    (r.dropLast k).canPut 1 = true ↔ 0 < k ∧ 0 < r.items.length := by
  obtain ⟨n, hn, hlen⟩ := size_eq_of_not_canPut h
  rw [canPut_one_iff]
  simp only [dropLast_maxSize, dropLast_items, List.length_take, hn, Option.some.injEq,
    forall_eq']
  omega

theorem dropLast_zero (r : BoundedRing α) : r.dropLast 0 = r :=
  ext (by simp) rfl

theorem put?_getD_maxSize (r : BoundedRing α) (a : α) :
    ((r.put? a).getD r).maxSize = r.maxSize := by
  cases h : r.put? a with
  | none => rfl
  | some s => exact (put?_eq_some h).2

/-! ## Rings of pointers -/

/-- `s` holds what the pointers in `r` point to. -/
structure PointsTo {β : Type*} (read : α → Option β) (r : BoundedRing α) (s : BoundedRing β) :
    Prop where
  items : r.items.map read = s.items.map some
  maxSize : r.maxSize = s.maxSize

section PointsTo

variable {β : Type*} {read : α → Option β} {r : BoundedRing α} {s : BoundedRing β}

theorem PointsTo.size_eq (h : PointsTo read r s) : r.size = s.size := by
  simpa [size] using congrArg List.length h.items

theorem PointsTo.canPut_eq (h : PointsTo read r s) (n : Nat) : r.canPut n = s.canPut n := by
  unfold canPut
  rw [h.maxSize, h.size_eq]

theorem PointsTo.dropLast (h : PointsTo read r s) (n : Nat) :
    PointsTo read (r.dropLast n) (s.dropLast n) where
  items := by
    have hsize : r.items.length = s.items.length := h.size_eq
    rw [dropLast_items, dropLast_items, List.map_take, List.map_take, h.items, hsize]
  maxSize := h.maxSize

theorem PointsTo.put (h : PointsTo read r s) {a : α} {b : β} (ha : read a = some b) :
    PointsTo read ((r.put? a).getD r) ((s.put? b).getD s) where
  items := by
    rw [put?_getD_items, put?_getD_items, h.canPut_eq]
    split
    · rw [List.map_append, List.map_append, h.items, List.map_singleton, List.map_singleton, ha]
    · exact h.items
  maxSize := by rw [put?_getD_maxSize, put?_getD_maxSize, h.maxSize]

theorem PointsTo.head (h : PointsTo read r s) : r.get.1.map read = s.get.1.map some := by
  rw [get_fst, get_fst, ← List.head?_map, ← List.head?_map, h.items]

theorem PointsTo.tail (h : PointsTo read r s) : PointsTo read r.get.2 s.get.2 where
  items := by rw [get_snd_items, get_snd_items, List.map_tail, List.map_tail, h.items]
  maxSize := h.maxSize

end PointsTo

end BoundedRing

import Mathlib.Data.List.Basic

/-!
# A pointer to the one element that has a property

Objects are numbered in the order in which they have been made. A pointer designates the objects
with the property `P` if it is set exactly when there is such an object, and then points to the
only one. The rules follow a list that gets new objects and updates; at the end they say how many
objects have the property.
-/

/-- `p` points to the one element of the list that has the property. -/
def Designates {α : Type*} (P : α → Prop) (l : List α) (p : Option Nat) : Prop :=
  ∀ i, p = some i ↔ ∃ a, l[i]? = some a ∧ P a

namespace Designates

variable {α : Type*} {P : α → Prop} {l added : List α} {p : Option Nat} {i : Nat} {a : α}
  {f : α → α}

theorem nil : Designates P [] none := by
  intro i
  simp

theorem none_of_mem (h : Designates P l none) (ha : a ∈ l) : ¬P a := by
  intro hp
  obtain ⟨i, hi⟩ := List.mem_iff_getElem?.mp ha
  cases (h i).mpr ⟨a, hi, hp⟩

theorem iff_of_getElem? (h : Designates P l p) (ha : l[i]? = some a) : P a ↔ p = some i := by
  rw [h i]
  constructor
  · intro hp
    exact ⟨a, ha, hp⟩
  · rintro ⟨b, hb, hp⟩
    cases ha.symm.trans hb
    exact hp

/-- New objects without the property. -/
theorem append_of_not (h : Designates P l p) (hadded : ∀ a ∈ added, ¬P a) :
    Designates P (l ++ added) p := by
  intro i
  rw [h i]
  by_cases hlt : i < l.length
  · rw [List.getElem?_append_left hlt]
  · rw [List.getElem?_append_right (Nat.le_of_not_lt hlt)]
    constructor
    · rintro ⟨a, ha, _⟩
      exact absurd (List.getElem?_eq_some_iff.mp ha).1 hlt
    · rintro ⟨a, ha, hp⟩
      exact absurd hp (hadded a (List.mem_of_getElem? ha))

/-- The first object with the property. -/
theorem append_single (h : Designates P l none) (ha : P a) :
    Designates P (l ++ [a]) (some l.length) := by
  intro i
  constructor
  · intro hi
    cases hi
    exact ⟨a, by simp, ha⟩
  · rintro ⟨b, hb, hp⟩
    by_cases hlt : i < l.length
    · rw [List.getElem?_append_left hlt] at hb
      exact absurd hp (h.none_of_mem (List.mem_of_getElem? hb))
    · have hle := (List.getElem?_eq_some_iff.mp hb).1
      simp only [List.length_append, List.length_singleton] at hle
      exact congrArg some (by omega)

/-- An update that leaves the property as it is. -/
theorem modify (h : Designates P l p) (hf : ∀ a, l[i]? = some a → (P (f a) ↔ P a)) :
    Designates P (l.modify i f) p := by
  intro j
  rw [h j, List.getElem?_modify]
  cases hj : l[j]? with
  | none => simp
  | some b =>
    by_cases hij : i = j
    · subst hij
      simp [hf b hj]
    · simp [hij]

/-- An update after which the object that the pointer designated has lost the property. -/
theorem modify_clear (h : Designates P l (some i)) (hf : ∀ a, ¬P (f a)) :
    Designates P (l.modify i f) none := by
  intro j
  constructor
  · intro hj
    cases hj
  · rintro ⟨b, hb, hp⟩
    rw [List.getElem?_modify] at hb
    obtain ⟨a, ha, rfl⟩ := Option.map_eq_some_iff.mp hb
    by_cases hij : i = j
    · rw [if_pos hij] at hp
      exact absurd hp (hf a)
    · rw [if_neg hij] at hp
      exact absurd (Option.some.inj ((h j).mpr ⟨a, ha, hp⟩)) hij

end Designates

/-! ## The number of objects -/

section Count

variable {α : Type*} {P : α → Prop} [DecidablePred P] {l : List α} {i : Nat} {a : α} {f : α → α}

theorem List.countP_modify_of_iff (hf : ∀ a, l[i]? = some a → (P (f a) ↔ P a)) :
    (l.modify i f).countP P = l.countP P := by
  induction l generalizing i with
  | nil => simp
  | cons b l ih =>
    cases i with
    | zero => simp [List.countP_cons, hf b rfl]
    | succ i =>
      rw [List.modify_succ_cons, List.countP_cons, List.countP_cons, ih fun a ha => hf a ha]

/-- One object loses the property. -/
theorem List.countP_modify_add_one (ha : l[i]? = some a) (hp : P a) (hf : ¬P (f a)) :
    (l.modify i f).countP P + 1 = l.countP P := by
  induction l generalizing i with
  | nil => cases ha
  | cons b l ih =>
    cases i with
    | zero =>
      cases ha
      simp [hp, hf]
    | succ i =>
      rw [List.modify_succ_cons, List.countP_cons, List.countP_cons]
      have hl := ih ha
      omega

/-- An update that leaves alone what is read of the objects. -/
theorem List.map_modify_of_eq {β : Type*} {g : α → β} (hf : ∀ a, g (f a) = g a) :
    (l.modify i f).map g = l.map g := by
  induction l generalizing i with
  | nil => simp
  | cons b l ih =>
    cases i with
    | zero => simp [hf]
    | succ i => rw [List.modify_succ_cons, List.map_cons, List.map_cons, ih]

end Count

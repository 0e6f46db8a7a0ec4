import Mathlib.Data.List.Count

/-!
# A heap of reference-counted objects

Objects are never moved; their handle is their place in the heap. `Counted`
relates the counts to the list of all holders, each holder listed as often as it owns a
reference. An object that somebody holds is alive.
-/

/-- An object and its reference count. A count of zero means that it has been freed. -/
structure RefCell (α : Type*) where
  value : α
  refCount : Nat
  deriving DecidableEq

/-- The objects by their handles. -/
abbrev RefHeap (α : Type*) := List (RefCell α)

namespace RefHeap

variable {α : Type*}

def read (h : RefHeap α) (a : Nat) : Option α := (h[a]?).map (·.value)

def alive (h : RefHeap α) (a : Nat) : Bool := (h[a]?).any fun c => 0 < c.refCount

/-- A new object, owned by whoever allocates it. Its handle is the length of the heap. -/
def alloc (h : RefHeap α) (v : α) : RefHeap α := h ++ [⟨v, 1⟩]

def ref (h : RefHeap α) (a : Nat) : RefHeap α :=
  h.modify a fun c => { c with refCount := c.refCount + 1 }

def unref (h : RefHeap α) (a : Nat) : RefHeap α :=
  h.modify a fun c => { c with refCount := c.refCount - 1 }

/-- Change the object itself. -/
def write (h : RefHeap α) (a : Nat) (f : α → α) : RefHeap α :=
  h.modify a fun c => { c with value := f c.value }

/-! ## Reading after an operation -/

variable {h : RefHeap α}

@[simp] theorem read_ref (a b : Nat) : read (ref h a) b = read h b := by
  unfold read ref
  rw [List.getElem?_modify]
  cases h[b]? with
  | none => rfl
  | some c => by_cases hab : a = b <;> simp [hab]

@[simp] theorem read_unref (a b : Nat) : read (unref h a) b = read h b := by
  unfold read unref
  rw [List.getElem?_modify]
  cases h[b]? with
  | none => rfl
  | some c => by_cases hab : a = b <;> simp [hab]

@[simp] theorem length_ref (a : Nat) : (ref h a).length = h.length := List.length_modify _ _ _

@[simp] theorem length_unref (a : Nat) : (unref h a).length = h.length := List.length_modify _ _ _

@[simp] theorem length_alloc (v : α) : (alloc h v).length = h.length + 1 := by simp [alloc]

theorem read_alloc_of_lt {a : Nat} (ha : a < h.length) (v : α) :
    read (alloc h v) a = read h a := by
  unfold read alloc
  rw [List.getElem?_append_left ha]

theorem read_alloc_of_some {a : Nat} {w : α} (ha : read h a = some w) (v : α) :
    read (alloc h v) a = some w := by
  obtain ⟨c, hc, _⟩ := Option.map_eq_some_iff.mp ha
  rw [read_alloc_of_lt (List.getElem?_eq_some_iff.mp hc).1]
  exact ha

@[simp] theorem read_alloc_self (v : α) : read (alloc h v) h.length = some v := by
  simp [read, alloc]

@[simp] theorem length_write (a : Nat) (f : α → α) : (write h a f).length = h.length :=
  List.length_modify _ _ _

theorem read_write (a b : Nat) (f : α → α) :
    read (write h a f) b = (read h b).map fun v => if a = b then f v else v := by
  unfold read write
  rw [List.getElem?_modify]
  cases h[b]? with
  | none => rfl
  | some c => by_cases hab : a = b <;> simp [hab]

/-! ## Counting the holders -/

/-- Every count is the number of references that the holders own. -/
structure Counted (h : RefHeap α) (holders : List Nat) : Prop where
  valid : ∀ a ∈ holders, a < h.length
  count : ∀ a c, h[a]? = some c → c.refCount = holders.count a

variable {holders : List Nat}

theorem Counted.alive (hc : Counted h holders) {a : Nat} (ha : a ∈ holders) : alive h a = true := by
  have hlt := hc.valid a ha
  have hcell : h[a]? = some h[a] := List.getElem?_eq_getElem hlt
  have hcount := hc.count a _ hcell
  have hpos := List.count_pos_iff.mpr ha
  unfold RefHeap.alive
  rw [hcell, Option.any_some, decide_eq_true_eq]
  omega

theorem Counted.alloc (hc : Counted h holders) (v : α) :
    Counted (alloc h v) (h.length :: holders) where
  valid a ha := by
    rw [length_alloc]
    rcases List.mem_cons.mp ha with rfl | ha
    · exact Nat.lt_succ_self _
    · exact Nat.lt_succ_of_lt (hc.valid a ha)
  count a c hcell := by
    unfold RefHeap.alloc at hcell
    by_cases hlt : a < h.length
    · rw [List.getElem?_append_left hlt] at hcell
      rw [List.count_cons_of_ne (Nat.ne_of_gt hlt), hc.count a c hcell]
    · rw [List.getElem?_append_right (Nat.le_of_not_lt hlt)] at hcell
      obtain ⟨hi, hval⟩ := List.getElem?_eq_some_iff.mp hcell
      -- the new cell, which nobody has held before
      have ha : a = h.length := by
        simp only [List.length_singleton] at hi
        omega
      have hnot : h.length ∉ holders := fun hmem => Nat.lt_irrefl _ (hc.valid _ hmem)
      subst ha
      simp only [Nat.sub_self, List.getElem_cons_zero] at hval
      rw [List.count_cons_self, List.count_eq_zero.mpr hnot, ← hval]

theorem Counted.ref (hc : Counted h holders) {a : Nat} (ha : a < h.length) :
    Counted (ref h a) (a :: holders) where
  valid b hb := by
    rw [length_ref]
    rcases List.mem_cons.mp hb with rfl | hb
    · exact ha
    · exact hc.valid b hb
  count b c hcell := by
    unfold RefHeap.ref at hcell
    rw [List.getElem?_modify] at hcell
    obtain ⟨d, hd, rfl⟩ := Option.map_eq_some_iff.mp hcell
    have hcount := hc.count b d hd
    by_cases hab : a = b
    · subst hab
      rw [List.count_cons_self, if_pos rfl, ← hcount]
    · rw [List.count_cons_of_ne hab, if_neg hab]
      exact hcount

theorem Counted.unref {a : Nat} (hc : Counted h (a :: holders)) : Counted (unref h a) holders where
  valid b hb := by
    rw [length_unref]
    exact hc.valid b (List.mem_cons_of_mem a hb)
  count b c hcell := by
    unfold RefHeap.unref at hcell
    rw [List.getElem?_modify] at hcell
    obtain ⟨d, hd, rfl⟩ := Option.map_eq_some_iff.mp hcell
    have hcount := hc.count b d hd
    by_cases hab : a = b
    · subst hab
      rw [List.count_cons_self] at hcount
      rw [if_pos rfl]
      simp only [hcount, Nat.add_sub_cancel]
    · rw [List.count_cons_of_ne hab] at hcount
      rw [if_neg hab]
      exact hcount

theorem Counted.write (hc : Counted h holders) (a : Nat) (f : α → α) :
    Counted (write h a f) holders where
  valid b hb := by
    rw [length_write]
    exact hc.valid b hb
  count b c hcell := by
    unfold RefHeap.write at hcell
    rw [List.getElem?_modify] at hcell
    obtain ⟨d, hd, rfl⟩ := Option.map_eq_some_iff.mp hcell
    have hcount := hc.count b d hd
    by_cases hab : a = b
    · rw [if_pos hab]
      exact hcount
    · rw [if_neg hab]
      exact hcount

/-- Only the number of references of each holder matters. -/
theorem Counted.perm (hc : Counted h holders) {holders' : List Nat} (hp : holders.Perm holders') :
    Counted h holders' where
  valid a ha := hc.valid a (hp.mem_iff.mpr ha)
  count a c hcell := (hc.count a c hcell).trans (hp.count_eq a)

end RefHeap

import DBusLog.Lib.RefMemory
import Mathlib.Data.List.Perm.Basic

/-!
# Reference-counted arrays of references

An array is an object of its own. It has a reference to each of its elements as long as it is alive,
and gives all of them up when its last reference goes.
-/

/-- Objects, and arrays that hold them. -/
structure RefArrays (α : Type*) where
  objects : RefMemory α
  arrays : RefMemory (List Nat)
  deriving DecidableEq

namespace RefArrays

variable {α : Type*}

def empty : RefArrays α := ⟨RefMemory.empty, RefMemory.empty⟩

/-- The references that the living arrays of a heap have. -/
def elements (h : RefHeap (List Nat)) : List Nat :=
  h.flatMap fun c => if c.refCount = 0 then [] else c.value

/-- A new array, owned by whoever makes it. -/
def newArray (m : RefArrays α) (items : List Nat) : RefArrays α :=
  ⟨m.objects.refAll items, m.arrays.alloc items⟩

def refArray (m : RefArrays α) (a : Nat) : RefArrays α := { m with arrays := m.arrays.ref a }

/-- One reference less; with the last one its elements are given up. -/
def unrefArray (m : RefArrays α) (a : Nat) : RefArrays α :=
  let arrays := m.arrays.unref a
  ⟨if arrays.alive a then m.objects else m.objects.unrefAll ((arrays.read a).getD []), arrays⟩

def unrefArrays (m : RefArrays α) (as : List Nat) : RefArrays α := as.foldl unrefArray m

/-- Nothing has been misused, neither an array nor an object. -/
def faulted (m : RefArrays α) : Bool := m.objects.faulted || m.arrays.faulted

variable {m : RefArrays α} {h : RefHeap (List Nat)} {a p : Nat} {items holders owners : List Nat}

/-! ## The elements -/

theorem elements_alloc (h : RefHeap (List Nat)) (items : List Nat) :
    elements (h.alloc items) = elements h ++ items := by
  simp [elements, RefHeap.alloc]

@[simp] theorem elements_cons (c : RefCell (List Nat)) (h : RefHeap (List Nat)) :
    elements (c :: h) = (if c.refCount = 0 then [] else c.value) ++ elements h :=
  List.flatMap_cons

theorem elements_ref (halive : RefHeap.alive h a = true) :
    elements (RefHeap.ref h a) = elements h := by
  induction h generalizing a with
  | nil => cases halive
  | cons c h ih =>
    cases a with
    | zero =>
      have hpos : c.refCount ≠ 0 := by simpa [RefHeap.alive, Nat.pos_iff_ne_zero] using halive
      show elements ({ c with refCount := c.refCount + 1 } :: h) = elements (c :: h)
      simp [hpos]
    | succ a =>
      show elements (c :: RefHeap.ref h a) = elements (c :: h)
      rw [elements_cons, elements_cons, ih halive]

/-- Either the array stays alive, or it gives up its elements. -/
theorem elements_unref (halive : RefHeap.alive h a = true) :
    (elements h).Perm ((if RefHeap.alive (RefHeap.unref h a) a then []
      else (RefHeap.read (RefHeap.unref h a) a).getD []) ++ elements (RefHeap.unref h a)) := by
  induction h generalizing a with
  | nil => cases halive
  | cons c h ih =>
    cases a with
    | zero =>
      have hpos : c.refCount ≠ 0 := by simpa [RefHeap.alive, Nat.pos_iff_ne_zero] using halive
      show (elements (c :: h)).Perm ((if decide (0 < c.refCount - 1) = true then [] else c.value) ++
        elements ({ c with refCount := c.refCount - 1 } :: h))
      by_cases hlast : c.refCount - 1 = 0
      · simp [hpos, hlast]
      · simp [hpos, hlast, Nat.pos_of_ne_zero hlast]
    | succ a =>
      have hrest := ih halive
      show (elements (c :: h)).Perm ((if RefHeap.alive (RefHeap.unref h a) a then []
        else (RefHeap.read (RefHeap.unref h a) a).getD []) ++ elements (c :: RefHeap.unref h a))
      rw [elements_cons, elements_cons]
      refine (hrest.append_left _).trans ?_
      rw [← List.append_assoc, ← List.append_assoc]
      exact List.perm_append_comm.append_right _

theorem mem_elements (halive : RefHeap.alive h a = true) (hread : RefHeap.read h a = some items)
    (hp : p ∈ items) : p ∈ elements h := by
  cases hcell : h[a]? with
  | none => simp [RefHeap.alive, hcell] at halive
  | some c =>
    have hpos : c.refCount ≠ 0 := by
      simpa [RefHeap.alive, hcell, Nat.pos_iff_ne_zero] using halive
    have hvalue : c.value = items := by simpa [RefHeap.read, hcell] using hread
    refine List.mem_flatMap.mpr ⟨c, List.mem_of_getElem? hcell, ?_⟩
    rw [if_neg hpos, hvalue]
    exact hp

@[simp] theorem read_unrefArray (b : Nat) :
    (m.unrefArray a).arrays.read b = m.arrays.read b := RefMemory.read_unref b

@[simp] theorem read_unrefArrays (as : List Nat) (b : Nat) :
    (m.unrefArrays as).arrays.read b = m.arrays.read b := by
  unfold unrefArrays
  induction as generalizing m with
  | nil => rfl
  | cons a as ih => exact (ih (m := m.unrefArray a)).trans (read_unrefArray b)

@[simp] theorem read_objects_unrefArray (b : Nat) :
    (m.unrefArray a).objects.read b = m.objects.read b := by
  unfold unrefArray
  dsimp only
  split
  · rfl
  · exact RefMemory.read_unrefAll _ b

@[simp] theorem length_objects_unrefArray :
    (m.unrefArray a).objects.heap.length = m.objects.heap.length := by
  unfold unrefArray
  dsimp only
  split
  · rfl
  · exact RefMemory.length_unrefAll _

@[simp] theorem read_objects_unrefArrays (as : List Nat) (b : Nat) :
    (m.unrefArrays as).objects.read b = m.objects.read b := by
  unfold unrefArrays
  induction as generalizing m with
  | nil => rfl
  | cons a as ih => exact (ih (m := m.unrefArray a)).trans (read_objects_unrefArray b)

@[simp] theorem length_objects_unrefArrays (as : List Nat) :
    (m.unrefArrays as).objects.heap.length = m.objects.heap.length := by
  unfold unrefArrays
  induction as generalizing m with
  | nil => rfl
  | cons a as ih => exact (ih (m := m.unrefArray a)).trans length_objects_unrefArray

/-! ## Misuse is never forgotten -/

theorem faulted_of {m' : RefArrays α} (h : m.faulted = true)
    (hobjects : m.objects.faulted = true → m'.objects.faulted = true)
    (harrays : m.arrays.faulted = true → m'.arrays.faulted = true) : m'.faulted = true :=
  Bool.or_eq_true_iff.mpr ((Bool.or_eq_true_iff.mp h).imp hobjects harrays)

theorem faulted_newArray (h : m.faulted = true) (items : List Nat) :
    (m.newArray items).faulted = true :=
  faulted_of h (fun h => RefMemory.faulted_refAll h items) id

theorem faulted_refArray (h : m.faulted = true) : (m.refArray a).faulted = true :=
  faulted_of h id RefMemory.faulted_ref

theorem faulted_unrefArray (h : m.faulted = true) : (m.unrefArray a).faulted = true := by
  refine faulted_of h (fun h => ?_) RefMemory.faulted_unref
  unfold unrefArray
  dsimp only
  split
  · exact h
  · exact RefMemory.faulted_unrefAll h _

theorem faulted_unrefArrays (h : m.faulted = true) (as : List Nat) :
    (m.unrefArrays as).faulted = true := by
  unfold unrefArrays
  induction as generalizing m with
  | nil => exact h
  | cons a as ih => exact ih (faulted_unrefArray h)

/-! ## Ownership -/

/-- The objects belong to the living arrays and the other holders, the arrays to their owners. -/
structure Owned (m : RefArrays α) (holders owners : List Nat) : Prop where
  objects : m.objects.Owned (elements m.arrays.heap ++ holders)
  arrays : m.arrays.Owned owners

theorem owned_empty : Owned (empty : RefArrays α) [] [] :=
  ⟨RefMemory.owned_empty, RefMemory.owned_empty⟩

/-- Arrays that nobody owns hold nothing. -/
theorem elements_eq_nil {arrays : RefMemory (List Nat)} (h : arrays.Owned []) :
    elements arrays.heap = [] := by
  refine List.flatMap_eq_nil_iff.mpr fun c hc => ?_
  obtain ⟨a, hcell⟩ := List.mem_iff_getElem?.mp hc
  exact if_pos (h.counted.count a c hcell)

theorem Owned.clean (h : Owned m holders owners) : m.faulted = false := by
  unfold faulted
  rw [h.objects.clean, h.arrays.clean]
  rfl

theorem Owned.perm {holders' owners' : List Nat} (h : Owned m holders owners)
    (hp : holders.Perm holders') (ho : owners.Perm owners') : Owned m holders' owners' :=
  ⟨h.objects.perm (hp.append_left _), h.arrays.perm ho⟩

/-- An element of an array that somebody owns is held. -/
theorem Owned.mem_elements (h : Owned m holders owners) (ha : a ∈ owners)
    (hread : m.arrays.read a = some items) (hp : p ∈ items) : p ∈ elements m.arrays.heap :=
  RefArrays.mem_elements (h.arrays.alive_iff.mpr ha) hread hp

/-! ### The objects -/

theorem Owned.alloc (h : Owned m holders owners) (v : α) :
    Owned { m with objects := m.objects.alloc v } (m.objects.heap.length :: holders) owners :=
  ⟨(h.objects.alloc v).perm List.perm_middle.symm, h.arrays⟩

theorem Owned.ref (h : Owned m holders owners) (hp : p ∈ elements m.arrays.heap ++ holders) :
    Owned { m with objects := m.objects.ref p } (p :: holders) owners :=
  ⟨(h.objects.ref hp).perm List.perm_middle.symm, h.arrays⟩

theorem Owned.unref (h : Owned m (p :: holders) owners) :
    Owned { m with objects := m.objects.unref p } holders owners :=
  ⟨(h.objects.perm List.perm_middle).unref, h.arrays⟩

theorem Owned.unrefAll {ps : List Nat} (h : Owned m (ps ++ holders) owners) :
    Owned { m with objects := m.objects.unrefAll ps } holders owners := by
  refine ⟨RefMemory.Owned.unrefAll (h.objects.perm ?_), h.arrays⟩
  rw [← List.append_assoc, ← List.append_assoc]
  exact List.perm_append_comm.append_right _

theorem Owned.write (h : Owned m holders owners) (hp : p ∈ elements m.arrays.heap ++ holders)
    (f : α → α) : Owned { m with objects := m.objects.write p f } holders owners :=
  ⟨h.objects.write hp f, h.arrays⟩

/-! ### The arrays -/

theorem Owned.newArray (h : Owned m holders owners)
    (hitems : ∀ q ∈ items, q ∈ elements m.arrays.heap ++ holders) :
    Owned (m.newArray items) holders (m.arrays.heap.length :: owners) where
  objects := by
    show (m.objects.refAll items).Owned (elements (m.arrays.heap.alloc items) ++ holders)
    rw [elements_alloc]
    refine (h.objects.refAll hitems).perm ?_
    rw [← List.append_assoc]
    exact List.perm_append_comm.append_right _
  arrays := h.arrays.alloc items

theorem Owned.refArray (h : Owned m holders owners) (ha : a ∈ owners) :
    Owned (m.refArray a) holders (a :: owners) where
  objects := by
    show m.objects.Owned (elements (m.arrays.heap.ref a) ++ holders)
    rw [elements_ref (h.arrays.alive_iff.mpr ha)]
    exact h.objects
  arrays := h.arrays.ref ha

theorem Owned.unrefArray (h : Owned m holders (a :: owners)) :
    Owned (m.unrefArray a) holders owners where
  objects := by
    have hsplit := elements_unref (h.arrays.alive_iff.mpr List.mem_cons_self)
    show (if (m.arrays.unref a).alive a then m.objects
      else m.objects.unrefAll (((m.arrays.unref a).read a).getD [])).Owned
        (elements (m.arrays.heap.unref a) ++ holders)
    by_cases halive : (m.arrays.heap.unref a).alive a = true
    · rw [if_pos halive] at hsplit
      rw [if_pos (show (m.arrays.unref a).alive a = true from halive)]
      exact h.objects.perm (hsplit.append_right _)
    · rw [if_neg halive] at hsplit
      rw [if_neg (show ¬(m.arrays.unref a).alive a = true from halive)]
      apply RefMemory.Owned.unrefAll
      rw [← List.append_assoc]
      exact h.objects.perm (hsplit.append_right _)
  arrays := h.arrays.unref

theorem Owned.unrefArrays {as : List Nat} (h : Owned m holders (as ++ owners)) :
    Owned (m.unrefArrays as) holders owners := by
  induction as generalizing m with
  | nil => exact h
  | cons a as ih => exact ih h.unrefArray

end RefArrays

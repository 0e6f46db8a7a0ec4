import DBusLog.Lib.RefHeap

/-!
# A reference-counted memory that notices misuse

Every operation first looks whether the object is still alive. An operation on an object that
has been freed, and the dereference of NULL, set `faulted`, which is never cleared. The rules say
that whoever only touches what the holders own never faults.
-/

/-- A heap, and whether it has been misused. -/
structure RefMemory (α : Type*) where
  heap : RefHeap α
  faulted : Bool
  deriving DecidableEq

namespace RefMemory

variable {α : Type*}

def empty : RefMemory α := ⟨[], false⟩

/-- Look at an object. -/
def use (m : RefMemory α) (a : Nat) : RefMemory α :=
  { m with faulted := m.faulted || !m.heap.alive a }

/-- Look at the object of a pointer. -/
def deref (m : RefMemory α) : Option Nat → RefMemory α
  | none => { m with faulted := true }
  | some a => m.use a

def alloc (m : RefMemory α) (v : α) : RefMemory α := { m with heap := m.heap.alloc v }

def ref (m : RefMemory α) (a : Nat) : RefMemory α :=
  { m.use a with heap := m.heap.ref a }

def unref (m : RefMemory α) (a : Nat) : RefMemory α :=
  { m.use a with heap := m.heap.unref a }

/-- Change an object. -/
def write (m : RefMemory α) (a : Nat) (f : α → α) : RefMemory α :=
  { m.use a with heap := m.heap.write a f }

/-- One reference to each of the objects is given up. -/
def unrefAll (m : RefMemory α) (as : List Nat) : RefMemory α := as.foldl unref m

/-- One more reference to each of the objects. -/
def refAll (m : RefMemory α) (as : List Nat) : RefMemory α := as.foldl ref m

def useAll (m : RefMemory α) (as : List Nat) : RefMemory α := as.foldl use m

def read (m : RefMemory α) (a : Nat) : Option α := m.heap.read a

def alive (m : RefMemory α) (a : Nat) : Bool := m.heap.alive a

variable {m : RefMemory α} {a : Nat} {holders : List Nat}

/-! ## Reading after an operation -/

@[simp] theorem read_use (b : Nat) : (m.use a).read b = m.read b := rfl

@[simp] theorem read_ref (b : Nat) : (m.ref a).read b = m.read b := RefHeap.read_ref a b

@[simp] theorem read_unref (b : Nat) : (m.unref a).read b = m.read b := RefHeap.read_unref a b

theorem read_write (b : Nat) (f : α → α) :
    (m.write a f).read b = (m.read b).map fun v => if a = b then f v else v :=
  RefHeap.read_write a b f

@[simp] theorem read_unrefAll (as : List Nat) (b : Nat) : (m.unrefAll as).read b = m.read b := by
  unfold unrefAll
  induction as generalizing m with
  | nil => rfl
  | cons a as ih =>
    show (as.foldl unref (m.unref a)).read b = m.read b
    rw [ih, read_unref]

@[simp] theorem read_refAll (as : List Nat) (b : Nat) : (m.refAll as).read b = m.read b := by
  unfold refAll
  induction as generalizing m with
  | nil => rfl
  | cons a as ih => exact (ih (m := m.ref a)).trans (read_ref b)

@[simp] theorem read_useAll (as : List Nat) (b : Nat) : (m.useAll as).read b = m.read b := by
  unfold useAll
  induction as generalizing m with
  | nil => rfl
  | cons a as ih => exact ih (m := m.use a)

@[simp] theorem read_deref (p : Option Nat) (b : Nat) : (m.deref p).read b = m.read b := by
  cases p with
  | none => rfl
  | some a => rfl

theorem read_alloc_self (v : α) : (m.alloc v).read m.heap.length = some v :=
  RefHeap.read_alloc_self v

/-! ## The number of objects -/

@[simp] theorem length_use : (m.use a).heap.length = m.heap.length := rfl

@[simp] theorem length_ref : (m.ref a).heap.length = m.heap.length := RefHeap.length_ref a

@[simp] theorem length_unref : (m.unref a).heap.length = m.heap.length := RefHeap.length_unref a

@[simp] theorem length_write (f : α → α) : (m.write a f).heap.length = m.heap.length :=
  RefHeap.length_write a f

@[simp] theorem length_alloc (v : α) : (m.alloc v).heap.length = m.heap.length + 1 :=
  RefHeap.length_alloc v

@[simp] theorem length_unrefAll (as : List Nat) :
    (m.unrefAll as).heap.length = m.heap.length := by
  unfold unrefAll
  induction as generalizing m with
  | nil => rfl
  | cons a as ih => exact (ih (m := m.unref a)).trans length_unref

@[simp] theorem length_refAll (as : List Nat) : (m.refAll as).heap.length = m.heap.length := by
  unfold refAll
  induction as generalizing m with
  | nil => rfl
  | cons a as ih => exact (ih (m := m.ref a)).trans length_ref

@[simp] theorem length_useAll (as : List Nat) : (m.useAll as).heap.length = m.heap.length := by
  unfold useAll
  induction as generalizing m with
  | nil => rfl
  | cons a as ih => exact ih (m := m.use a)

/-! ## Misuse is never forgotten -/

theorem faulted_use (h : m.faulted = true) : (m.use a).faulted = true := by
  simp [use, h]

theorem faulted_ref (h : m.faulted = true) : (m.ref a).faulted = true := faulted_use h

theorem faulted_unref (h : m.faulted = true) : (m.unref a).faulted = true := faulted_use h

theorem faulted_write (h : m.faulted = true) (f : α → α) : (m.write a f).faulted = true :=
  faulted_use h

theorem faulted_unrefAll (h : m.faulted = true) (as : List Nat) :
    (m.unrefAll as).faulted = true := by
  unfold unrefAll
  induction as generalizing m with
  | nil => exact h
  | cons a as ih => exact ih (faulted_unref h)

theorem faulted_refAll (h : m.faulted = true) (as : List Nat) : (m.refAll as).faulted = true := by
  unfold refAll
  induction as generalizing m with
  | nil => exact h
  | cons a as ih => exact ih (faulted_ref h)

theorem faulted_useAll (h : m.faulted = true) (as : List Nat) : (m.useAll as).faulted = true := by
  unfold useAll
  induction as generalizing m with
  | nil => exact h
  | cons a as ih => exact ih (faulted_use h)

/-- An object that is gone. -/
theorem faulted_use_of_dead (h : m.alive a = false) : (m.use a).faulted = true := by
  have hdead : m.heap.alive a = false := h
  unfold use
  rw [hdead]
  exact Bool.or_true _

theorem faulted_ref_of_dead (h : m.alive a = false) : (m.ref a).faulted = true :=
  faulted_use_of_dead h

/-! ## Ownership -/

/-- Nothing has been misused, and the counts are those of the references of the holders. -/
structure Owned (m : RefMemory α) (holders : List Nat) : Prop where
  clean : m.faulted = false
  counted : RefHeap.Counted m.heap holders

theorem owned_empty : Owned (empty : RefMemory α) [] where
  clean := rfl
  counted := ⟨by simp, by simp [empty]⟩

theorem Owned.perm {holders' : List Nat} (h : Owned m holders) (hp : holders.Perm holders') :
    Owned m holders' :=
  ⟨h.clean, h.counted.perm hp⟩

/-- An object is alive as long as somebody holds it. -/
theorem Owned.alive_iff (h : Owned m holders) : m.alive a = true ↔ a ∈ holders := by
  refine ⟨fun halive => ?_, fun ha => h.counted.alive ha⟩
  cases hc : m.heap[a]? with
  | none => simp [RefMemory.alive, RefHeap.alive, hc] at halive
  | some c =>
    have hpos : 0 < c.refCount := by simpa [RefMemory.alive, RefHeap.alive, hc] using halive
    rw [h.counted.count a c hc] at hpos
    exact List.count_pos_iff.mp hpos

/-- Whoever owns a reference may look at the object. -/
theorem Owned.use (h : Owned m holders) (ha : a ∈ holders) : m.use a = m := by
  have halive : m.heap.alive a = true := h.counted.alive ha
  simp [RefMemory.use, halive]

theorem Owned.alloc (h : Owned m holders) (v : α) :
    Owned (m.alloc v) (m.heap.length :: holders) :=
  ⟨h.clean, h.counted.alloc v⟩

theorem Owned.ref (h : Owned m holders) (ha : a ∈ holders) : Owned (m.ref a) (a :: holders) := by
  refine ⟨?_, h.counted.ref (h.counted.valid a ha)⟩
  show (m.use a).faulted = false
  rw [h.use ha]
  exact h.clean

theorem Owned.unref (h : Owned m (a :: holders)) : Owned (m.unref a) holders := by
  refine ⟨?_, h.counted.unref⟩
  show (m.use a).faulted = false
  rw [h.use List.mem_cons_self]
  exact h.clean

theorem Owned.write (h : Owned m holders) (ha : a ∈ holders) (f : α → α) :
    Owned (m.write a f) holders := by
  refine ⟨?_, h.counted.write a f⟩
  show (m.use a).faulted = false
  rw [h.use ha]
  exact h.clean

theorem Owned.unrefAll {as : List Nat} (h : Owned m (as ++ holders)) :
    Owned (m.unrefAll as) holders := by
  induction as generalizing m with
  | nil => exact h
  | cons a as ih => exact ih h.unref

/-- Whoever owns references may hand out more of them. -/
theorem Owned.refAll {as : List Nat} (h : Owned m holders) (has : ∀ a ∈ as, a ∈ holders) :
    Owned (m.refAll as) (as ++ holders) := by
  induction as generalizing m holders with
  | nil => exact h
  | cons a as ih =>
    obtain ⟨ha, has⟩ := List.forall_mem_cons.mp has
    have hmore := ih (h.ref ha) fun b hb => List.mem_cons_of_mem a (has b hb)
    exact hmore.perm List.perm_middle

theorem Owned.useAll {as : List Nat} (h : Owned m holders) (has : ∀ a ∈ as, a ∈ holders) :
    m.useAll as = m := by
  induction as with
  | nil => rfl
  | cons a as ih =>
    obtain ⟨ha, has⟩ := List.forall_mem_cons.mp has
    show (m.use a).useAll as = m
    rw [h.use ha]
    exact ih has

theorem Owned.read_isSome (h : Owned m holders) (ha : a ∈ holders) :
    (m.read a).isSome := by
  have hlt := h.counted.valid a ha
  simp [RefMemory.read, RefHeap.read, hlt]

/-- A new object is none of those that are held. -/
theorem Owned.read_alloc (h : Owned m holders) (ha : a ∈ holders) (v : α) :
    (m.alloc v).read a = m.read a :=
  RefHeap.read_alloc_of_lt (h.counted.valid a ha) v

end RefMemory

import DBusLog.Lib.RefMemory
import Mathlib.Data.List.Basic

/-!
# Accesses to an object while handlers run

A step of a program looks at a reference-counted object, takes references to it and gives them up.
In between it calls handlers of the owner of the object, which leave the owner with as many
references as they like, none included. While a signal is emitted there is one more reference, for
as long as its handlers run. The rules say that a step whose own references last never finds the
object gone, and what becomes of the counts.
-/

/-- What a step does with the object. -/
inductive RefAccess
  | use
  | ref
  | unref
  /-- A signal, whose handlers have a reference of their own. -/
  | emit
  /-- A callback of the owner -/
  | callback
  deriving DecidableEq

/-- The object of a memory that has only one, in the middle of a step. -/
structure AccessedObject where
  object : RefMemory Unit
  /-- The references of the owner. -/
  owners : Nat
  /-- How many the handlers of each emission and each callback to come will leave. Those that are
  not listed leave what there is. -/
  handlers : List Nat

namespace RefMemory

/-- There are so many references to the only object, and nothing has been misused. -/
def Counts (m : RefMemory Unit) (n : Nat) : Prop := m.Owned (List.replicate n 0)

variable {m : RefMemory Unit} {n : Nat}

theorem Counts.use (h : Counts m n) (hpos : 0 < n) : m.use 0 = m :=
  Owned.use h (List.mem_replicate.mpr ⟨Nat.pos_iff_ne_zero.mp hpos, rfl⟩)

theorem Counts.ref (h : Counts m n) (hpos : 0 < n) : Counts (m.ref 0) (n + 1) :=
  Owned.ref h (List.mem_replicate.mpr ⟨Nat.pos_iff_ne_zero.mp hpos, rfl⟩)

theorem Counts.unref (h : Counts m (n + 1)) : Counts (m.unref 0) n := Owned.unref h

theorem Counts.refAll (h : Counts m n) (hpos : 0 < n) (k : Nat) :
    Counts (m.refAll (List.replicate k 0)) (k + n) := by
  have hheld : ∀ a ∈ List.replicate k 0, a ∈ List.replicate n 0 := fun a ha => by
    rw [List.eq_of_mem_replicate ha]
    exact List.mem_replicate.mpr ⟨Nat.pos_iff_ne_zero.mp hpos, rfl⟩
  have hall := Owned.refAll h hheld
  rw [← List.replicate_add] at hall
  exact hall

theorem Counts.unrefAll {k : Nat} (h : Counts m (k + n)) :
    Counts (m.unrefAll (List.replicate k 0)) n := by
  unfold Counts at h
  rw [List.replicate_add] at h
  exact Owned.unrefAll h

theorem Counts.alive_iff (h : Counts m n) : m.alive 0 = true ↔ 0 < n := by
  rw [Owned.alive_iff h, List.mem_replicate, Nat.pos_iff_ne_zero, and_iff_left rfl]

theorem Counts.dead (h : Counts m 0) : m.alive 0 = false :=
  Bool.eq_false_iff.mpr fun halive => Nat.lt_irrefl 0 (h.alive_iff.mp halive)

end RefMemory

namespace AccessedObject

open RefMemory (Counts)

/-- The next handlers run. -/
def handle (s : AccessedObject) : AccessedObject :=
  match s.handlers with
  | [] => s
  | n :: rest =>
    let object := s.object.refAll (List.replicate (n - s.owners) 0)
    ⟨object.unrefAll (List.replicate (s.owners - n) 0), n, rest⟩

def access (s : AccessedObject) : RefAccess → AccessedObject
  | .use => { s with object := s.object.use 0 }
  | .ref => { s with object := s.object.ref 0 }
  | .unref => { s with object := s.object.unref 0 }
  | .emit =>
    let s := { s with object := s.object.ref 0 }.handle
    { s with object := s.object.unref 0 }
  | .callback => s.handle

def accesses (s : AccessedObject) (as : List RefAccess) : AccessedObject := as.foldl access s

/-- The owner has its references and others have `n` of them. -/
def Held (n : Nat) (s : AccessedObject) : Prop := Counts s.object (s.owners + n)

variable {s : AccessedObject} {n : Nat}

@[simp] theorem accesses_nil (s : AccessedObject) : s.accesses [] = s := rfl

@[simp] theorem accesses_cons (s : AccessedObject) (a : RefAccess) (as : List RefAccess) :
    s.accesses (a :: as) = (s.access a).accesses as := rfl

theorem accesses_append (s : AccessedObject) (as bs : List RefAccess) :
    s.accesses (as ++ bs) = (s.accesses as).accesses bs := List.foldl_append

/-! ## Who finds the object alive -/

theorem Held.use (h : Held n s) (hpos : 0 < s.owners + n) : s.access .use = s := by
  unfold access
  rw [Counts.use h hpos]

theorem Held.ref (h : Held n s) (hpos : 0 < s.owners + n) : Held (n + 1) (s.access .ref) :=
  Counts.ref h hpos

theorem Held.unref (h : Held (n + 1) s) : Held n (s.access .unref) := Counts.unref h

/-- Whatever the handlers do, somebody else has a reference meanwhile. -/
theorem Held.handle (h : Held (n + 1) s) : Held (n + 1) s.handle := by
  unfold AccessedObject.handle
  split
  · exact h
  · next k rest _ =>
    have hmore := Counts.refAll h (Nat.succ_pos _) (k - s.owners)
    refine Counts.unrefAll (k := s.owners - k) ?_
    have hsame : s.owners - k + (k + (n + 1)) = k - s.owners + (s.owners + (n + 1)) := by omega
    rw [hsame]
    exact hmore

theorem Held.emit (h : Held n s) (hpos : 0 < s.owners + n) : Held n (s.access .emit) :=
  Held.unref (Held.handle (Held.ref h hpos))

/-- As long as others have a reference, the object is there. -/
theorem Held.accesses {as : List RefAccess} (h : Held (n + 1) s) (has : .unref ∉ as) :
    Held (n + 1 + as.count .ref) (s.accesses as) := by
  induction as generalizing s n with
  | nil => exact h
  | cons a as ih =>
    have hfirst : .unref ≠ a := fun he => has (he ▸ List.mem_cons_self)
    have hrest : .unref ∉ as := fun hmem => has (List.mem_cons_of_mem a hmem)
    rw [accesses_cons, List.count_cons]
    cases a with
    | use =>
      rw [h.use (Nat.succ_pos _)]
      exact ih h hrest
    | ref =>
      have hmore := ih (h.ref (Nat.succ_pos _)) hrest
      have hsame : n + 1 + (as.count .ref + 1) = n + 1 + 1 + as.count .ref := by omega
      exact hsame ▸ hmore
    | unref => exact absurd rfl hfirst
    | emit => exact ih (h.emit (Nat.succ_pos _)) hrest
    | callback => exact ih h.handle hrest

/-! ## What has been misused -/

theorem handle_faulted (h : s.object.faulted = true) : s.handle.object.faulted = true := by
  unfold handle
  split
  · exact h
  · exact RefMemory.faulted_unrefAll (RefMemory.faulted_refAll h _) _

theorem access_faulted (h : s.object.faulted = true) (a : RefAccess) :
    (s.access a).object.faulted = true := by
  cases a with
  | use => exact RefMemory.faulted_use h
  | ref => exact RefMemory.faulted_ref h
  | unref => exact RefMemory.faulted_unref h
  | emit =>
    have hhandled := handle_faulted (s := { s with object := s.object.ref 0 })
      (RefMemory.faulted_ref h)
    exact RefMemory.faulted_unref hhandled
  | callback => exact handle_faulted h

theorem accesses_faulted (h : s.object.faulted = true) (as : List RefAccess) :
    (s.accesses as).object.faulted = true := by
  induction as generalizing s with
  | nil => exact h
  | cons a as ih => exact ih (access_faulted h a)

/-- Without a reference the object is gone. -/
theorem Held.faulted (h : Held n s) (hzero : s.owners + n = 0) (as : List RefAccess) :
    (s.accesses (.use :: as)).object.faulted = true := by
  unfold Held at h
  rw [hzero] at h
  exact accesses_faulted (s := s.access .use) (RefMemory.faulted_use_of_dead h.dead) as

/-! ## What the handlers leave -/

theorem owners_handle (s : AccessedObject) :
    s.handle.owners = s.handlers.headD s.owners := by
  unfold handle
  split <;> simp [*]

theorem owners_emit (s : AccessedObject) :
    (s.access .emit).owners = s.handlers.headD s.owners :=
  owners_handle { s with object := s.object.ref 0 }

end AccessedObject

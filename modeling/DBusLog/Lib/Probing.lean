import Mathlib.Data.List.Nodup
import Mathlib.Data.List.Perm.Subperm
import Mathlib.Logic.Function.Iterate

/-!
# Probing for a free key

A counter is moved on until it shows a key that is not busy. If the keys that it shows are all
different for long enough, one of them is free, since there are only so many busy ones.
-/

namespace Probing

variable {α : Type*} (busy : α → Prop) [DecidablePred busy] (next : α → α)

/-- The first key from `start` on that is not busy; at most `fuel` keys are looked at. -/
def probe : Nat → α → α
  | 0, start => start
  | fuel + 1, start => if busy start then probe fuel (next start) else start

variable {busy next}

/-- Enough fuel to get to some free key is enough fuel. -/
theorem not_busy_probe {fuel k : Nat} {start : α} (hk : k ≤ fuel)
    (hfree : ¬busy (next^[k] start)) : ¬busy (probe busy next fuel start) := by
  induction fuel generalizing k start with
  | zero =>
    cases Nat.le_zero.mp hk
    exact hfree
  | succ fuel ih =>
    unfold probe
    by_cases hstart : busy start
    · rw [if_pos hstart]
      cases k with
      | zero => exact absurd hstart hfree
      | succ k => exact ih (Nat.le_of_succ_le_succ hk) hfree
    · rw [if_neg hstart]
      exact hstart

/-- More different keys than there are in a list. -/
theorem exists_iterate_not_mem (next : α → α) (start : α) (keys : List α)
    (hdistinct : ∀ i j, i ≤ keys.length → j ≤ keys.length → next^[i] start = next^[j] start → i = j) :
    ∃ k ≤ keys.length, next^[k] start ∉ keys := by
  by_contra hnone
  have hall : ∀ k ≤ keys.length, next^[k] start ∈ keys := by
    intro k hk
    by_contra hout
    exact hnone ⟨k, hk, hout⟩
  have hshown : ((List.range (keys.length + 1)).map fun k => next^[k] start).Nodup := by
    refine List.Nodup.map_on (fun i hi j hj he => ?_) List.nodup_range
    rw [List.mem_range] at hi hj
    exact hdistinct i j (by omega) (by omega) he
  have hsub := hshown.subperm fun key hkey => by
    obtain ⟨k, hk, rfl⟩ := List.mem_map.mp hkey
    exact hall k (Nat.le_of_lt_succ (List.mem_range.mp hk))
  have hlength := hsub.length_le
  rw [List.length_map, List.length_range] at hlength
  omega

end Probing

import Mathlib.Data.List.Nodup
import Mathlib.Order.Lattice
import Mathlib.Order.Defs.LinearOrder

/-!
# The place of a new key

A list that is sorted by different keys has exactly one place for another key. A sorted list with
the elements of the first and one more is the first with the new one in that place.
-/

namespace Placement

variable {α κ : Type*} [LinearOrder κ] {f : α → κ} {old new xs ys : List α} {a : α}

/-- The place of a new key in a sorted list. -/
theorem exists_place {k : κ} (hsorted : old.Pairwise fun a b => f a ≤ f b)
    (hnew : k ∉ old.map f) :
    ∃ xs ys, old = xs ++ ys ∧ (∀ x ∈ xs, f x < k) ∧ ∀ y ∈ ys, k < f y := by
  induction old with
  | nil => exact ⟨[], [], rfl, fun _ hx => (nomatch hx), fun _ hy => (nomatch hy)⟩
  | cons a old ih =>
    obtain ⟨hfirst, hsorted⟩ := List.pairwise_cons.mp hsorted
    rw [List.map_cons, List.mem_cons, not_or] at hnew
    obtain hlt | hgt := lt_or_gt_of_ne hnew.1
    · refine ⟨[], a :: old, rfl, fun _ hx => (nomatch hx), fun y hy => ?_⟩
      obtain rfl | hy := List.mem_cons.mp hy
      · exact hlt
      · exact lt_of_lt_of_le hlt (hfirst y hy)
    · obtain ⟨xs, ys, rfl, hxs, hys⟩ := ih hsorted hnew.2
      refine ⟨a :: xs, ys, rfl, fun x hx => ?_, hys⟩
      obtain rfl | hx := List.mem_cons.mp hx
      · exact hgt
      · exact hxs x hx

/-- A sorted list with one element more than another has it in its place. -/
theorem sorted_eq_of_perm (hperm : new.Perm (a :: (xs ++ ys)))
    (hnew : new.Pairwise fun a b => f a ≤ f b) (hold : (xs ++ ys).Pairwise fun a b => f a ≤ f b)
    (hdistinct : ((xs ++ ys).map f).Nodup) (hxs : ∀ x ∈ xs, f x < f a)
    (hys : ∀ y ∈ ys, f a < f y) : new = xs ++ a :: ys := by
  have hplaced : new.Perm (xs ++ a :: ys) := hperm.trans List.perm_middle.symm
  obtain ⟨hx, hy, hxy⟩ := List.pairwise_append.mp hold
  have hsorted : (xs ++ a :: ys).Pairwise fun a b => f a ≤ f b := by
    refine List.pairwise_append.mpr ⟨hx, List.pairwise_cons.mpr ⟨fun y hy => (hys y hy).le, hy⟩, ?_⟩
    intro x hx y hy
    obtain rfl | hy := List.mem_cons.mp hy
    · exact (hxs x hx).le
    · exact hxy x hx y hy
  have hkeys : ((a :: (xs ++ ys)).map f).Nodup := by
    refine List.nodup_cons.mpr ⟨fun hmem => ?_, hdistinct⟩
    obtain ⟨b, hb, hkey⟩ := List.mem_map.mp hmem
    obtain hb | hb := List.mem_append.mp hb
    · exact absurd hkey (hxs b hb).ne
    · exact absurd hkey (hys b hb).ne'
  refine hplaced.eq_of_pairwise (fun b c hb hc hbc hcb => ?_) hnew hsorted
  exact List.inj_on_of_nodup_map hkeys (hperm.mem_iff.mp hb)
    (List.perm_middle.mem_iff.mp hc) (le_antisymm hbc hcb)

end Placement

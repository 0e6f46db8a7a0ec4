import Mathlib.Data.List.Basic

/-!
# Losses counted by gaps

Items are numbered from 0 in the order in which they are issued, and some of them are lost later.
`Positions n ps` says that `ps` are the numbers of those that are left of `n` items, when neither
the first nor the last item may be lost. Then what is left and what the gaps between neighbours
account for are all the items.
-/

namespace Gaps

/-- The numbers of what is left of `n` items, first and last included. -/
structure Positions (n : Nat) (ps : List Nat) : Prop where
  sorted : ps.Pairwise (· < ·)
  first : ps.head? = if n = 0 then none else some 0
  last : ps.getLast? = if n = 0 then none else some (n - 1)

/-- How many numbers lie between neighbours. -/
def missing : List Nat → Nat
  | [] => 0
  | [_] => 0
  | p :: q :: ps => (q - p - 1) + missing (q :: ps)

theorem positions_zero : Positions 0 [] := ⟨List.Pairwise.nil, rfl, rfl⟩

theorem Positions.ne_nil {n : Nat} {ps : List Nat} (h : Positions n ps) (hn : n ≠ 0) : ps ≠ [] := by
  rintro rfl
  have hfirst := h.first
  rw [if_neg hn] at hfirst
  cases hfirst

theorem Positions.lt {n : Nat} {ps : List Nat} (h : Positions n ps) {p : Nat} (hp : p ∈ ps) :
    p < n := by
  by_cases hn : n = 0
  · have hlast := h.last
    rw [if_pos hn, List.getLast?_eq_none_iff] at hlast
    rw [hlast] at hp
    cases hp
  · obtain ⟨init, last, rfl⟩ := (List.eq_nil_or_concat ps).resolve_left (h.ne_nil hn)
    rw [List.concat_eq_append] at h hp
    have hlast := h.last
    rw [if_neg hn, List.getLast?_concat, Option.some.injEq] at hlast
    rcases List.mem_append.mp hp with hp | hp
    · have hlt := (List.pairwise_append.mp h.sorted).2.2 p hp last List.mem_cons_self
      omega
    · rw [List.mem_singleton.mp hp]
      omega

/-- The next item is issued, after the newest ones have been lost, but not all of them. -/
theorem Positions.issue {n : Nat} {base gone : List Nat} (h : Positions n (base ++ gone))
    (hbase : n ≠ 0 → base ≠ []) : Positions (n + 1) (base ++ [n]) where
  sorted := by
    refine List.pairwise_append.mpr ⟨(List.pairwise_append.mp h.sorted).1,
      List.pairwise_singleton _ _, fun p hp q hq => ?_⟩
    rw [List.mem_singleton.mp hq]
    exact h.lt (List.mem_append_left _ hp)
  first := by
    rw [if_neg (Nat.succ_ne_zero n)]
    by_cases hn : n = 0
    · have hfirst := h.first
      rw [if_pos hn, List.head?_eq_none_iff, List.append_eq_nil_iff] at hfirst
      rw [hfirst.1, hn]
      rfl
    · have hfirst := h.first
      rw [if_neg hn] at hfirst
      obtain ⟨b, base, rfl⟩ := List.exists_cons_of_ne_nil (hbase hn)
      exact hfirst
  last := by
    rw [if_neg (Nat.succ_ne_zero n), List.getLast?_concat, Nat.add_sub_cancel]

/-- The numbers from the first to the last, either left or missing. -/
theorem length_add_missing {p : Nat} {ps : List Nat} (h : (p :: ps).Pairwise (· < ·)) {q : Nat}
    (hq : (p :: ps).getLast? = some q) : (p :: ps).length + missing (p :: ps) = q - p + 1 := by
  induction ps generalizing p with
  | nil =>
    cases hq
    simp [missing]
  | cons r ps ih =>
    obtain ⟨hp, hrest⟩ := List.pairwise_cons.mp h
    have hpr := hp r List.mem_cons_self
    have hlast : (r :: ps).getLast? = some q := by
      rw [← hq, List.getLast?_cons_cons]
    have hrq : r ≤ q := by
      rcases List.mem_cons.mp (List.mem_of_getLast? hlast) with rfl | hmem
      · exact Nat.le_refl _
      · exact Nat.le_of_lt ((List.pairwise_cons.mp hrest).1 q hmem)
    have hih := ih hrest hlast
    rw [List.length_cons, missing]
    omega

/-- What is left and what is missing are all. -/
theorem Positions.total {n : Nat} {ps : List Nat} (h : Positions n ps) :
    ps.length + missing ps = n := by
  by_cases hn : n = 0
  · have hfirst := h.first
    rw [if_pos hn, List.head?_eq_none_iff] at hfirst
    rw [hfirst, hn]
    rfl
  · obtain ⟨p, ps, rfl⟩ := List.exists_cons_of_ne_nil (h.ne_nil hn)
    have hfirst := h.first
    have hlast := h.last
    rw [if_neg hn] at hfirst hlast
    cases hfirst
    rw [length_add_missing h.sorted hlast]
    omega

end Gaps

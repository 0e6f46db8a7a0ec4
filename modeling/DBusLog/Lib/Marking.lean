import DBusLog.Lib.KeyedTable
import Mathlib.Data.List.Induction

/-!
# Bringing the values of a table into a state, key by key

A `Marking` is an idempotent change of the values of a keyed table that keeps their keys. `markEach`
applies it at every key of a list and logs the values that it has really changed. The keys may be
unknown, come in any order and more than once: the resulting table depends on which keys are in the
list and on nothing else, and so does the log, apart from its order.
-/

/-- A change of values that keeps the key and does nothing the second time. -/
structure Marking {κ α : Type*} (key : α → κ) where
  apply : α → α
  key_apply : ∀ a, key (apply a) = key a
  idem : ∀ a, apply (apply a) = apply a

namespace KeyedTable

variable {κ α : Type*} {key : α → κ} [DecidableEq κ]

/-- A lookup in a table with one more value. -/
theorem lookup_insert_eq (t : KeyedTable key) (a : α) (k : κ) :
    (t.insert a).lookup k = if k = key a then some a else t.lookup k := by
  by_cases hk : k = key a
  · rw [if_pos hk, hk, lookup_insert]
  · rw [if_neg hk, lookup_insert_ne t hk]

end KeyedTable

namespace Marking

variable {κ α : Type*} {key : α → κ} [DecidableEq κ]

/-- What has become of the table `t` when the values with the keys in `K` have been marked: `u` is
the table and `log` the list of the changed values. -/
structure Marked (m : Marking key) (t : KeyedTable key) (K : κ → Prop) [DecidablePred K]
    (u : KeyedTable key) (log : List α) : Prop where
  table : ∀ k, u.lookup k = (t.lookup k).map fun a => if K k then m.apply a else a
  once : (log.map key).Nodup
  logged : ∀ b, b ∈ log ↔ ∃ a ∈ t.values, K (key a) ∧ m.apply a ≠ a ∧ m.apply a = b

section Marked

variable {m : Marking key} {t u u' : KeyedTable key} {log log' : List α} {K K' : κ → Prop}
  [DecidablePred K] [DecidablePred K'] {k : κ} {a b : α}

theorem Marked.start (t : KeyedTable key) : m.Marked t (· ∈ ([] : List κ)) t [] where
  table k := by simp
  once := List.nodup_nil
  logged b := by simp

/-- Where the marking makes a difference, the value has not been marked before. -/
theorem Marked.unmarked (h : m.Marked t K u log) (ha : u.lookup k = some a)
    (hne : m.apply a ≠ a) : ¬K k ∧ t.lookup k = some a := by
  rw [h.table, Option.map_eq_some_iff] at ha
  obtain ⟨a₀, ha₀, he⟩ := ha
  by_cases hk : K k
  · rw [if_pos hk] at he
    rw [← he, m.idem] at hne
    exact absurd rfl hne
  · rw [if_neg hk] at he
    exact ⟨hk, he ▸ ha₀⟩

/-- Keys that are not in the table do not count, nor do those whose values are as they should be. -/
theorem Marked.congr (h : m.Marked t K u log)
    (hK : ∀ a ∈ t.values, m.apply a ≠ a → (K (key a) ↔ K' (key a))) : m.Marked t K' u log := by
  refine ⟨fun k => ?_, h.once, fun b => ?_⟩
  · rw [h.table]
    cases hl : t.lookup k with
    | none => rfl
    | some a =>
      rw [Option.map_some, Option.map_some]
      by_cases hsame : m.apply a = a
      · rw [hsame, ite_self, ite_self]
      · have hk := hK a (KeyedTable.mem_of_lookup hl) hsame
        rw [KeyedTable.key_of_lookup hl] at hk
        simp only [hk]
  · rw [h.logged]
    constructor
    · rintro ⟨a, hmem, hk, hne, he⟩
      exact ⟨a, hmem, (hK a hmem hne).mp hk, hne, he⟩
    · rintro ⟨a, hmem, hk, hne, he⟩
      exact ⟨a, hmem, (hK a hmem hne).mpr hk, hne, he⟩

/-- One more key, whose value is as it should be or which is unknown. -/
theorem Marked.skip (h : m.Marked t K u log) (hdone : ∀ a, u.lookup k = some a → m.apply a = a) :
    m.Marked t (fun k' => K k' ∨ k' = k) u log := by
  refine h.congr fun a hmem hne => ⟨Or.inl, ?_⟩
  rintro (hk | hk)
  · exact hk
  · by_contra hnot
    apply hne
    apply hdone
    rw [h.table, ← hk, KeyedTable.lookup_of_mem hmem, Option.map_some, if_neg hnot]

/-- One more key, whose value changes. -/
theorem Marked.add (h : m.Marked t K u log) (hu : u.lookup k = some a) (hne : m.apply a ≠ a) :
    m.Marked t (fun k' => K k' ∨ k' = k) (u.insert (m.apply a)) (log ++ [m.apply a]) := by
  obtain ⟨hk, ht⟩ := h.unmarked hu hne
  have hkey := KeyedTable.key_of_lookup hu
  refine ⟨fun k' => ?_, ?_, fun b => ?_⟩
  · rw [KeyedTable.lookup_insert_eq, m.key_apply, hkey]
    by_cases hkk : k' = k
    · subst hkk
      rw [if_pos rfl, ht, Option.map_some, if_pos (Or.inr rfl)]
    · rw [if_neg hkk, h.table]
      simp only [hkk, or_false]
  · rw [List.map_append, List.nodup_append]
    refine ⟨h.once, List.nodup_singleton _, ?_⟩
    -- the key of an earlier change is in `K`, and `k` is not
    intro k' hk' k'' hk'' he
    obtain ⟨b, hb, hkb⟩ := List.mem_map.mp hk'
    obtain ⟨b₀, _, hKb, _, hab⟩ := (h.logged b).mp hb
    rw [List.map_singleton, List.mem_singleton, m.key_apply, hkey] at hk''
    rw [← hab, m.key_apply] at hkb
    exact hk (hk'' ▸ he ▸ hkb ▸ hKb)
  · rw [List.mem_append, List.mem_singleton, h.logged]
    constructor
    · rintro (⟨b₀, hmem, hKb, hb, he⟩ | rfl)
      · exact ⟨b₀, hmem, .inl hKb, hb, he⟩
      · exact ⟨a, KeyedTable.mem_of_lookup ht, .inr hkey, hne, rfl⟩
    · rintro ⟨b₀, hmem, hKb | hKb, hb, he⟩
      · exact .inl ⟨b₀, hmem, hKb, hb, he⟩
      · have hl := KeyedTable.lookup_of_mem hmem
        rw [hKb] at hl
        cases ht.symm.trans hl
        exact .inr he.symm

/-- The marked values are the same, whichever list of keys they have been found with. -/
theorem Marked.lookup_eq (h : m.Marked t K u log) (h' : m.Marked t K u' log') (k : κ) :
    u.lookup k = u'.lookup k := by
  rw [h.table, h'.table]

/-- The logs differ at most in their order. -/
theorem Marked.perm (h : m.Marked t K u log) (h' : m.Marked t K u' log') : log.Perm log' := by
  refine (List.perm_ext_iff_of_nodup h.once.of_map h'.once.of_map).mpr fun b => ?_
  rw [h.logged, h'.logged]

/-- A changed value is in the table, as it is in the log. -/
theorem Marked.lookup_of_logged (h : m.Marked t K u log) (hb : b ∈ log) :
    u.lookup (key b) = some b := by
  obtain ⟨a, hmem, hk, _, rfl⟩ := (h.logged b).mp hb
  rw [h.table, m.key_apply, KeyedTable.lookup_of_mem hmem, Option.map_some, if_pos hk]

end Marked

/-! ## Marking with a list of keys -/

variable [DecidableEq α] (m : Marking key)

/-- The table and the log after the value with the key `k` has been marked. -/
def mark (s : KeyedTable key × List α) (k : κ) : KeyedTable key × List α :=
  match s.1.lookup k with
  | some a => if m.apply a = a then s else (s.1.insert (m.apply a), s.2 ++ [m.apply a])
  | none => s

theorem mark_cases (s : KeyedTable key × List α) (k : κ) :
    m.mark s k = s ∨ ∃ a, m.mark s k = (s.1.insert a, s.2 ++ [a]) := by
  unfold mark
  cases s.1.lookup k with
  | none => exact .inl rfl
  | some a =>
    dsimp only
    split
    · exact .inl rfl
    · exact .inr ⟨m.apply a, rfl⟩

/-- The values with the keys of the list are marked, one after another. -/
def markEach (t : KeyedTable key) (ks : List κ) : KeyedTable key × List α :=
  ks.foldl m.mark (t, [])

variable {m} {t u : KeyedTable key} {log : List α} {K : κ → Prop} [DecidablePred K]

theorem Marked.mark (h : m.Marked t K u log) (k : κ) :
    m.Marked t (fun k' => K k' ∨ k' = k) (m.mark (u, log) k).1 (m.mark (u, log) k).2 := by
  unfold Marking.mark
  dsimp only
  cases hu : u.lookup k with
  | none => exact h.skip fun a ha => nomatch hu.symm.trans ha
  | some a =>
    dsimp only
    by_cases hsame : m.apply a = a
    · rw [if_pos hsame]
      exact h.skip fun b hb => Option.some.inj (hu.symm.trans hb) ▸ hsame
    · rw [if_neg hsame]
      exact h.add hu hsame

theorem markEach_marked (m : Marking key) (t : KeyedTable key) (ks : List κ) :
    m.Marked t (· ∈ ks) (m.markEach t ks).1 (m.markEach t ks).2 := by
  induction ks using List.reverseRecOn with
  | nil => exact .start t
  | append_singleton ks k ih =>
    unfold markEach at ih ⊢
    rw [List.foldl_append]
    exact (ih.mark k).congr fun a _ _ => by simp

/-- Marking again changes nothing and logs nothing. -/
theorem Marked.again (h : m.Marked t K u log) {ks : List κ}
    (hks : ∀ a ∈ t.values, key a ∈ ks → K (key a)) : m.markEach u ks = (u, []) := by
  have hdone : ∀ k ∈ ks, ∀ a, u.lookup k = some a → m.apply a = a := by
    intro k hk a ha
    by_contra hne
    obtain ⟨hnot, ht⟩ := h.unmarked ha hne
    have hkey := KeyedTable.key_of_lookup ht
    exact hnot (hkey ▸ hks a (KeyedTable.mem_of_lookup ht) (hkey.symm ▸ hk))
  unfold markEach
  clear hks
  induction ks with
  | nil => rfl
  | cons k ks ih =>
    have hstep : m.mark (u, []) k = (u, []) := by
      unfold Marking.mark
      dsimp only
      cases hu : u.lookup k with
      | none => rfl
      | some a => exact if_pos (hdone k List.mem_cons_self a hu)
    rw [List.foldl_cons, hstep]
    exact ih fun k' hk' => hdone k' (List.mem_cons_of_mem k hk')

end Marking

import Mathlib.Logic.Function.Basic
import Mathlib.Data.List.Induction
import Mathlib.Data.List.Nodup

/-!
# Replicas that replay a change log

A finite table is seen as a partial function. A source appends changes to a log whenever its table
changes, and a replica that starts from a snapshot replays them. `handled` is the rule for the
replica: when every message has the effect of its changes, all messages together have the effect of
the whole log.
-/

namespace ChangeLog

variable {κ α : Type*}

/-- One change of a table. -/
inductive Change (κ α : Type*)
  | put (k : κ) (a : α)
  | drop (k : κ)
  | modify (k : κ) (f : α → α)

variable [DecidableEq κ]

/-- The table after a change. -/
def Change.apply (t : κ → Option α) : Change κ α → κ → Option α
  | .put k a => Function.update t k (some a)
  | .drop k => Function.update t k none
  | .modify k f => Function.update t k ((t k).map f)

/-- The table after all changes, the oldest first. -/
def replay (t : κ → Option α) (log : List (Change κ α)) : κ → Option α := log.foldl Change.apply t

@[simp] theorem replay_nil (t : κ → Option α) : replay t [] = t := rfl

theorem replay_cons (t : κ → Option α) (c : Change κ α) (log : List (Change κ α)) :
    replay t (c :: log) = replay (c.apply t) log := rfl

theorem replay_singleton (t : κ → Option α) (c : Change κ α) : replay t [c] = c.apply t := rfl

theorem replay_append (t : κ → Option α) (log log' : List (Change κ α)) :
    replay t (log ++ log') = replay (replay t log) log' := List.foldl_append

/-- Dropping keys one after another. -/
theorem replay_drops (t : κ → Option α) (ks : List κ) (k : κ) :
    replay t (ks.map .drop) k = if k ∈ ks then none else t k := by
  induction ks generalizing t with
  | nil => exact (if_neg List.not_mem_nil).symm
  | cons k' ks ih =>
    rw [List.map_cons, replay_cons, ih]
    by_cases hmem : k ∈ ks
    · rw [if_pos hmem, if_pos (List.mem_cons_of_mem k' hmem)]
    · rw [if_neg hmem]
      by_cases hk : k = k'
      · rw [hk, if_pos List.mem_cons_self]
        exact Function.update_self k' none t
      · have hnot : k ∉ k' :: ks := fun h => (List.mem_cons.mp h).elim hk hmem
        rw [if_neg hnot]
        exact Function.update_of_ne hk none t

/-- A snapshot: entries with distinct keys, put into an empty table. -/
theorem replay_puts {entries : List (κ × α)} (h : (entries.map Prod.fst).Nodup) (k : κ) (a : α) :
    replay (fun _ => none) (entries.map fun e => .put e.1 e.2) k = some a ↔ (k, a) ∈ entries := by
  -- the last entry decides, so the induction goes from the end of the list
  induction entries using List.reverseRec with
  | nil => simp
  | append_singleton entries e ih =>
    rw [List.map_append, List.nodup_append'] at h
    obtain ⟨hinit, _, hdisjoint⟩ := h
    rw [List.map_append, replay_append, List.map_singleton, replay_singleton, Change.apply,
      List.mem_append, List.mem_singleton]
    by_cases hk : k = e.1
    · rw [hk, Function.update_self]
      constructor
      · intro he
        exact .inr (Prod.ext rfl (Option.some.inj he).symm)
      · rintro (hmem | he)
        · have hkey : e.1 ∈ entries.map Prod.fst := List.mem_map.mpr ⟨(e.1, a), hmem, rfl⟩
          exact absurd (List.mem_singleton.mpr rfl) (hdisjoint hkey)
        · rw [← he]
    · rw [Function.update_of_ne hk, ih hinit]
      constructor
      · exact .inl
      · rintro (hmem | he)
        · exact hmem
        · exact absurd (congrArg Prod.fst he) hk

/-- The rule for a replica: a handler that has the effect of the changes of each message. -/
theorem handled {σ ε : Type*} {view : σ → κ → Option α} {handle : σ → ε → σ}
    {changes : ε → List (Change κ α)} {inv : σ → Prop} {ok : ε → Prop}
    (hstep : ∀ s e, inv s → ok e →
      inv (handle s e) ∧ view (handle s e) = replay (view s) (changes e))
    {s : σ} {messages : List ε} (hok : ∀ e ∈ messages, ok e) (hs : inv s) :
    inv (messages.foldl handle s) ∧
      view (messages.foldl handle s) = replay (view s) (messages.flatMap changes) := by
  induction messages generalizing s with
  | nil => exact ⟨hs, rfl⟩
  | cons e messages ih =>
    obtain ⟨hinv, hview⟩ := hstep s e hs (hok e List.mem_cons_self)
    obtain ⟨hinv', hview'⟩ := ih (fun e' he' => hok e' (List.mem_cons_of_mem e he')) hinv
    refine ⟨hinv', ?_⟩
    rw [List.foldl_cons, hview', hview, List.flatMap_cons, replay_append]

end ChangeLog

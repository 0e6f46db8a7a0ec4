import Mathlib.Data.List.Basic

/-!
# Finite runs of a labelled partial step

`run step start labels` executes the labels one after another and fails as soon as a label is
not enabled. The rules below split a run, expose its last step, and carry an invariant through a
run whose labels, or whose steps, meet a side condition.
-/

namespace Runs

variable {σ α γ : Type*}

/-- Execute every label in order; `none` as soon as one of them is not enabled. -/
def run (step : σ → α → Option σ) : σ → List α → Option σ
  | s, [] => some s
  | s, a :: as => (step s a).bind fun s' => run step s' as

/-- Every step of the run meets `C`, which may look at the state before the step. -/
def Meets (step : σ → α → Option σ) (C : σ → α → Prop) : σ → List α → Prop
  | _, [] => True
  | s, a :: as => C s a ∧ ∀ s', step s a = some s' → Meets step C s' as

variable {step : σ → α → Option σ}

instance decidableMeets {C : σ → α → Prop} [∀ s a, Decidable (C s a)] :
    ∀ (s : σ) (as : List α), Decidable (Meets step C s as)
  | _, [] => isTrue trivial
  | s, a :: as =>
    match h : step s a with
    | none => decidable_of_iff (C s a)
        ⟨fun hc => ⟨hc, fun _ hs => nomatch h.symm.trans hs⟩, fun hm => hm.1⟩
    | some s' =>
      have := decidableMeets (C := C) s' as
      decidable_of_iff (C s a ∧ Meets step C s' as)
        ⟨fun hc => ⟨hc.1, fun _ hs => Option.some.inj (h.symm.trans hs) ▸ hc.2⟩,
          fun hm => ⟨hm.1, hm.2 s' h⟩⟩

@[simp] theorem run_nil (s : σ) : run step s [] = some s := rfl

@[simp] theorem run_cons (s : σ) (a : α) (as : List α) :
    run step s (a :: as) = (step s a).bind fun s' => run step s' as := rfl

theorem run_cons_iff {s t : σ} {a : α} {as : List α} :
    run step s (a :: as) = some t ↔ ∃ s', step s a = some s' ∧ run step s' as = some t := by
  simp [Option.bind_eq_some_iff]

theorem run_append (s : σ) (as bs : List α) :
    run step s (as ++ bs) = (run step s as).bind fun s' => run step s' bs := by
  induction as generalizing s with
  | nil => rfl
  | cons a as ih =>
    cases h : step s a with
    | none => simp [h]
    | some s' => simpa [h] using ih s'

theorem run_append_iff {s t : σ} {as bs : List α} :
    run step s (as ++ bs) = some t ↔ ∃ s', run step s as = some s' ∧ run step s' bs = some t := by
  rw [run_append]
  exact Option.bind_eq_some_iff

/-- Expose the last step of a run. -/
theorem run_concat_iff {s t : σ} {as : List α} {a : α} :
    run step s (as ++ [a]) = some t ↔ ∃ s', run step s as = some s' ∧ step s' a = some t := by
  simp [run_append_iff]

theorem meets_append {C : σ → α → Prop} {s t : σ} {as bs : List α}
    (h : Meets step C s (as ++ bs)) (hr : run step s as = some t) : Meets step C t bs := by
  induction as generalizing s with
  | nil =>
    cases hr
    exact h
  | cons a as ih =>
    obtain ⟨s', hs, hr⟩ := run_cons_iff.mp hr
    exact ih (h.2 s' hs) hr

theorem meets_prefix {C : σ → α → Prop} {s : σ} {as bs : List α}
    (h : Meets step C s (as ++ bs)) : Meets step C s as := by
  induction as generalizing s with
  | nil => trivial
  | cons a as ih => exact ⟨h.1, fun s' hs => ih (h.2 s' hs)⟩

theorem meets_append_of {C : σ → α → Prop} {s : σ} {as bs : List α} (h : Meets step C s as)
    (h' : ∀ t, run step s as = some t → Meets step C t bs) : Meets step C s (as ++ bs) := by
  induction as generalizing s with
  | nil => exact h' s rfl
  | cons a as ih =>
    exact ⟨h.1, fun s' hs => ih (h.2 s' hs) fun t hrun => h' t (run_cons_iff.mpr ⟨s', hs, hrun⟩)⟩

/-- The invariant rule: what each step meeting `C` preserves, a run of such steps preserves. -/
theorem invariant_of_meets {C : σ → α → Prop} {P : σ → Prop}
    (hstep : ∀ s a s', P s → C s a → step s a = some s' → P s') {s t : σ} {as : List α}
    (hok : Meets step C s as) (hrun : run step s as = some t) (hs : P s) : P t := by
  induction as generalizing s with
  | nil =>
    cases hrun
    exact hs
  | cons a as ih =>
    obtain ⟨s', hs', hrun⟩ := run_cons_iff.mp hrun
    exact ih (hok.2 s' hs') hrun (hstep s a s' hs hok.1 hs')

theorem meets_of_forall {C : α → Prop} {as : List α} (h : ∀ a ∈ as, C a) (s : σ) :
    Meets step (fun _ a => C a) s as := by
  induction as generalizing s with
  | nil => trivial
  | cons a as ih =>
    exact ⟨h a List.mem_cons_self, fun s' _ => ih (fun b hb => h b (List.mem_cons_of_mem a hb)) s'⟩

/-- A run meets what each of its steps meets, wherever it stands in the run. -/
theorem meets_of_split {C : σ → α → Prop} {s : σ} {as : List α}
    (h : ∀ before a after t, before ++ a :: after = as → run step s before = some t → C t a) :
    Meets step C s as := by
  induction as generalizing s with
  | nil => trivial
  | cons a as ih =>
    refine ⟨h [] a as s rfl rfl, fun s' hs => ih fun before b after t hsplit hrun => ?_⟩
    exact h (a :: before) b after t (congrArg _ hsplit) (run_cons_iff.mpr ⟨s', hs, hrun⟩)

theorem meets_and {C D : σ → α → Prop} {s : σ} {as : List α} (h : Meets step C s as)
    (h' : Meets step D s as) : Meets step (fun s a => C s a ∧ D s a) s as := by
  induction as generalizing s with
  | nil => trivial
  | cons a as ih => exact ⟨⟨h.1, h'.1⟩, fun s' hs => ih (h.2 s' hs) (h'.2 s' hs)⟩

/-- The invariant rule for a side condition on the labels alone. -/
theorem invariant_of_forall {C : α → Prop} {P : σ → Prop}
    (hstep : ∀ s a s', P s → C a → step s a = some s' → P s') {s t : σ} {as : List α}
    (hok : ∀ a ∈ as, C a) (hrun : run step s as = some t) (hs : P s) : P t :=
  invariant_of_meets (C := fun _ a => C a) hstep (meets_of_forall hok s) hrun hs

/-- What a run can tell about its steps: `P` is kept by the steps that meet `C`, and every other
step leads to `F`, which stays. -/
theorem meets_iff_not {C : σ → α → Prop} {P F : σ → Prop}
    (hkeep : ∀ s a s', P s → C s a → step s a = some s' → P s')
    (hbreak : ∀ s a s', P s → ¬C s a → step s a = some s' → F s')
    (hstay : ∀ s a s', F s → step s a = some s' → F s') (hsound : ∀ s, P s → ¬F s)
    {s t : σ} {as : List α} (hrun : run step s as = some t) (hs : P s) :
    Meets step C s as ↔ ¬F t := by
  induction as generalizing s with
  | nil =>
    cases hrun
    exact iff_of_true trivial (hsound _ hs)
  | cons a as ih =>
    obtain ⟨s', hs', hrun⟩ := run_cons_iff.mp hrun
    by_cases hc : C s a
    · rw [← ih hrun (hkeep s a s' hs hc hs')]
      constructor
      · intro h
        exact h.2 s' hs'
      · intro h
        refine ⟨hc, fun s'' hs'' => ?_⟩
        cases hs'.symm.trans hs''
        exact h
    · refine iff_of_false (fun h => hc h.1) (not_not.mpr ?_)
      exact invariant_of_forall (C := fun _ => True) (fun s a s' h _ => hstay s a s' h)
        (fun _ _ => trivial) hrun (hbreak s a s' hs hc hs')

/-! ## Histories -/

/-- A value kept along a run: `f` looks at the state before each step and at its label. -/
def history (f : σ → α → γ → γ) (step : σ → α → Option σ) : σ → List α → γ → γ
  | _, [], g => g
  | s, a :: as, g =>
    match step s a with
    | none => g
    | some s' => history f step s' as (f s a g)

theorem history_cons {f : σ → α → γ → γ} {s s' : σ} {a : α} (h : step s a = some s')
    (as : List α) (g : γ) :
    history f step s (a :: as) g = history f step s' as (f s a g) := by
  rw [history, h]

/-- The invariant rule for a state together with its history. -/
theorem history_invariant {f : σ → α → γ → γ} {C : σ → α → Prop} {P : σ → γ → Prop}
    (hstep : ∀ s a s' g, P s g → C s a → step s a = some s' → P s' (f s a g))
    {s t : σ} {as : List α} {g : γ} (hok : Meets step C s as) (hrun : run step s as = some t)
    (hs : P s g) : P t (history f step s as g) := by
  induction as generalizing s g with
  | nil =>
    cases hrun
    exact hs
  | cons a as ih =>
    obtain ⟨s', hs', hrun⟩ := run_cons_iff.mp hrun
    rw [history_cons hs']
    exact ih (hok.2 s' hs') hrun (hstep s a s' g hs hok.1 hs')

end Runs

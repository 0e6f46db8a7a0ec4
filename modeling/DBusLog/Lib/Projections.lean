import DBusLog.Lib.Runs

/-!
# Projecting a run onto a component

A system takes labelled steps, and each of them makes a component take some steps of its own.
`projection` collects the labels of the component along a run of the system. The projection rule
carries a relation between system and component through the whole run. With the system itself as
the component it compares a run with the one in which labels have been dropped or replaced.
-/

namespace Runs

variable {σ τ α β : Type*} {step : σ → α → Option σ} {stepPart : τ → β → Option τ}

/-- What the component does in a run; `part` looks at the state of the system before each step. -/
def projection (part : σ → α → List β) (step : σ → α → Option σ) : σ → List α → List β
  | _, [] => []
  | s, a :: as =>
    part s a ++ match step s a with
      | none => []
      | some s' => projection part step s' as

@[simp] theorem projection_nil (part : σ → α → List β) (s : σ) : projection part step s [] = [] :=
  rfl

theorem projection_cons {part : σ → α → List β} {s s' : σ} {a : α} (h : step s a = some s')
    (as : List α) :
    projection part step s (a :: as) = part s a ++ projection part step s' as := by
  rw [projection, h]

/-- The projection rule: what relates the component to the system after each step does so after
the whole run, with the component having taken its part of it. The relation may mention the
labels that have been executed. -/
theorem run_projection {part : σ → α → List β} {C : σ → α → Prop} {R : List α → σ → τ → Prop}
    (hstep : ∀ before s a s' x, R before s x → C s a → step s a = some s' →
      ∃ x', run stepPart x (part s a) = some x' ∧ R (before ++ [a]) s' x')
    {s t : σ} {as before : List α} {x : τ} (hok : Meets step C s as)
    (hrun : run step s as = some t) (hx : R before s x) :
    ∃ y, run stepPart x (projection part step s as) = some y ∧ R (before ++ as) t y := by
  induction as generalizing s x before with
  | nil =>
    cases hrun
    exact ⟨x, rfl, by rwa [List.append_nil]⟩
  | cons a as ih =>
    obtain ⟨s', hs', hrun⟩ := run_cons_iff.mp hrun
    obtain ⟨x', hx', hrel⟩ := hstep before s a s' x hx hok.1 hs'
    obtain ⟨y, hy, hlast⟩ := ih (hok.2 s' hs') hrun hrel
    rw [projection_cons hs']
    refine ⟨y, run_append_iff.mpr ⟨x', hx', hy⟩, ?_⟩
    rwa [List.append_assoc] at hlast

/-- The projection that looks at the labels alone. -/
theorem projection_filterMap (keep : α → Option β) {s t : σ} {as : List α}
    (hrun : run step s as = some t) :
    projection (fun _ a => (keep a).toList) step s as = as.filterMap keep := by
  induction as generalizing s with
  | nil => rfl
  | cons a as ih =>
    obtain ⟨s', hs', hrun⟩ := run_cons_iff.mp hrun
    rw [projection_cons hs', ih hrun, List.filterMap_cons]
    cases keep a with
    | none => rfl
    | some b => rfl

/-- The unwinding rule: a run in which each label is dropped or replaced ends in a related state,
if each step does. -/
theorem run_filterMap {keep : α → Option β} {C : σ → α → Prop} {R : σ → τ → Prop}
    (hstep : ∀ s a s' x, R s x → C s a → step s a = some s' →
      ∃ x', run stepPart x (keep a).toList = some x' ∧ R s' x')
    {s t : σ} {as : List α} {x : τ} (hok : Meets step C s as) (hrun : run step s as = some t)
    (hx : R s x) : ∃ y, run stepPart x (as.filterMap keep) = some y ∧ R t y := by
  rw [← projection_filterMap keep hrun]
  exact @run_projection _ _ _ _ _ _ _ C (fun _ => R) (fun _ => hstep) s t as [] x hok hrun hx

end Runs

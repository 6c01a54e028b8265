import Mathlib.Tactic.Common

/-!
# Runs of a partial step function

A system is a step function `step : σ → α → Option σ`: action `a` is enabled in state `s`
when `step s a` is `some`, and the label carries every choice the environment makes, so
that a run is determined by its list of labels (`run`).

Two rules turn a fact about one step into a fact about runs. `run_invariant` is the
ordinary invariant rule. `run_invariant_of_allSteps` is its guarded form: the invariant
need only survive the steps that meet a condition `P` on the state they are taken from,
and the run is one in which every step meets it (`AllSteps`). Failure of `AllSteps` is
located by `exists_step_of_not_allSteps`, which splits the run at a step that breaks `P`.

`run_rel` is the rule for two systems that take the same steps, `run_simulate` the one for a system
each of whose steps is a run of another, and `run_project` for one that is a part of another.
-/

namespace StepSystem

variable {σ α : Type*} {step : σ → α → Option σ} {s s' : σ} {as : List α}

/-- The state a list of actions leads to; `none` as soon as one of them is not enabled. -/
def run (step : σ → α → Option σ) : σ → List α → Option σ
  | s, [] => some s
  | s, a :: as => (step s a).bind fun s' => run step s' as

@[simp]
theorem run_nil : run step s [] = some s := rfl

@[simp]
theorem run_cons {a : α} :
    run step s (a :: as) = (step s a).bind fun s' => run step s' as := rfl

theorem run_cons_eq_some {a : α} :
    run step s (a :: as) = some s' ↔ ∃ t, step s a = some t ∧ run step t as = some s' := by
  rw [run_cons, Option.bind_eq_some_iff]

/-- A run splits at every point of its label list. -/
theorem run_append {bs : List α} :
    run step s (as ++ bs) = some s' ↔
      ∃ t, run step s as = some t ∧ run step t bs = some s' := by
  induction as generalizing s with
  | nil => simp
  | cons a as ih =>
    simp only [List.cons_append, run_cons_eq_some, ih]
    constructor
    · rintro ⟨t, ht, u, hu, hs'⟩
      exact ⟨u, ⟨t, ht, hu⟩, hs'⟩
    · rintro ⟨u, ⟨t, ht, hu⟩, hs'⟩
      exact ⟨t, ht, u, hu, hs'⟩

/-- Every action of the run meets `P` in the state it is taken from. -/
def AllSteps (step : σ → α → Option σ) (P : σ → α → Prop) : σ → List α → Prop
  | _, [] => True
  | s, a :: as => P s a ∧ ∀ s', step s a = some s' → AllSteps step P s' as

theorem AllSteps.of_append {P : σ → α → Prop} {bs : List α} (h : AllSteps step P s (as ++ bs)) :
    AllSteps step P s as := by
  induction as generalizing s with
  | nil => trivial
  | cons a as ih => exact ⟨h.1, fun s' hs' => ih (h.2 s' hs')⟩

theorem AllSteps.append {P : σ → α → Prop} {bs : List α} (h : AllSteps step P s as)
    (h' : ∀ t, run step s as = some t → AllSteps step P t bs) :
    AllSteps step P s (as ++ bs) := by
  induction as generalizing s with
  | nil => exact h' s rfl
  | cons a as ih =>
    exact ⟨h.1, fun t ht => ih (h.2 t ht) fun u hu => h' u (run_cons_eq_some.mpr ⟨t, ht, hu⟩)⟩

theorem AllSteps.of_append_right {P : σ → α → Prop} {bs : List α}
    (h : AllSteps step P s (as ++ bs)) (hrun : run step s as = some s') :
    AllSteps step P s' bs := by
  induction as generalizing s with
  | nil => exact Option.some.inj hrun ▸ h
  | cons a as ih =>
    obtain ⟨t, ht, hrest⟩ := run_cons_eq_some.mp hrun
    exact ih (h.2 t ht) hrest

/-- **The guarded invariant rule.** An invariant that survives the steps meeting `P`
survives every run all of whose steps meet `P`. -/
theorem run_invariant_of_allSteps {I : σ → Prop} {P : σ → α → Prop}
    (hstep : ∀ s a s', I s → P s a → step s a = some s' → I s')
    (h₀ : I s) (hP : AllSteps step P s as) (hrun : run step s as = some s') : I s' := by
  induction as generalizing s with
  | nil => exact Option.some.inj hrun ▸ h₀
  | cons a as ih =>
    obtain ⟨t, ht, hrest⟩ := run_cons_eq_some.mp hrun
    exact ih (hstep s a t h₀ hP.1 ht) (hP.2 t ht) hrest

theorem allSteps_of_forall_mem {P : α → Prop} :
    ∀ (s : σ) (as : List α), (∀ a ∈ as, P a) → AllSteps step (fun _ a => P a) s as
  | _, [], _ => trivial
  | _, a :: as, h => ⟨h a List.mem_cons_self, fun s' _ =>
      allSteps_of_forall_mem s' as fun b hb => h b (List.mem_cons_of_mem a hb)⟩

/-- The guarded rule, for a condition on the labels alone. -/
theorem run_invariant_of_forall_mem {I : σ → Prop} {P : α → Prop}
    (hstep : ∀ s a s', I s → P a → step s a = some s' → I s')
    (h₀ : I s) (hP : ∀ a ∈ as, P a) (hrun : run step s as = some s') : I s' :=
  run_invariant_of_allSteps (P := fun _ a => P a) hstep h₀ (allSteps_of_forall_mem s as hP) hrun

/-- **The invariant rule.** What holds at the start and survives every step holds at the
end of every run. -/
theorem run_invariant {I : σ → Prop} (hstep : ∀ s a s', I s → step s a = some s' → I s')
    (h₀ : I s) (hrun : run step s as = some s') : I s' :=
  run_invariant_of_forall_mem (P := fun _ => True) (fun s a s' hI _ hs => hstep s a s' hI hs)
    h₀ (fun _ _ => trivial) hrun

/-- A run with a step that breaks `P` splits there. -/
theorem exists_step_of_not_allSteps {P : σ → α → Prop} (hP : ¬ AllSteps step P s as)
    (hrun : run step s as = some s') :
    ∃ pre a post t u, as = pre ++ a :: post ∧ run step s pre = some t ∧ ¬ P t a ∧
      step t a = some u ∧ run step u post = some s' := by
  induction as generalizing s with
  | nil => exact absurd trivial hP
  | cons a as ih =>
    obtain ⟨t, ht, hrest⟩ := run_cons_eq_some.mp hrun
    by_cases ha : P s a
    · have hnot : ¬ AllSteps step P t as := fun hall =>
        hP ⟨ha, fun t' ht' => Option.some.inj (ht.symm.trans ht') ▸ hall⟩
      obtain ⟨pre, b, post, u, v, rfl, hpre, hb, hv, hpost⟩ := ih hnot hrest
      exact ⟨a :: pre, b, post, u, v, rfl, run_cons_eq_some.mpr ⟨t, ht, hpre⟩, hb, hv, hpost⟩
    · exact ⟨[], a, as, s, t, rfl, rfl, ha, ht, hrest⟩

/-- A run that leaves `P` splits at a step that does. -/
theorem exists_step_of_leaves {P : σ → Prop} (h₀ : P s) (h : ¬ P s')
    (hrun : run step s as = some s') :
    ∃ pre a post t u, as = pre ++ a :: post ∧ run step s pre = some t ∧ P t ∧
      step t a = some u ∧ ¬ P u ∧ run step u post = some s' := by
  induction as generalizing s with
  | nil => exact absurd h₀ (Option.some.inj hrun ▸ h)
  | cons a as ih =>
    obtain ⟨t, ht, hrest⟩ := run_cons_eq_some.mp hrun
    by_cases hP : P t
    · obtain ⟨pre, b, post, u, v, rfl, hpre, hu, hv, hnot, hpost⟩ := ih hP hrest
      exact ⟨a :: pre, b, post, u, v, rfl, run_cons_eq_some.mpr ⟨t, ht, hpre⟩, hu, hv, hnot, hpost⟩
    · exact ⟨[], a, as, s, t, rfl, rfl, h₀, ht, hP, hrest⟩

/-- **Simulation.** A relation that each step of one system keeps, when the other takes some steps
of its own, is kept by each of its runs. -/
theorem run_simulate {τ β : Type*} {step' : τ → β → Option τ} {R : σ → τ → Prop}
    (hstep : ∀ s t a s', R s t → step s a = some s' →
      ∃ bs t', run step' t bs = some t' ∧ R s' t') {t : τ} (h : R s t)
    (hrun : run step s as = some s') : ∃ bs t', run step' t bs = some t' ∧ R s' t' := by
  induction as generalizing s t with
  | nil => exact ⟨[], t, rfl, Option.some.inj hrun ▸ h⟩
  | cons a as ih =>
    obtain ⟨u, hu, hrest⟩ := run_cons_eq_some.mp hrun
    obtain ⟨bs, v, hbs, hv⟩ := hstep s t a u h hu
    obtain ⟨bs', t', hbs', ht'⟩ := ih hv hrest
    exact ⟨bs ++ bs', t', run_append.mpr ⟨v, hbs, hbs'⟩, ht'⟩

/-- **Projection.** A system each of whose steps, seen through `f`, is a run of another one: so is
each of its runs. -/
theorem run_project {τ β : Type*} {step' : τ → β → Option τ} {f : σ → τ}
    (hstep : ∀ s a s', step s a = some s' → ∃ bs, run step' (f s) bs = some (f s'))
    (hrun : run step s as = some s') : ∃ bs, run step' (f s) bs = some (f s') := by
  obtain ⟨bs, t, hbs, rfl⟩ := run_simulate (R := fun s t => f s = t) (fun s t a s' hst h => by
    obtain ⟨bs, hbs⟩ := hstep s a s' h
    exact ⟨bs, f s', hst ▸ hbs, rfl⟩) rfl hrun
  exact ⟨bs, hbs⟩

end StepSystem

import Mathlib.Tactic.Common

/-!
# Chains of fallible stages

A stage takes a value and a shared state to a value or an error, and to the state as it
leaves it. `runStages` hands the value from stage to stage and stops at the first error.

`Flows stages a s b t` says that no stage fails between the value `a` in the state `s` and
the value `b` in the state `t`; `Halts` that some stage does, after those before it have let
the value through. Every run is one or the other (`flows_or_halts`).
-/

namespace Stages

variable {α σ ε : Type*}

/-- A stage. -/
abbrev Stage (α σ ε : Type*) := α → σ → Except ε α × σ

/-- Run the stages in turn. -/
def runStages : List (Stage α σ ε) → Stage α σ ε
  | [], a, s => (.ok a, s)
  | stage :: stages, a, s =>
    match stage a s with
    | (.ok b, t) => runStages stages b t
    | (.error e, t) => (.error e, t)

/-- The value goes through every stage. -/
inductive Flows : List (Stage α σ ε) → α → σ → α → σ → Prop
  | nil (a : α) (s : σ) : Flows [] a s a s
  | cons {stage : Stage α σ ε} {stages : List (Stage α σ ε)} {a b c : α} {s t u : σ}
      (hstage : stage a s = (.ok b, t)) (hrest : Flows stages b t c u) :
      Flows (stage :: stages) a s c u

/-- Some stage fails, and it is the first to. -/
def Halts (stages : List (Stage α σ ε)) (a : α) (s : σ) (e : ε) (t : σ) : Prop :=
  ∃ before stage after b u, stages = before ++ stage :: after ∧ Flows before a s b u ∧
    stage b u = (.error e, t)

variable {stages stages' : List (Stage α σ ε)} {a b : α} {s t : σ} {e : ε}

theorem runStages_append :
    runStages (stages ++ stages') a s =
      match runStages stages a s with
      | (.ok b, t) => runStages stages' b t
      | (.error e, t) => (.error e, t) := by
  induction stages generalizing a s with
  | nil => rfl
  | cons stage stages ih =>
    simp only [List.cons_append, runStages]
    rcases stage a s with ⟨e | b, t⟩
    · rfl
    · exact ih

theorem runStages_eq_ok_iff : runStages stages a s = (.ok b, t) ↔ Flows stages a s b t := by
  induction stages generalizing a s with
  | nil =>
    constructor
    · rintro ⟨⟩
      exact .nil _ _
    · rintro ⟨⟩
      rfl
  | cons stage stages ih =>
    rw [runStages]
    constructor
    · intro h
      rcases hstage : stage a s with ⟨e | b', t'⟩
      · rw [hstage] at h
        exact nomatch h
      · rw [hstage] at h
        exact .cons hstage (ih.mp h)
    · intro h
      cases h with
      | cons hstage hrest =>
        rw [hstage]
        exact ih.mpr hrest

theorem halts_of_runStages (h : runStages stages a s = (.error e, t)) : Halts stages a s e t := by
  induction stages generalizing a s with
  | nil => exact nomatch h
  | cons stage stages ih =>
    rw [runStages] at h
    rcases hstage : stage a s with ⟨e' | b, u⟩
    · rw [hstage] at h
      exact ⟨[], stage, stages, a, s, rfl, .nil a s, hstage.trans h⟩
    · rw [hstage] at h
      obtain ⟨before, stage', after, c, v, rfl, hflows, hfails⟩ := ih h
      exact ⟨stage :: before, stage', after, c, v, rfl, .cons hstage hflows, hfails⟩

/-- **Every run goes through, or halts at a stage.** -/
theorem flows_or_halts (stages : List (Stage α σ ε)) (a : α) (s : σ) :
    (∃ b t, runStages stages a s = (.ok b, t) ∧ Flows stages a s b t) ∨
      ∃ e t, runStages stages a s = (.error e, t) ∧ Halts stages a s e t := by
  rcases h : runStages stages a s with ⟨e | b, t⟩
  · exact .inr ⟨e, t, rfl, halts_of_runStages h⟩
  · exact .inl ⟨b, t, rfl, runStages_eq_ok_iff.mp h⟩

/-- What no stage changes is not changed by a run. -/
theorem read_runStages {ρ : Type*} {read : σ → ρ}
    (h : ∀ stage ∈ stages, ∀ a s, read (stage a s).2 = read s) :
    read (runStages stages a s).2 = read s := by
  induction stages generalizing a s with
  | nil => rfl
  | cons stage stages ih =>
    have hread := h stage List.mem_cons_self a s
    have hrest : ∀ stage ∈ stages, ∀ a s, read (stage a s).2 = read s := fun stage hmem =>
      h stage (List.mem_cons_of_mem _ hmem)
    rw [runStages]
    rcases hstage : stage a s with ⟨e | b, t⟩
    · rw [hstage] at hread
      exact hread
    · rw [hstage] at hread
      exact (ih hrest).trans hread

end Stages

import Vfobs.Foundations.KeyOrder
import Vfobs.Foundations.Run

/-!
# Tasks over a shared state

A task goes from stage to stage. A stage is taken at once: it reads the shared state, may change
it, and leads to another stage or to a result (`Machine`). In a `Pool` any number of tasks take
their stages in any order, new ones start at any time, and a task may be broken off between two
stages.

A `RelyGuarantee` reasons about one task at a time. It has an assertion on the shared state for
every stage, which the stage before establishes; what a task guarantees to the others whenever it
changes the state; and that assertions are stable under what others guarantee. `Pool.Holds`, which
says that all the assertions hold, survives whatever the pool does.

`Alone` is a task that runs from a stage to its result while the others wait.
-/

namespace TaskPool

open StepSystem

variable {σ γ κ ρ : Type*}

/-- A task, with its goal and the stage that it will take next. -/
structure Task (γ κ : Type*) where
  number : ℕ
  goal : γ
  stage : κ

/-- A task that is over; `none` if it was broken off. -/
structure Outcome (γ ρ : Type*) where
  number : ℕ
  goal : γ
  result : Option ρ

/-- What tasks do. -/
structure Machine (σ κ ρ : Type*) where
  /-- A stage of the task of a number. -/
  advance : ℕ → κ → σ → (κ ⊕ ρ) × σ
  /-- What becomes of the state when a task is broken off before a stage. -/
  breakOff : ℕ → κ → σ → σ

/-- The tasks and their state. -/
structure Pool (σ γ κ ρ : Type*) where
  shared : σ
  running : List (Task γ κ) := []
  finished : List (Outcome γ ρ) := []

namespace Pool

/-- A task comes to a stage, or is over. -/
def settle (p : Pool σ γ κ ρ) (number : ℕ) (goal : γ) : κ ⊕ Option ρ → Pool σ γ κ ρ
  | .inl stage => { p with running := p.running ++ [⟨number, goal, stage⟩] }
  | .inr result => { p with finished := p.finished ++ [⟨number, goal, result⟩] }

/-- A task is in hand, and the state changes. -/
def take (p : Pool σ γ κ ρ) (number : ℕ) (shared : σ) : Pool σ γ κ ρ where
  shared
  running := p.running.filter fun t => t.number ≠ number
  finished := p.finished

/-- The running task of a number. -/
def task? (p : Pool σ γ κ ρ) (number : ℕ) : Option (Task γ κ) :=
  p.running.find? fun t => t.number = number

/-- The numbers of all tasks. -/
def numbers (p : Pool σ γ κ ρ) : List ℕ :=
  p.running.map Task.number ++ p.finished.map Outcome.number

/-- The goals of all tasks. -/
def goals (p : Pool σ γ κ ρ) : List (ℕ × γ) :=
  p.running.map (fun t => (t.number, t.goal)) ++ p.finished.map fun o => (o.number, o.goal)

end Pool

namespace Machine

variable (M : Machine σ κ ρ)

/-- A task takes its next stage. -/
def proceed (p : Pool σ γ κ ρ) (number : ℕ) : Option (Pool σ γ κ ρ) :=
  (p.task? number).map fun t =>
    let (next, shared) := M.advance number t.stage p.shared
    (p.take number shared).settle number t.goal (next.map id some)

/-- A task is broken off. -/
def abort (p : Pool σ γ κ ρ) (number : ℕ) : Option (Pool σ γ κ ρ) :=
  (p.task? number).map fun t =>
    (p.take number (M.breakOff number t.stage p.shared)).settle number t.goal (.inr none)

end Machine

namespace Pool

variable {M : Machine σ κ ρ} {p p' : Pool σ γ κ ρ} {t : Task γ κ} {number : ℕ} {goal : γ}
  {shared : σ}

@[simp]
theorem shared_settle (next : κ ⊕ Option ρ) : (p.settle number goal next).shared = p.shared := by
  cases next <;> rfl

theorem goals_settle (next : κ ⊕ Option ρ) :
    (p.settle number goal next).goals.Perm ((number, goal) :: p.goals) := by
  cases next with
  | inl stage =>
    simp only [goals, settle, List.map_append, List.map_singleton, List.append_assoc]
    exact List.perm_middle
  | inr result =>
    simp only [goals, settle, List.map_append, List.map_singleton, ← List.append_assoc]
    exact List.perm_append_singleton _ _

theorem numbers_eq (p : Pool σ γ κ ρ) : p.numbers = p.goals.map Prod.fst := by
  simp only [numbers, goals, List.map_append, List.map_map]
  rfl

theorem numbers_settle (next : κ ⊕ Option ρ) :
    (p.settle number goal next).numbers.Perm (number :: p.numbers) := by
  rw [numbers_eq, numbers_eq]
  exact (goals_settle next).map Prod.fst

theorem mem_running_of_task? (h : p.task? number = some t) :
    t ∈ p.running ∧ t.number = number :=
  ⟨List.mem_of_find?_eq_some h, by simpa using List.find?_some h⟩

/-- Numbers are not given twice: the task of a number is the only one. -/
theorem task?_eq_some (hp : p.numbers.Nodup) (ht : t ∈ p.running) : p.task? t.number = some t := by
  have hrunning : (p.running.map Task.number).Nodup := hp.of_append_left
  cases h : p.task? t.number with
  | none =>
    have hnone := List.find?_eq_none.mp h t ht
    simp at hnone
  | some t' =>
    obtain ⟨hmem, hnumber⟩ := mem_running_of_task? h
    exact congrArg some (List.inj_on_of_nodup_map hrunning hmem ht hnumber)

theorem goals_take (hp : p.numbers.Nodup) (ht : t ∈ p.running) (shared : σ) :
    p.goals.Perm ((t.number, t.goal) :: (p.take t.number shared).goals) := by
  have hrunning : (p.running.map Task.number).Nodup := hp.of_append_left
  exact ((KeyOrder.perm_cons_filter_ne hrunning ht).map _).append_right _

/-- A stage keeps the numbers and the goals. -/
theorem goals_settle_take (hp : p.numbers.Nodup) (ht : t ∈ p.running) (shared : σ)
    (next : κ ⊕ Option ρ) :
    ((p.take t.number shared).settle t.number t.goal next).goals.Perm p.goals :=
  (goals_settle next).trans (goals_take hp ht shared).symm

/-- **What `proceed` does.** -/
theorem proceed_eq_some (h : M.proceed p number = some p') :
    ∃ t ∈ p.running, t.number = number ∧
      p' = (p.take number (M.advance number t.stage p.shared).2).settle number t.goal
        ((M.advance number t.stage p.shared).1.map id some) := by
  obtain ⟨t, ht, rfl⟩ := Option.map_eq_some_iff.mp h
  obtain ⟨hmem, hnumber⟩ := mem_running_of_task? ht
  exact ⟨t, hmem, hnumber, rfl⟩

/-- **What `abort` does.** -/
theorem abort_eq_some (h : M.abort p number = some p') :
    ∃ t ∈ p.running, t.number = number ∧
      p' = (p.take number (M.breakOff number t.stage p.shared)).settle number t.goal
        (.inr none) := by
  obtain ⟨t, ht, rfl⟩ := Option.map_eq_some_iff.mp h
  obtain ⟨hmem, hnumber⟩ := mem_running_of_task? ht
  exact ⟨t, hmem, hnumber, rfl⟩

end Pool

/-! ### Rely and guarantee -/

/-- The assertions about one task of a machine, and what it guarantees to the others. -/
structure RelyGuarantee (M : Machine σ κ ρ) (γ : Type*) where
  /-- What always holds of the state. -/
  Inv : σ → Prop
  /-- What holds when a task comes to a stage. -/
  Before : ℕ → γ → κ → σ → Prop
  /-- What holds once a task is over. -/
  After : ℕ → γ → Option ρ → σ → Prop
  /-- What a task makes sure of when it changes the state. -/
  Guarantee : ℕ → σ → σ → Prop
  /-- The state has traces of a task. -/
  Traced : ℕ → σ → Prop
  advance : ∀ {n g k s}, Inv s → Before n g k s →
    Inv (M.advance n k s).2 ∧ Guarantee n s (M.advance n k s).2 ∧
      (∀ k', (M.advance n k s).1 = .inl k' → Before n g k' (M.advance n k s).2) ∧
      ∀ r, (M.advance n k s).1 = .inr r → After n g (some r) (M.advance n k s).2
  breakOff : ∀ {n g k s}, Inv s → Before n g k s →
    Inv (M.breakOff n k s) ∧ Guarantee n s (M.breakOff n k s) ∧
      After n g none (M.breakOff n k s)
  before_stable : ∀ {m n g k s s'}, m ≠ n → Guarantee m s s' → Before n g k s → Before n g k s'
  after_stable : ∀ {m n g r s s'}, m ≠ n → Guarantee m s s' → After n g r s → After n g r s'
  traced_of_guarantee : ∀ {m n s s'}, m ≠ n → Guarantee m s s' → Traced n s' → Traced n s

namespace RelyGuarantee

variable {M : Machine σ κ ρ} (R : RelyGuarantee M γ)

/-- What holds of a task that comes to a stage, or is over. -/
def At (number : ℕ) (goal : γ) : κ ⊕ Option ρ → σ → Prop
  | .inl stage => R.Before number goal stage
  | .inr result => R.After number goal result

/-- All assertions hold. -/
structure Holds (p : Pool σ γ κ ρ) : Prop where
  inv : R.Inv p.shared
  before : ∀ t ∈ p.running, R.Before t.number t.goal t.stage p.shared
  after : ∀ o ∈ p.finished, R.After o.number o.goal o.result p.shared
  nodup : p.numbers.Nodup
  traced : ∀ n, R.Traced n p.shared → n ∈ p.numbers

variable {R} {p p' : Pool σ γ κ ρ} {t : Task γ κ} {number : ℕ} {goal : γ}

variable (R) in
/-- The same, while task `number` is in hand. -/
structure InHand (number : ℕ) (p : Pool σ γ κ ρ) : Prop where
  inv : R.Inv p.shared
  before : ∀ t ∈ p.running, R.Before t.number t.goal t.stage p.shared
  after : ∀ o ∈ p.finished, R.After o.number o.goal o.result p.shared
  nodup : (number :: p.numbers).Nodup
  traced : ∀ n, R.Traced n p.shared → n ∈ number :: p.numbers

theorem InHand.settle (h : R.InHand number p) {next : κ ⊕ Option ρ}
    (hat : R.At number goal next p.shared) : R.Holds (p.settle number goal next) := by
  have hnumbers : (p.settle number goal next).numbers.Perm (number :: p.numbers) :=
    p.numbers_settle next
  have hnodup := hnumbers.nodup_iff.mpr h.nodup
  have htraced : ∀ n, R.Traced n p.shared → n ∈ (p.settle number goal next).numbers :=
    fun n hn => hnumbers.mem_iff.mpr (h.traced n hn)
  cases next with
  | inl stage =>
    refine ⟨h.inv, fun t ht => ?_, h.after, hnodup, htraced⟩
    rcases List.mem_append.mp ht with ht | ht
    · exact h.before t ht
    · obtain rfl := List.mem_singleton.mp ht
      exact hat
  | inr result =>
    refine ⟨h.inv, h.before, fun o ho => ?_, hnodup, htraced⟩
    rcases List.mem_append.mp ho with ho | ho
    · exact h.after o ho
    · obtain rfl := List.mem_singleton.mp ho
      exact hat

theorem Holds.take (h : R.Holds p) (ht : t ∈ p.running) {shared : σ} (hinv : R.Inv shared)
    (hguarantee : R.Guarantee t.number p.shared shared) :
    R.InHand t.number (p.take t.number shared) := by
  have hperm : p.numbers.Perm (t.number :: (p.take t.number shared).numbers) := by
    rw [Pool.numbers_eq, Pool.numbers_eq]
    exact (Pool.goals_take h.nodup ht shared).map Prod.fst
  have hnodup := hperm.nodup_iff.mp h.nodup
  have hother : ∀ n ∈ (p.take t.number shared).numbers, t.number ≠ n := fun n hn heq =>
    (List.nodup_cons.mp hnodup).1 (heq ▸ hn)
  -- the assertions of the others are stable under what the task guarantees
  refine ⟨hinv, fun t' ht' => ?_, fun o ho => ?_, hnodup, fun n hn => ?_⟩
  · exact R.before_stable (hother _ (List.mem_append_left _ (List.mem_map_of_mem ht')))
      hguarantee (h.before t' (List.mem_of_mem_filter ht'))
  · exact R.after_stable (hother _ (List.mem_append_right _ (List.mem_map_of_mem ho)))
      hguarantee (h.after o ho)
  · by_cases heq : t.number = n
    · exact heq ▸ List.mem_cons_self
    · exact hperm.mem_iff.mp (h.traced n (R.traced_of_guarantee heq hguarantee hn))

/-- **A new task**: whatever it starts with, the state has no traces of it yet. -/
theorem Holds.start (h : R.Holds p) (hnew : number ∉ p.numbers) {next : κ ⊕ Option ρ}
    (hat : ¬ R.Traced number p.shared → R.At number goal next p.shared) :
    R.Holds (p.settle number goal next) := by
  have hinhand : R.InHand number p :=
    ⟨h.inv, h.before, h.after, List.nodup_cons.mpr ⟨hnew, h.nodup⟩, fun n hn =>
      List.mem_cons_of_mem _ (h.traced n hn)⟩
  exact hinhand.settle (hat fun htraced => hnew (h.traced number htraced))

/-- **A stage.** -/
theorem Holds.proceed (h : R.Holds p) (hp : M.proceed p number = some p') : R.Holds p' := by
  obtain ⟨t, ht, rfl, rfl⟩ := Pool.proceed_eq_some hp
  obtain ⟨hinv, hguarantee, hstage, hresult⟩ := R.advance h.inv (h.before t ht)
  refine (h.take ht hinv hguarantee).settle ?_
  cases hnext : (M.advance t.number t.stage p.shared).1 with
  | inl stage => exact hstage stage hnext
  | inr result => exact hresult result hnext

/-- **A task that is broken off.** -/
theorem Holds.abort (h : R.Holds p) (hp : M.abort p number = some p') : R.Holds p' := by
  obtain ⟨t, ht, rfl, rfl⟩ := Pool.abort_eq_some hp
  obtain ⟨hinv, hguarantee, hafter⟩ := R.breakOff h.inv (h.before t ht)
  exact (h.take ht hinv hguarantee).settle hafter

/-- What a stage guarantees. -/
theorem Holds.guarantee_proceed (h : R.Holds p) (hp : M.proceed p number = some p') :
    R.Guarantee number p.shared p'.shared := by
  obtain ⟨t, ht, rfl, rfl⟩ := Pool.proceed_eq_some hp
  rw [Pool.shared_settle]
  exact (R.advance h.inv (h.before t ht)).2.1

theorem Holds.guarantee_abort (h : R.Holds p) (hp : M.abort p number = some p') :
    R.Guarantee number p.shared p'.shared := by
  obtain ⟨t, ht, rfl, rfl⟩ := Pool.abort_eq_some hp
  exact (R.breakOff h.inv (h.before t ht)).2.1

end RelyGuarantee

/-! ### Tasks alone -/

/-- A task runs from a stage to its result, and nobody else does anything. -/
inductive Alone (M : Machine σ κ ρ) (number : ℕ) : κ → σ → ρ → σ → Prop
  | done {stage : κ} {s s' : σ} {result : ρ}
      (h : M.advance number stage s = (.inr result, s')) : Alone M number stage s result s'
  | next {stage stage' : κ} {s s' s'' : σ} {result : ρ}
      (h : M.advance number stage s = (.inl stage', s'))
      (hrest : Alone M number stage' s' result s'') : Alone M number stage s result s''

namespace Pool

variable {M : Machine σ κ ρ} {p p' : Pool σ γ κ ρ} {number : ℕ} {goal : γ}

theorem goals_proceed (hp : p.numbers.Nodup) (h : M.proceed p number = some p') :
    p'.goals.Perm p.goals := by
  obtain ⟨t, ht, rfl, rfl⟩ := proceed_eq_some h
  exact goals_settle_take hp ht _ _

theorem goals_abort (hp : p.numbers.Nodup) (h : M.abort p number = some p') :
    p'.goals.Perm p.goals := by
  obtain ⟨t, ht, rfl, rfl⟩ := abort_eq_some h
  exact goals_settle_take hp ht _ _

/-- **A task alone.** A task that would run to a result alone is brought to it in a pool by steps of
its own, one after the other. -/
theorem run_of_alone {stage : κ} {s s' : σ} {result : ρ} (h : Alone M number stage s result s')
    (hp : p.numbers.Nodup) (ht : ⟨number, goal, stage⟩ ∈ p.running) (hs : p.shared = s) :
    ∃ j, run M.proceed p (List.replicate j number) =
      some ((p.take number s').settle number goal (.inr (some result))) := by
  induction h generalizing p with
  | @done stage s s' result h =>
    have hstep : M.proceed p number =
        some ((p.take number s').settle number goal (.inr (some result))) := by
      rw [Machine.proceed, task?_eq_some hp ht, Option.map_some, hs, h]
      rfl
    exact ⟨1, run_cons_eq_some.mpr ⟨_, hstep, rfl⟩⟩
  | @next stage stage' s s' s'' result h hrest ih =>
    set p₁ := (p.take number s').settle number goal (.inl stage') with hp₁
    have hstep : M.proceed p number = some p₁ := by
      rw [Machine.proceed, task?_eq_some hp ht, Option.map_some, hs, h]
      rfl
    have hnodup : p₁.numbers.Nodup := by
      rw [numbers_eq, ((goals_proceed hp hstep).map Prod.fst).nodup_iff, ← numbers_eq]
      exact hp
    obtain ⟨j, hrun⟩ := ih hnodup (List.mem_append_right _ (List.mem_singleton.mpr rfl)) rfl
    refine ⟨j + 1, run_cons_eq_some.mpr ⟨p₁, hstep, hrun.trans ?_⟩⟩
    -- the stage that the task was at is gone, and nothing else is
    have htake : p₁.take number s'' = p.take number s'' := by
      simp [hp₁, take, settle, List.filter_append, List.filter_filter]
    rw [htake]

end Pool

end TaskPool

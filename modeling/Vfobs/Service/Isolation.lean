import Vfobs.Service.Authorization

/-!
# What depends on the repository

Two services that differ only in what their repositories hold, or in how, cannot be told apart by
anyone but the requests that are let in. `Alike` relates them: the same tokens are cached, the same
requests wait for the same calls of vtaskforge, and the same ones have been answered, with the same
operation each. A step keeps this (`Alike.step`), so that a response that fails before it comes to
the repository is the same in both (`outsiders_learn_nothing`).
-/

namespace Vfobs

open StepSystem

namespace Service

variable {ρ σ β : Type}

/-- The same response, unless it comes from the repository. -/
structure SameOutside (r r' : Served β) : Prop where
  number : r.number = r'.number
  op : r.op = r'.op
  result : ∀ failure, r.op = .fail failure → r.result = r'.result

/-- The two services differ only in their repositories and in what comes from them. -/
structure Alike (s : Service ρ β) (t : Service σ β) : Prop where
  app : s.app = t.app
  auth : s.auth = t.auth
  arrived : s.arrived = t.arrived
  pending : s.pending = t.pending
  served : List.Forall₂ SameOutside s.served t.served

namespace Alike

variable {s : Service ρ β} {t : Service σ β}

theorem receive (h : Alike s t) (token : Option String) (request : AppRequest) :
    Alike (s.receive token request) (t.receive token request) where
  app := h.app
  auth := h.auth
  arrived := by rw [Service.receive, Service.receive, h.arrived, h.auth]
  pending := h.pending
  served := h.served

theorem withAuth (h : Alike s t) (auth : AuthWorld β) : Alike (s.withAuth auth) (t.withAuth auth) :=
  { h with auth := rfl }

theorem wait (h : Alike s t) (number : ℕ) (stage : Stage) :
    Alike (s.wait number stage) (t.wait number stage) :=
  { h with pending := by rw [Service.wait, Service.wait, h.pending] }

theorem leave (h : Alike s t) (number : ℕ) : Alike (s.leave number) (t.leave number) :=
  { h with pending := by rw [Service.leave, Service.leave, h.pending] }

variable [EventStore ρ] [EventStore σ] {hashPrefix : String → String}
  {readInt : String → Except String ℤ} {loads : β → Except PyException Json}

theorem respond (h : Alike s t) (number : ℕ) (op : Operation β) :
    Alike (s.respond readInt loads number op) (t.respond readInt loads number op) := by
  refine { h with served := ?_ }
  refine List.rel_append h.served (.cons ⟨rfl, rfl, ?_⟩ .nil)
  rintro failure rfl
  rfl

theorem enter (h : Alike s t) (number : ℕ) (route : Route) :
    Alike (s.enter readInt loads number route) (t.enter readInt loads number route) := by
  rw [Service.enter, Service.enter, h.app]
  cases route.call readInt with
  | error failure => exact h.respond number _
  | ok call =>
    dsimp only
    split_ifs
    · exact h.wait number _
    · exact h.respond number _

theorem getReadPrincipal (h : Alike s t) (number : ℕ) (token : Option String) (route : Route)
    (startedAt : ℚ) :
    Option.Rel Alike (s.getReadPrincipal hashPrefix readInt loads number token route startedAt)
      (t.getReadPrincipal hashPrefix readInt loads number token route startedAt) := by
  rw [Service.getReadPrincipal, Service.getReadPrincipal, h.app, h.auth]
  cases t.app.readAuth with
  | none => exact .some (h.respond number _)
  | some strategy =>
    cases strategy with
    | staticPrincipal principal => exact .some (h.enter number route)
    | vtfToken =>
      cases t.auth.step hashPrefix loads (.verify token startedAt) with
      | none => exact .none
      | some auth =>
        refine .some ?_
        cases t.auth.auth.start hashPrefix token t.auth.clock with
        | missing => exact (h.withAuth auth).respond number _
        | hit principal => exact (h.withAuth auth).enter number route
        | miss token key => exact (h.withAuth auth).wait number _

theorem resume (h : Alike s t) (number : ℕ) (route : Route) (q : Suspended)
    (upstream : Upstream β) :
    Alike (s.resume readInt loads number route q upstream)
      (t.resume readInt loads number route q upstream) := by
  rw [Service.resume, Service.resume, h.auth]
  cases (t.auth.auth.resume q.key q.now (validateToken loads upstream)).1 with
  | ok principal => exact ((h.leave number).withAuth _).enter number route
  | error e => exact ((h.leave number).withAuth _).respond number _

/-- **The step lemma.** -/
theorem step (h : Alike s t) (a : Action β) :
    Option.Rel Alike (s.step hashPrefix readInt loads a) (t.step hashPrefix readInt loads a) := by
  cases a with
  | pass clock =>
    rw [Service.step, Service.step, h.auth]
    cases t.auth.step hashPrefix loads (.pass clock) with
    | none => exact .none
    | some auth => exact .some (h.withAuth auth)
  | arrive token request startedAt =>
    cases request with
    | postEvents body =>
      simp only [Service.step, h.arrived, h.app]
      exact .some ((h.receive _ _).respond _ _)
    | get read =>
      simp only [Service.step, h.arrived]
      cases read.route readInt with
      | error failure => exact .some ((h.receive _ _).respond _ _)
      | ok route => exact (h.receive _ _).getReadPrincipal _ token route startedAt
  | validated call upstream =>
    simp only [Service.step, h.pending, h.auth]
    split
    · exact .some (h.resume _ _ _ _)
    · exact .none
  | fetched number upstream =>
    simp only [Service.step, h.pending]
    split
    · exact .some ((h.leave _).respond _ _)
    · exact .none

end Alike

end Service

end Vfobs

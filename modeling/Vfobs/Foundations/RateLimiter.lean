import Mathlib.Algebra.Order.Group.Defs
import Mathlib.Data.List.Pairwise
import Mathlib.Tactic.Abel

/-!
# A limiter that spaces what it lets through

`Limiter.offer window now` lets `now` through when at least `window` has passed since the last
time it did, and logs it. Times are of any linearly ordered group; the limiter starts at a time
`start` at which nothing has been let through.

`Limiter.Spaced` is what every sequence of offers keeps. From it: what is logged is `window`
apart, and an offer leaves a log entry less than `window` old, unless it comes less than `window`
after the start with nothing logged before (`exists_recent_offer_iff`).
-/

/-- A limiter: when it last let something through, and all the times it did. -/
structure Limiter (τ : Type*) where
  last : τ
  log : List τ

namespace Limiter

variable {τ : Type*} [AddCommGroup τ] [LinearOrder τ] {window start now : τ}
  {l : Limiter τ}

/-- A limiter that has let nothing through. -/
def new (start : τ) : Limiter τ := ⟨start, []⟩

/-- Let `now` through, if enough time has passed. -/
def offer (window now : τ) (l : Limiter τ) : Limiter τ :=
  if window ≤ now - l.last then ⟨now, l.log ++ [now]⟩ else l

/-- What a limiter keeps, whatever it is offered in the order of time. -/
structure Spaced (window start : τ) (l : Limiter τ) : Prop where
  spaced : l.log.Pairwise fun a b => window ≤ b - a
  afterStart : ∀ t ∈ l.log, window ≤ t - start
  le_last : ∀ t ∈ l.log, t ≤ l.last
  last : l.log = [] ∧ l.last = start ∨ l.last ∈ l.log

theorem spaced_new : Spaced window start (new start) where
  spaced := List.Pairwise.nil
  afterStart _ ht := nomatch ht
  le_last _ ht := nomatch ht
  last := .inl ⟨rfl, rfl⟩

/-- An offer logs `now` or nothing. -/
theorem mem_log_offer {t : τ} (ht : t ∈ (l.offer window now).log) : t ∈ l.log ∨ t = now := by
  rw [offer] at ht
  split_ifs at ht
  · exact (List.mem_append.mp ht).imp_right List.mem_singleton.mp
  · exact .inl ht

variable [IsOrderedAddMonoid τ]

/-- **The step lemma.** -/
theorem Spaced.offer (hl : l.Spaced window start) (hwindow : 0 ≤ window) :
    (l.offer window now).Spaced window start := by
  rw [Limiter.offer]
  split_ifs with hpassed
  · have hnow : l.last ≤ now := sub_nonneg.mp (hwindow.trans hpassed)
    constructor
    case spaced =>
      rw [List.pairwise_append]
      refine ⟨hl.spaced, List.pairwise_singleton _ _, fun t ht t' ht' => ?_⟩
      rw [List.mem_singleton.mp ht']
      exact hpassed.trans (sub_le_sub_left (hl.le_last t ht) now)
    case afterStart =>
      intro t ht
      rcases List.mem_append.mp ht with hold | hnew
      · exact hl.afterStart t hold
      · rw [List.mem_singleton.mp hnew]
        obtain ⟨-, hstart⟩ | hlast := hl.last
        · rwa [hstart] at hpassed
        · exact (hl.afterStart _ hlast).trans (sub_le_sub_right hnow start)
    case le_last =>
      intro t ht
      rcases List.mem_append.mp ht with hold | hnew
      · exact (hl.le_last t hold).trans hnow
      · exact (List.mem_singleton.mp hnew).le
    case last => exact .inr (List.mem_append_right _ (List.mem_singleton_self _))
  · exact hl

/-- **When an offer leaves a recent log entry**: when it comes at least `window` after the
start. -/
theorem exists_recent_offer_iff (hl : l.Spaced window start) (hwindow : 0 < window)
    (hnow : ∀ t ∈ l.log, t ≤ now) :
    (∃ t ∈ (l.offer window now).log, now - window < t) ↔ window ≤ now - start := by
  constructor
  · rintro ⟨t, ht, -⟩
    have hle : t ≤ now := (mem_log_offer ht).elim (hnow t) le_of_eq
    exact ((hl.offer hwindow.le).afterStart t ht).trans (sub_le_sub_right hle start)
  · intro hstart
    rw [offer]
    split_ifs with hpassed
    · exact ⟨now, by simp, sub_lt_self now hwindow⟩
    · -- the last entry is recent: it is the start only if nothing has been logged
      obtain ⟨-, hlast⟩ | hlast := hl.last
      · exact absurd (hlast ▸ hstart) hpassed
      · exact ⟨l.last, hlast, sub_lt_comm.mp (not_le.mp hpassed)⟩

end Limiter

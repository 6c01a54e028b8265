import Mathlib.Algebra.Group.Nat.Defs
import Mathlib.Tactic.Common
import Mathlib.Data.Nat.Notation

/-!
# Fixed-width decimal text

`pad n k` writes `k` with `n` digits and `readDigits n` reads exactly `n` digits off the
front of a text; the two are inverse on numbers that fit (`readDigits_pad`).
-/

namespace Digits

/-- The digit `k`, for `k < 10`. -/
def digitChar (k : ℕ) : Char := Char.ofNat (48 + k)

/-- The value of a digit. -/
def digitVal (c : Char) : ℕ := c.toNat - 48

private theorem digit_spec_all :
    ∀ k < 10, digitVal (digitChar k) = k ∧ (digitChar k).isDigit = true := by decide

theorem digitVal_digitChar {k : ℕ} (h : k < 10) : digitVal (digitChar k) = k :=
  (digit_spec_all k h).1

theorem isDigit_digitChar {k : ℕ} (h : k < 10) : (digitChar k).isDigit = true :=
  (digit_spec_all k h).2

/-- The last `n` decimal digits of `k`. -/
def pad : ℕ → ℕ → List Char
  | 0, _ => []
  | n + 1, k => pad n (k / 10) ++ [digitChar (k % 10)]

@[simp]
theorem length_pad (n k : ℕ) : (pad n k).length = n := by
  induction n generalizing k with
  | zero => rfl
  | succ n ih => simp [pad, ih]

theorem isDigit_of_mem_pad {n k : ℕ} {c : Char} (hc : c ∈ pad n k) : c.isDigit = true := by
  induction n generalizing k with
  | zero => simp [pad] at hc
  | succ n ih =>
    rcases List.mem_append.mp hc with h | h
    · exact ih h
    · rw [List.mem_singleton.mp h]
      exact isDigit_digitChar (Nat.mod_lt _ (by decide))

/-- The number a list of digits stands for. -/
def value (ds : List Char) : ℕ := ds.foldl (fun acc c => 10 * acc + digitVal c) 0

theorem value_pad {n k : ℕ} (h : k < 10 ^ n) : value (pad n k) = k := by
  induction n generalizing k with
  | zero => simp only [Nat.pow_zero, Nat.lt_one_iff] at h; subst h; rfl
  | succ n ih =>
    have hdiv : k / 10 < 10 ^ n := by rw [Nat.pow_succ] at h; omega
    have hrec : List.foldl (fun acc c => 10 * acc + digitVal c) 0 (pad n (k / 10)) = k / 10 :=
      ih hdiv
    simp only [value, pad, List.foldl_append, List.foldl_cons, List.foldl_nil, hrec,
      digitVal_digitChar (Nat.mod_lt k (by decide : 0 < 10))]
    omega

/-- Read exactly `n` digits. -/
def readDigits (n : ℕ) (cs : List Char) : Option (ℕ × List Char) :=
  if (cs.take n).length = n ∧ (cs.take n).all Char.isDigit then
    some (value (cs.take n), cs.drop n)
  else none

/-- Reading undoes padding. -/
@[simp]
theorem readDigits_pad {n k : ℕ} (h : k < 10 ^ n) (rest : List Char) :
    readDigits n (pad n k ++ rest) = some (k, rest) := by
  have htake : (pad n k ++ rest).take n = pad n k := by
    rw [List.take_append_of_le_length (by simp), List.take_of_length_le (by simp)]
  have hdrop : (pad n k ++ rest).drop n = rest := by
    rw [List.drop_append_of_le_length (by simp), List.drop_of_length_le (by simp),
      List.nil_append]
  have hall : (pad n k).all Char.isDigit = true :=
    List.all_eq_true.mpr fun c hc => isDigit_of_mem_pad hc
  rw [readDigits, htake, hdrop, if_pos ⟨length_pad n k, hall⟩, value_pad h]

/-- Read one given character. -/
def expect (c : Char) : List Char → Option (List Char)
  | [] => none
  | d :: cs => if d = c then some cs else none

@[simp]
theorem expect_cons (c : Char) (cs : List Char) : expect c (c :: cs) = some cs := if_pos rfl

end Digits

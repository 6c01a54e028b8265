import Vfobs.Foundations.PercentEncoding
import Mathlib.Data.List.Induction
import Mathlib.Data.List.TakeWhile

/-!
# The path of a URL, from client to server

What a client is given after the origin of a URL is not yet the path that the server sees.
`UrlPath.sent` is what the client makes of it: the query and the fragment are cut off, dot
segments are resolved, and the rest is quoted. `UrlPath.received` is what the server reads back.

No step adds ASCII characters, and a step that changes the text loses some. So the path is
received as it was given exactly when there is nothing for the steps to do
(`received_eq_self_iff`).
-/

namespace UrlPath

open Utf8 PercentEncoding

/-- The path of what follows the origin: what comes before a `?` or a `#`. -/
def cut (cs : List Char) : List Char := cs.takeWhile fun c => c ≠ '?' ∧ c ≠ '#'

/-- A `.` or `..`. -/
def isDots (seg : List Char) : Bool := seg = ['.'] ∨ seg = ['.', '.']

/-- Resolve one segment, after those in `output`. -/
def resolve (output : List (List Char)) (seg : List Char) : List (List Char) :=
  if seg = ['.'] then output
  else if seg = ['.', '.'] then
    if output ≠ [] ∧ output ≠ [[]] then output.dropLast else output
  else output ++ [seg]

/-- Resolve the dot segments of a path. -/
def normalize (cs : List Char) : List Char :=
  List.intercalate ['/'] ((cs.splitOn '/').foldl resolve [])

/-- The path that a client sends. -/
def sent (safe : Char → Bool) (cs : List Char) : List Char := quote safe (normalize (cut cs))

/-- The path that the server matches. -/
def received (safe : Char → Bool) (cs : List Char) : List Char :=
  decodeReplace (unquoteBytes (sent safe cs))

/-- A path with a dot segment. -/
def hasDots (cs : List Char) : Bool := (cs.splitOn '/').any isDots

variable {safe : Char → Bool} {cs : List Char}

/-! ### Cutting -/

theorem cut_eq_self (h : ∀ c ∈ cs, c ≠ '?' ∧ c ≠ '#') : cut cs = cs :=
  List.takeWhile_eq_self_iff.mpr fun c hc => decide_eq_true (h c hc)

theorem countP_cut_le (cs : List Char) : (cut cs).countP isAscii ≤ cs.countP isAscii :=
  (List.takeWhile_prefix _).sublist.countP_le

theorem eq_of_countP_cut_eq (h : (cut cs).countP isAscii = cs.countP isAscii) :
    ∀ c ∈ cs, c ≠ '?' ∧ c ≠ '#' := by
  induction cs with
  | nil => nofun
  | cons c cs ih =>
    by_cases hc : c ≠ '?' ∧ c ≠ '#'
    · have hcut : cut (c :: cs) = c :: cut cs := List.takeWhile_cons_of_pos (decide_eq_true hc)
      rw [hcut, List.countP_cons, List.countP_cons, Nat.add_right_cancel_iff] at h
      exact List.forall_mem_cons.mpr ⟨hc, ih h⟩
    · have hcut : cut (c :: cs) = [] := List.takeWhile_cons_of_neg (by simpa using hc)
      have hascii : isAscii c = true := by
        rcases not_and_or.mp hc with hc | hc <;> rw [not_not.mp hc] <;> rfl
      rw [hcut, List.countP_cons_of_pos hascii, List.countP_nil] at h
      omega

/-! ### Dot segments -/

/-- The ASCII characters of segments, each with the `/` before it. -/
def weight : List (List Char) → ℕ
  | [] => 0
  | seg :: segs => seg.countP isAscii + 1 + weight segs

theorem weight_append (segs segs' : List (List Char)) :
    weight (segs ++ segs') = weight segs + weight segs' := by
  induction segs with
  | nil => exact (Nat.zero_add _).symm
  | cons seg segs ih =>
    rw [List.cons_append, weight, weight, ih]
    omega

theorem countP_intercalate {segs : List (List Char)} (h : segs ≠ []) :
    (List.intercalate ['/'] segs).countP isAscii + 1 = weight segs := by
  induction segs with
  | nil => exact absurd rfl h
  | cons seg segs ih =>
    cases segs with
    | nil => simp [weight]
    | cons seg' segs =>
      have ih := ih (List.cons_ne_nil _ _)
      have hslash : ['/'].countP isAscii = 1 := rfl
      rw [List.intercalate_cons_cons, List.countP_append, List.countP_append, hslash, weight]
      omega

theorem weight_dropLast_le (segs : List (List Char)) : weight segs.dropLast ≤ weight segs := by
  cases segs using List.reverseRecOn with
  | nil => exact Nat.le_refl _
  | append_singleton segs seg =>
    rw [List.dropLast_concat, weight_append]
    exact Nat.le_add_right _ _

/-- A dot segment weighs at least two, and resolving it leaves nothing of it. -/
theorem weight_resolve_le (output : List (List Char)) (seg : List Char) :
    weight (resolve output seg) + 2 * (isDots seg).toNat ≤ weight output + weight [seg] := by
  have hdrop := weight_dropLast_le output
  have hdots := Bool.toNat_le (isDots seg)
  rw [resolve]
  split_ifs with hdot hdotdot
  · have hseg : weight [seg] = 2 := hdot ▸ rfl
    omega
  · have hseg : weight [seg] = 3 := hdotdot ▸ rfl
    omega
  · have hseg : weight [seg] = 3 := hdotdot ▸ rfl
    omega
  · have hno : isDots seg = false := by simp [isDots, hdot, hdotdot]
    rw [weight_append, hno]
    exact Nat.le_refl _

theorem weight_foldl_resolve_le (output segs : List (List Char)) :
    weight (segs.foldl resolve output) + 2 * (segs.any isDots).toNat ≤
      weight output + weight segs := by
  induction segs generalizing output with
  | nil => exact Nat.le_refl _
  | cons seg segs ih =>
    have hstep := weight_resolve_le output seg
    have ih := ih (resolve output seg)
    have hweight : weight (seg :: segs) = weight [seg] + weight segs := weight_append [seg] segs
    have hor : (isDots seg || segs.any isDots).toNat ≤
        (isDots seg).toNat + (segs.any isDots).toNat := by
      cases isDots seg <;> simp
    rw [List.foldl_cons, List.any_cons, hweight]
    omega

theorem foldl_resolve_of_not_any {segs : List (List Char)} (h : ¬ segs.any isDots)
    (output : List (List Char)) : segs.foldl resolve output = output ++ segs := by
  induction segs generalizing output with
  | nil => simp
  | cons seg segs ih =>
    rw [List.any_cons, Bool.or_eq_true, not_or] at h
    have hseg : resolve output seg = output ++ [seg] := by
      simp only [isDots, decide_eq_true_eq, not_or] at h
      rw [resolve, if_neg h.1.1, if_neg h.1.2]
    rw [List.foldl_cons, hseg, ih h.2, List.append_assoc, List.singleton_append]

theorem normalize_eq_self (h : ¬ hasDots cs) : normalize cs = cs := by
  rw [normalize, foldl_resolve_of_not_any h, List.nil_append, List.intercalate_splitOn]

theorem countP_normalize_le (cs : List Char) :
    (normalize cs).countP isAscii + (hasDots cs).toNat ≤ cs.countP isAscii := by
  have hweight := weight_foldl_resolve_le [] (cs.splitOn '/')
  have hcs := countP_intercalate (List.splitOn_ne_nil '/' cs)
  rw [List.intercalate_splitOn] at hcs
  rw [normalize, hasDots]
  rw [show weight [] = 0 from rfl] at hweight
  by_cases hnil : (cs.splitOn '/').foldl resolve [] = []
  · rw [hnil, List.intercalate_nil, List.countP_nil]
    omega
  · have hresolved := countP_intercalate hnil
    omega

/-- **The path is received as it was given** exactly when the client has nothing to cut off,
nothing to resolve and the server nothing to unescape. -/
theorem received_eq_self_iff (hsafe : safe '%' = false) : received safe cs = cs ↔
    (∀ c ∈ cs, c ≠ '?' ∧ c ≠ '#') ∧ ¬ hasDots cs ∧ ¬ hasEscape cs := by
  rw [received, sent, unquoteBytes_quote hsafe]
  constructor
  · intro h
    have hdecode := countP_isAscii_decodeReplace (unquoteBytes (normalize (cut cs)))
    have hread := countP_unquoteBytes_le (normalize (cut cs))
    have hnormalize := countP_normalize_le (cut cs)
    have hcut := countP_cut_le cs
    rw [h] at hdecode
    have hkeep : ∀ c ∈ cs, c ≠ '?' ∧ c ≠ '#' := eq_of_countP_cut_eq (by omega)
    rw [cut_eq_self hkeep] at hdecode hread hnormalize
    have hdots : ¬ hasDots cs := fun hdots => by
      rw [hdots, Bool.toNat_true] at hnormalize
      omega
    rw [normalize_eq_self hdots] at hdecode hread
    have hescape : ¬ hasEscape cs := fun hescape => by
      rw [if_pos hescape] at hread
      omega
    exact ⟨hkeep, hdots, hescape⟩
  · rintro ⟨hkeep, hdots, hescape⟩
    rw [cut_eq_self hkeep, normalize_eq_self hdots, unquoteBytes_of_not_hasEscape hescape,
      decodeReplace_encode]

end UrlPath

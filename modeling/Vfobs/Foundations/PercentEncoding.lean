import Vfobs.Foundations.Utf8

/-!
# Percent-encoding

`quote` writes a text so that it can stand in a URL: what is an escape already stays as it is,
and every other character that is not safe becomes the escapes of its bytes. `unquoteBytes` reads
the bytes of a text back, those that its escapes stand for.

`unquoteBytes_quote`: quoting changes nothing about what is read back. What is read back is the
text itself when it has no escape (`unquoteBytes_of_not_hasEscape`), and it has fewer ASCII bytes
than the text has ASCII characters when it has one (`countP_unquoteBytes_lt`).
-/

namespace PercentEncoding

open Utf8

/-- The value of a hexadecimal digit. -/
def hexValue? (c : Char) : Option ℕ :=
  if '0' ≤ c ∧ c ≤ '9' then some (c.toNat - '0'.toNat) else
  if 'A' ≤ c ∧ c ≤ 'F' then some (c.toNat - 'A'.toNat + 10) else
  if 'a' ≤ c ∧ c ≤ 'f' then some (c.toNat - 'a'.toNat + 10) else none

/-- The byte that the digits of an escape stand for. -/
def hexByte? (a b : Char) : Option UInt8 :=
  (hexValue? a).bind fun x => (hexValue? b).map fun y => UInt8.ofNat (16 * x + y)

/-- The digit of a value below 16. -/
def hexDigit (n : ℕ) : Char := Char.ofNat (if n < 10 then '0'.toNat + n else 'A'.toNat + n - 10)

/-- The escape of a byte. -/
def escapeByte (b : UInt8) : List Char := ['%', hexDigit (b.toNat / 16), hexDigit (b.toNat % 16)]

/-- The escapes of the bytes of a character. -/
def escapeChar (c : Char) : List Char := (String.utf8EncodeChar c).flatMap escapeByte

/-- Escape what is neither safe nor part of an escape. -/
def quote (safe : Char → Bool) : List Char → List Char
  | '%' :: a :: b :: cs =>
    if (hexByte? a b).isSome then '%' :: a :: b :: quote safe cs
    else (if safe '%' then ['%'] else escapeChar '%') ++ quote safe (a :: b :: cs)
  | c :: cs => (if safe c then [c] else escapeChar c) ++ quote safe cs
  | [] => []

/-- The bytes of a text, those that its escapes stand for. -/
def unquoteBytes : List Char → List UInt8
  | '%' :: a :: b :: cs =>
    match hexByte? a b with
    | some byte => byte :: unquoteBytes cs
    | none => String.utf8EncodeChar '%' ++ unquoteBytes (a :: b :: cs)
  | c :: cs => String.utf8EncodeChar c ++ unquoteBytes cs
  | [] => []

/-- The text has an escape. -/
def hasEscape : List Char → Bool
  | '%' :: a :: b :: cs => (hexByte? a b).isSome || hasEscape (a :: b :: cs)
  | _ :: cs => hasEscape cs
  | [] => false

variable {safe : Char → Bool} {a b c : Char} {cs : List Char}

theorem isAscii_of_hexValue?_eq_some {n : ℕ} (h : hexValue? c = some n) : isAscii c := by
  have hle {d : Char} (hd : c ≤ d) : c.val.toNat ≤ d.val.toNat := hd
  rw [isAscii_iff]
  rw [hexValue?] at h
  split_ifs at h with hdigit hupper hlower
  · exact Nat.lt_of_le_of_lt (hle hdigit.2) (by decide)
  · exact Nat.lt_of_le_of_lt (hle hupper.2) (by decide)
  · exact Nat.lt_of_le_of_lt (hle hlower.2) (by decide)

theorem hexValue?_hexDigit : ∀ n < 16, hexValue? (hexDigit n) = some n := by decide

theorem hexByte?_escapeByte (b : UInt8) :
    hexByte? (hexDigit (b.toNat / 16)) (hexDigit (b.toNat % 16)) = some b := by
  have hb := b.toNat_lt
  rw [hexByte?, hexValue?_hexDigit _ (by omega), hexValue?_hexDigit _ (by omega)]
  simp only [Option.bind_some, Option.map_some, Option.some.injEq]
  rw [Nat.div_add_mod, UInt8.ofNat_toNat]

theorem unquoteBytes_escapeByte (b : UInt8) (cs : List Char) :
    unquoteBytes (escapeByte b ++ cs) = b :: unquoteBytes cs := by
  simp [escapeByte, unquoteBytes, hexByte?_escapeByte]

theorem unquoteBytes_escapeChar (c : Char) (cs : List Char) :
    unquoteBytes (escapeChar c ++ cs) = String.utf8EncodeChar c ++ unquoteBytes cs := by
  rw [escapeChar]
  induction String.utf8EncodeChar c with
  | nil => rfl
  | cons b bytes ih =>
    rw [List.flatMap_cons, List.append_assoc, unquoteBytes_escapeByte, ih, List.cons_append]

theorem unquoteBytes_cons (h : c ≠ '%') (cs : List Char) :
    unquoteBytes (c :: cs) = String.utf8EncodeChar c ++ unquoteBytes cs := by
  rw [unquoteBytes]
  rintro a b cs rfl
  exact absurd rfl h

/-- **Quoting changes nothing about what is read back.** -/
theorem unquoteBytes_quote (hsafe : safe '%' = false) (cs : List Char) :
    unquoteBytes (quote safe cs) = unquoteBytes cs := by
  fun_induction quote safe cs with
  | case1 a b cs h ih =>
    obtain ⟨byte, hbyte⟩ := Option.isSome_iff_exists.mp h
    simp only [unquoteBytes, hbyte, ih]
  | case2 a b cs h ih =>
    rw [Option.not_isSome_iff_eq_none] at h
    rw [hsafe, if_neg Bool.false_ne_true, unquoteBytes_escapeChar, ih]
    simp only [unquoteBytes, h]
  | case3 c cs h ih =>
    have hcons : unquoteBytes (c :: cs) = String.utf8EncodeChar c ++ unquoteBytes cs := by
      rw [unquoteBytes]
      exact h
    rw [hcons, ← ih]
    split_ifs with hc
    · refine unquoteBytes_cons ?_ _
      rintro rfl
      exact Bool.false_ne_true (hsafe.symm.trans hc)
    · exact unquoteBytes_escapeChar c _
  | case4 => rfl

/-- A text without an escape is read back as it is. -/
theorem unquoteBytes_of_not_hasEscape (h : ¬ hasEscape cs) : unquoteBytes cs = encode cs := by
  fun_induction unquoteBytes cs with
  | case1 a b cs byte hbyte ih => simp [hasEscape, hbyte] at h
  | case2 a b cs hnone ih =>
    rw [hasEscape, hnone, Option.isSome_none, Bool.false_or] at h
    rw [ih h]
    rfl
  | case3 c cs hno ih =>
    rw [hasEscape] at h
    · rw [ih h]
      rfl
    · exact hno
  | case4 => rfl

theorem isAscii_of_hexByte?_eq_some {byte : UInt8} (h : hexByte? a b = some byte) :
    isAscii a ∧ isAscii b := by
  obtain ⟨x, hx, hy⟩ := Option.bind_eq_some_iff.mp h
  obtain ⟨y, hy, -⟩ := Option.map_eq_some_iff.mp hy
  exact ⟨isAscii_of_hexValue?_eq_some hx, isAscii_of_hexValue?_eq_some hy⟩

/-- Reading a text back makes no ASCII bytes, and loses some when it has an escape. -/
theorem countP_unquoteBytes_le (cs : List Char) :
    (unquoteBytes cs).countP isAsciiByte + (if hasEscape cs then 1 else 0) ≤
      cs.countP isAscii := by
  have hone (c : Char) (l : List UInt8) : (String.utf8EncodeChar c ++ l).countP isAsciiByte =
      [c].countP isAscii + l.countP isAsciiByte := by
    rw [List.countP_append, countP_isAsciiByte_utf8EncodeChar]
  have hcons (c : Char) (l : List Char) : (c :: l).countP isAscii =
      [c].countP isAscii + l.countP isAscii := by
    rw [← List.countP_append, List.singleton_append]
  fun_induction unquoteBytes cs with
  | case1 a b cs byte hbyte ih =>
    obtain ⟨ha, hb⟩ := isAscii_of_hexByte?_eq_some hbyte
    have hpercent : isAscii '%' = true := rfl
    rw [List.countP_cons_of_pos hpercent, List.countP_cons_of_pos ha, List.countP_cons_of_pos hb,
      List.countP_cons]
    split_ifs at ih ⊢ <;> omega
  | case2 a b cs hnone ih =>
    rw [hasEscape, hnone, Option.isSome_none, Bool.false_or, hone,
      hcons '%' (a :: b :: cs)]
    omega
  | case3 c cs hno ih =>
    rw [hasEscape, hone, hcons c cs]
    · omega
    · exact hno
  | case4 => exact Nat.le_refl _

/-! ### Escapes in a part of a text -/

theorem hasEscape_append_of_notMem {pre : List Char} (h : '%' ∉ pre) (cs : List Char) :
    hasEscape (pre ++ cs) = hasEscape cs := by
  induction pre with
  | nil => rfl
  | cons c pre ih =>
    rw [List.mem_cons, not_or] at h
    rw [List.cons_append, hasEscape, ih h.2]
    rintro a b cs rfl
    exact absurd rfl h.1

theorem hasEscape_eq_false_of_notMem (h : '%' ∉ cs) : hasEscape cs = false := by
  rw [← List.append_nil cs, hasEscape_append_of_notMem h]
  rfl

/-- An escape does not reach beyond a character that is no digit. -/
theorem hasEscape_append_cons {d : Char} {post : List Char} (hd : hexValue? d = none)
    (hpost : '%' ∉ d :: post) : hasEscape (cs ++ d :: post) = hasEscape cs := by
  fun_induction hasEscape cs with
  | case1 a b cs ih =>
    simp only [List.cons_append] at ih ⊢
    rw [hasEscape, ih]
  | case2 c cs hno ih =>
    rw [← ih, List.cons_append]
    by_cases hc : c = '%'
    · subst hc
      match cs with
      | [] =>
        cases post with
        | nil => rfl
        | cons p post => simp [hasEscape, hexByte?, hd]
      | [x] => simp [hasEscape, hexByte?, hd]
      | x :: y :: cs => exact absurd rfl fun h => hno x y cs h rfl
    · rw [hasEscape]
      rintro a b l rfl
      exact absurd rfl hc
  | case3 => exact hasEscape_eq_false_of_notMem hpost

end PercentEncoding

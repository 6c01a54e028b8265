import Mathlib.Data.List.Basic

/-!
# Texts and their bytes

`Utf8.decodeReplace` decodes bytes as Python's `bytes.decode("utf-8", "replace")` does: what is
not UTF-8 becomes U+FFFD, one for each maximal start of a sequence. `decodeReplace_encode` reads
back what was encoded; and whatever the bytes are, as many ASCII characters come out as ASCII
bytes go in (`countP_isAscii_decodeReplace`).
-/

namespace Utf8

/-- The bytes of a text. -/
def encode (cs : List Char) : List UInt8 := cs.flatMap String.utf8EncodeChar

/-- The character that some bytes begin with. -/
def decodeChar? (bytes : List UInt8) : Option Char := bytes.toByteArray.utf8DecodeChar? 0

/-- The range of the bytes that may follow a first byte. -/
def secondRange (b : UInt8) : UInt8 × UInt8 :=
  if b = 0xE0 then (0xA0, 0xBF) else
  if b = 0xED then (0x80, 0x9F) else
  if b = 0xF0 then (0x90, 0xBF) else
  if b = 0xF4 then (0x80, 0x8F) else (0x80, 0xBF)

/-- How many bytes are replaced along with a first byte from which no character is decoded. -/
def maximalSubpart (b : UInt8) : List UInt8 → ℕ
  | [] => 0
  | c :: bytes =>
    if 0xE0 ≤ b ∧ b ≤ 0xF4 ∧ (secondRange b).1 ≤ c ∧ c ≤ (secondRange b).2 then
      match bytes with
      | [] => 1
      | d :: _ => if 0xF0 ≤ b ∧ 0x80 ≤ d ∧ d ≤ 0xBF then 2 else 1
    else 0

/-- The loop of `decodeReplace`. -/
def decodeLoop : ℕ → List UInt8 → List Char
  | 0, _ | _, [] => []
  | fuel + 1, b :: bytes =>
    match decodeChar? (b :: bytes) with
    | some c => c :: decodeLoop fuel ((b :: bytes).drop c.utf8Size)
    | none => '\uFFFD' :: decodeLoop fuel (bytes.drop (maximalSubpart b bytes))

/-- Decode bytes, replacing what is not UTF-8. -/
def decodeReplace (bytes : List UInt8) : List Char := decodeLoop bytes.length bytes

/-- An ASCII character. -/
def isAscii (c : Char) : Bool := c.toNat < 128

/-- An ASCII byte. -/
def isAsciiByte (b : UInt8) : Bool := b.toNat < 128

theorem decodeChar?_append (c : Char) (bytes : List UInt8) :
    decodeChar? (String.utf8EncodeChar c ++ bytes) = some c := by
  rw [decodeChar?, List.toByteArray_append, ByteArray.utf8DecodeChar?_utf8EncodeChar_append]

theorem exists_of_decodeChar?_eq_some {bytes : List UInt8} {c : Char}
    (h : decodeChar? bytes = some c) : ∃ rest, bytes = String.utf8EncodeChar c ++ rest := by
  obtain ⟨l, hl⟩ := ByteArray.exists_of_utf8DecodeChar?_eq_some h
  refine ⟨l.data.toList, List.toByteArray_inj.mp ?_⟩
  rw [hl, List.toByteArray_append]
  congr 1
  ext1
  simp

theorem isAscii_iff {c : Char} : isAscii c = true ↔ c.val.toNat < 128 := decide_eq_true_iff

theorem isAsciiByte_ofNat {n : ℕ} (h : n < 256) :
    isAsciiByte (UInt8.ofNat n) = decide (n < 128) := by
  rw [isAsciiByte, UInt8.toNat_ofNat', Nat.mod_eq_of_lt h]

theorem isAsciiByte_ofNat_eq_false {n : ℕ} (h : 128 ≤ n) (h' : n < 256) :
    ¬ isAsciiByte (UInt8.ofNat n) = true := by
  rw [isAsciiByte_ofNat h', decide_eq_true_iff]
  omega

/-- A character has an ASCII byte when it is ASCII itself. -/
theorem countP_isAsciiByte_utf8EncodeChar (c : Char) :
    (String.utf8EncodeChar c).countP isAsciiByte = [c].countP isAscii := by
  fun_cases String.utf8EncodeChar c with
  | case1 v hv =>
    have hascii : isAscii c = true := isAscii_iff.mpr (by omega)
    have hbyte : isAsciiByte (UInt8.ofNat v) = true := by
      rw [isAsciiByte_ofNat (by omega), decide_eq_true_iff]
      omega
    rw [List.countP_cons_of_pos hbyte, List.countP_cons_of_pos hascii]
    rfl
  | case2 v hv =>
    have hascii : ¬ isAscii c = true := fun h => hv (by have := isAscii_iff.mp h; omega)
    rw [List.countP_cons_of_neg hascii]
    iterate 2 rw [List.countP_cons_of_neg (isAsciiByte_ofNat_eq_false (by omega) (by omega))]
    rfl
  | case3 v hv =>
    have hascii : ¬ isAscii c = true := fun h => hv (by have := isAscii_iff.mp h; omega)
    rw [List.countP_cons_of_neg hascii]
    iterate 3 rw [List.countP_cons_of_neg (isAsciiByte_ofNat_eq_false (by omega) (by omega))]
    rfl
  | case4 v hv =>
    have hascii : ¬ isAscii c = true := fun h => hv (by have := isAscii_iff.mp h; omega)
    rw [List.countP_cons_of_neg hascii]
    iterate 4 rw [List.countP_cons_of_neg (isAsciiByte_ofNat_eq_false (by omega) (by omega))]
    rfl

/-- An ASCII byte is a character. -/
theorem decodeChar?_isSome_of_isAsciiByte {b : UInt8} (h : isAsciiByte b) (bytes : List UInt8) :
    ∃ c, decodeChar? (b :: bytes) = some c := by
  have hb := of_decide_eq_true h
  have hchar : String.utf8EncodeChar (Char.ofNat b.toNat) = [b] := by
    have hval : (Char.ofNat b.toNat).val.toNat = b.toNat := by
      rw [Char.ofNat, dif_pos (.inl (by omega))]
      rfl
    rw [String.utf8EncodeChar]
    simp only [hval]
    rw [if_pos (by omega), UInt8.ofNat_toNat]
  exact ⟨_, hchar ▸ decodeChar?_append (Char.ofNat b.toNat) bytes⟩

/-- What is replaced along with a first byte are no ASCII bytes. -/
theorem countP_drop_maximalSubpart (b : UInt8) (bytes : List UInt8) :
    (bytes.drop (maximalSubpart b bytes)).countP isAsciiByte = bytes.countP isAsciiByte := by
  have hlow : 0x80 ≤ (secondRange b).1 := by
    rw [secondRange]
    split_ifs <;> decide
  have hcons {c : UInt8} (hc : 0x80 ≤ c) (l : List UInt8) :
      (c :: l).countP isAsciiByte = l.countP isAsciiByte := by
    refine List.countP_cons_of_neg fun h => ?_
    have := of_decide_eq_true h
    have := UInt8.le_iff_toNat_le.mp hc
    simp only [UInt8.toNat_ofNat] at this
    omega
  fun_cases maximalSubpart b bytes with
  | case1 => rfl
  | case2 c h => exact (hcons (UInt8.le_trans hlow h.2.2.1) _).symm
  | case3 c h d l h' =>
    exact ((hcons (UInt8.le_trans hlow h.2.2.1) _).trans (hcons h'.2.1 _)).symm
  | case4 c h d l h' => exact (hcons (UInt8.le_trans hlow h.2.2.1) _).symm
  | case5 => rfl

/-- A character at the front is decoded. -/
theorem decodeLoop_append (fuel : ℕ) (c : Char) (rest : List UInt8) :
    decodeLoop (fuel + 1) (String.utf8EncodeChar c ++ rest) = c :: decodeLoop fuel rest := by
  have hdecode := decodeChar?_append c rest
  have hdrop : (String.utf8EncodeChar c ++ rest).drop c.utf8Size = rest := by
    rw [← String.length_utf8EncodeChar, List.drop_left]
  cases hbytes : String.utf8EncodeChar c ++ rest with
  | nil =>
    have hpos := c.utf8Size_pos
    have hlength := congrArg List.length (List.append_eq_nil_iff.mp hbytes).1
    rw [String.length_utf8EncodeChar, List.length_nil] at hlength
    omega
  | cons b bytes =>
    rw [hbytes] at hdecode hdrop
    simp only [decodeLoop, hdecode, hdrop]

theorem countP_isAscii_decodeLoop {fuel : ℕ} {bytes : List UInt8} (h : bytes.length ≤ fuel) :
    (decodeLoop fuel bytes).countP isAscii = bytes.countP isAsciiByte := by
  induction fuel generalizing bytes with
  | zero => rw [List.length_eq_zero_iff.mp (Nat.le_zero.mp h)]; rfl
  | succ fuel ih =>
    cases bytes with
    | nil => rfl
    | cons b bytes =>
      cases hdecode : decodeChar? (b :: bytes) with
      | some c =>
        obtain ⟨rest, hrest⟩ := exists_of_decodeChar?_eq_some hdecode
        have hle : rest.length ≤ fuel := by
          have hpos := c.utf8Size_pos
          rw [hrest, List.length_append, String.length_utf8EncodeChar] at h
          omega
        rw [hrest, decodeLoop_append, List.countP_append, countP_isAsciiByte_utf8EncodeChar,
          ← ih hle, ← List.countP_append, List.singleton_append]
      | none =>
        have hb : ¬ isAsciiByte b = true := fun hb => by
          obtain ⟨c, hc⟩ := decodeChar?_isSome_of_isAsciiByte hb bytes
          exact absurd (hdecode.symm.trans hc) nofun
        have hle : (bytes.drop (maximalSubpart b bytes)).length ≤ fuel := by
          rw [List.length_cons] at h
          rw [List.length_drop]
          omega
        simp only [decodeLoop, hdecode]
        rw [List.countP_cons_of_neg (by decide), List.countP_cons_of_neg hb, ih hle,
          countP_drop_maximalSubpart]

/-- **The ASCII characters of what is decoded are the ASCII bytes.** -/
theorem countP_isAscii_decodeReplace (bytes : List UInt8) :
    (decodeReplace bytes).countP isAscii = bytes.countP isAsciiByte :=
  countP_isAscii_decodeLoop (Nat.le_refl _)

theorem decodeLoop_encode {fuel : ℕ} {cs : List Char} (h : (encode cs).length ≤ fuel) :
    decodeLoop fuel (encode cs) = cs := by
  induction cs generalizing fuel with
  | nil => cases fuel <;> rfl
  | cons c cs ih =>
    have hcons : encode (c :: cs) = String.utf8EncodeChar c ++ encode cs := rfl
    have hpos := c.utf8Size_pos
    rw [hcons, List.length_append, String.length_utf8EncodeChar] at h
    cases fuel with
    | zero => omega
    | succ fuel => rw [hcons, decodeLoop_append, ih (by omega)]

/-- **What was encoded is read back.** -/
theorem decodeReplace_encode (cs : List Char) : decodeReplace (encode cs) = cs :=
  decodeLoop_encode (Nat.le_refl _)

end Utf8

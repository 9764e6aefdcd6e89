import HexLang.Proofs.Grammar
import HexLang.Proofs.Segmentation
import HexLang.Numeral

/-! The literal that a natural number is written as is read back as that number,
and every other literal of the number has more digits. -/

namespace HexLang

/-- The text is a literal, and its digits make up the number in base sixteen. -/
def LiteralOf (n : Nat) (text : Text) : Prop :=
  isLiteral text = true ∧ Nat.ofDigits 16 (text.reverse.map digitValue) = n

theorem digitValue_digitChar {n : Nat} (h : n < 16) : digitValue n.digitChar = n := by
  have hall : ∀ i : Fin 16, digitValue (Nat.digitChar i) = i := by decide
  exact hall ⟨n, h⟩

theorem isHexDigit_digitChar {n : Nat} (h : n < 16) : isHexDigit n.digitChar = true := by
  have hall : ∀ i : Fin 16, isHexDigit (Nat.digitChar i) = true := by decide
  exact hall ⟨n, h⟩

theorem digitChar_digitValue {c : Char} (h : isHexDigit c = true) :
    (digitValue c).digitChar = c ∧ digitValue c < 16 := by
  have hall : ∀ i : Fin 103, isHexDigit (Char.ofNat i) = true →
      (digitValue (Char.ofNat i)).digitChar = Char.ofNat i ∧ digitValue (Char.ofNat i) < 16 := by
    decide
  have hle : c ≤ 'f' := by
    simp only [isHexDigit, Bool.or_eq_true, Bool.and_eq_true, decide_eq_true_eq] at h
    rcases h with hd | ha
    · exact Char.le_trans (of_decide_eq_true (Bool.and_eq_true_iff.mp hd).2) (by decide)
    · exact ha.2
  have hlt : c.toNat < 103 := Nat.lt_succ_of_le hle
  have hc := hall ⟨c.toNat, hlt⟩
  rw [Char.ofNat_toNat] at hc
  exact hc h

theorem literalValue_concat (text : Text) (c : Char) :
    literalValue (text ++ [c]) = 16 * literalValue text + digitValue c := by
  simp [literalValue]

theorem literalValue_cons_zero (text : Text) : literalValue ('0' :: text) = literalValue text :=
  rfl

/-- A number is written with the digits of its sixteenth part, and one digit more. -/
theorem toDigits_sixteen_induct {P : Nat → Text → Prop}
    (hlast : ∀ n, n < 16 → P n [n.digitChar])
    (hmore : ∀ n text, P (n / 16) text → P n (text ++ [(n % 16).digitChar])) (n : Nat) :
    P n (Nat.toDigits 16 n) := by
  induction n using Nat.strong_induction_on with
  | _ n ih =>
    rw [Nat.toDigits_eq_if (by decide)]
    split
    · rename_i h
      exact hlast n h
    · rename_i h
      exact hmore n _ (ih (n / 16) (by omega))

theorem literalValue_toDigits (n : Nat) : literalValue (Nat.toDigits 16 n) = n := by
  refine toDigits_sixteen_induct (P := fun n text => literalValue text = n) (fun n h => ?_)
    (fun n text ih => ?_) n
  · exact (literalValue_concat [] _).trans (by simp [literalValue, digitValue_digitChar h])
  · rw [literalValue_concat, ih, digitValue_digitChar (Nat.mod_lt n (by decide))]
    omega

theorem all_isHexDigit_toDigits (n : Nat) : (Nat.toDigits 16 n).all isHexDigit = true := by
  refine toDigits_sixteen_induct (P := fun _ text => text.all isHexDigit = true) (fun n h => ?_)
    (fun n text ih => ?_) n
  · simp [isHexDigit_digitChar h]
  · simp [List.all_append, ih, isHexDigit_digitChar (Nat.mod_lt n (by decide))]

theorem hexLiteral_natCast (n : Nat) : hexLiteral n =
    if (Nat.toDigits 16 n).head?.any Char.isDigit then Nat.toDigits 16 n
    else '0' :: Nat.toDigits 16 n := by
  have hsign : sign n = [] := if_neg (by omega)
  rw [hexLiteral, hsign, List.nil_append, Int.natAbs_natCast]

theorem literalValue_hexLiteral (n : Nat) : literalValue (hexLiteral n) = n := by
  rw [hexLiteral_natCast]
  split
  · exact literalValue_toDigits n
  · rw [literalValue_cons_zero, literalValue_toDigits]

theorem isLiteral_iff {text : Text} : isLiteral text = true ↔
    text.head?.any Char.isDigit = true ∧ text.all isHexDigit = true := by
  cases text with
  | nil => simp [isLiteral]
  | cons c rest =>
    simp only [isLiteral, List.head?_cons, Option.any_some, List.all_cons, Bool.and_eq_true]
    exact ⟨fun h => ⟨h.1, isHexDigit_of_isDigit h.1, h.2⟩, fun h => ⟨h.1, h.2.2⟩⟩

theorem isLiteral_hexLiteral (n : Nat) : isLiteral (hexLiteral n) = true := by
  have hall := all_isHexDigit_toDigits n
  rw [isLiteral_iff, hexLiteral_natCast]
  split
  · rename_i hd
    exact ⟨hd, hall⟩
  · exact ⟨rfl, hall⟩

theorem literalOf_hexLiteral (n : Nat) : LiteralOf n (hexLiteral n) :=
  ⟨isLiteral_hexLiteral n, by rw [← literalValue_eq_ofDigits, literalValue_hexLiteral]⟩

/-- The digits that a text of digits could do without are zeros at its front. -/
theorem exists_zeros_append_toDigits {text : Text} (hne : text ≠ [])
    (h : text.all isHexDigit = true) :
    ∃ k, text = List.replicate k '0' ++ Nat.toDigits 16 (literalValue text) := by
  induction text using List.reverseRecOn with
  | nil => exact absurd rfl hne
  | append_singleton init c ih =>
    simp only [List.all_append, Bool.and_eq_true, List.all_cons, List.all_nil, and_true] at h
    obtain ⟨hchar, hlt⟩ := digitChar_digitValue h.2
    rw [literalValue_concat, Nat.toDigits_eq_if (by decide)]
    by_cases hinit : init = []
    · subst hinit
      exact ⟨0, by simp [literalValue, hlt, hchar]⟩
    · obtain ⟨k, hk⟩ := ih hinit h.1
      by_cases hzero : literalValue init = 0
      · -- the digits before the last are zeros, and are all left out
        refine ⟨k + 1, ?_⟩
        rw [hzero, Nat.toDigits_zero, ← List.replicate_succ'] at hk
        rw [hzero, Nat.mul_zero, Nat.zero_add, if_pos hlt, hchar, ← hk]
      · have hlarge : ¬ 16 * literalValue init + digitValue c < 16 := by omega
        have hdiv : (16 * literalValue init + digitValue c) / 16 = literalValue init := by omega
        have hmod : (16 * literalValue init + digitValue c) % 16 = digitValue c := by omega
        refine ⟨k, ?_⟩
        rw [if_neg hlarge, hdiv, hmod, hchar, ← List.append_assoc, ← hk]

/-- A literal of the number is the one it is written as, or is longer. -/
theorem LiteralOf.eq_or_length_lt {n : Nat} {text : Text} (h : LiteralOf n text) :
    text = hexLiteral n ∨ (hexLiteral n).length < text.length := by
  obtain ⟨hlit, hvalue⟩ := h
  rw [← literalValue_eq_ofDigits] at hvalue
  obtain ⟨hhead, hall⟩ := isLiteral_iff.mp hlit
  have hne : text ≠ [] := by
    rintro rfl
    simp at hhead
  obtain ⟨k, hk⟩ := exists_zeros_append_toDigits hne hall
  rw [hvalue] at hk
  rw [hexLiteral_natCast]
  generalize Nat.toDigits 16 n = digits at hk ⊢
  subst hk
  match k with
  | 0 =>
    left
    exact (if_pos hhead).symm
  | 1 =>
    split
    · right
      simp
    · left
      rfl
  | k + 2 =>
    right
    have hlength : (List.replicate (k + 2) '0' ++ digits).length = k + 2 + digits.length := by simp
    split
    · omega
    · rw [List.length_cons]
      omega

end HexLang

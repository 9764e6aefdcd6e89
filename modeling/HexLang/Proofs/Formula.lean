import HexLang.Proofs.Parsing
import HexLang.Proofs.Words

/-! Formulas over natural numbers, written with brackets wherever precedence
asks for them and wherever else one likes. Whatever the writing, a program
that consists of a formula answers with its exact value. -/

namespace HexLang

inductive Formula where
  | literal (n : Nat)
  | binary (o : BinaryOperator) (l r : Formula)

/-- The value in exact integers, unless a divisor on the way is zero. -/
def Formula.value : Formula → Option Int
  | .literal n => some n
  | .binary o l r => do
    let a ← l.value
    let b ← r.value
    if o = .div ∧ b = 0 then none else some (o.exact a b)

/-- What a program answers that consists of the formula. -/
def Formula.answer (a : Formula) : Answer :=
  match a.value with
  | some v => .value (some v)
  | none => .message "Division by zero".toList

def BinaryOperator.strength : BinaryOperator → Nat
  | .add | .sub => 0
  | .mul | .div => 1

/-- The ways to write a formula, and how strongly each holds together. The left operand of an
operator must hold together as strongly as the operator does, and the right one more strongly.
Brackets are stronger than every operator, and may stand around everything. -/
inductive Written : Nat → Formula → List Word → Prop where
  | literal {n : Nat} : Written 2 (.literal n) [.literal n]
  | brackets {k : Nat} {a : Formula} {ws : List Word} : Written k a ws →
      Written 2 a (.opening :: (ws ++ [.closing]))
  | binary {i k : Nat} {l r : Formula} {ls rs : List Word} {o : BinaryOperator} :
      Written i l ls → o.strength ≤ i → Written k r rs → o.strength < k →
      Written o.strength (.binary o l r) (ls ++ .operator o :: rs)

theorem Written.ne_nil {k : Nat} {a : Formula} {ws : List Word} (h : Written k a ws) : ws ≠ [] := by
  cases h <;> simp

section Reading

/-- The tier at which an expression of this strength is read. -/
def tierOf : Nat → Tier
  | 0 => .sum
  | 1 => .product
  | _ => .factor

theorem Derives.weaken {i k : Nat} {ts : List Token} {e : Expr} (h : Derives (tierOf k) ts e)
    (hi : i ≤ k) : Derives (tierOf i) ts e := by
  induction k with
  | zero => rwa [Nat.le_zero.mp hi]
  | succ k ih =>
    rcases Nat.le_or_eq_of_le_succ hi with hle | rfl
    · refine ih ?_ hle
      match k with
      | 0 => exact .product h
      | 1 => exact .factor h
      | k + 2 => exact h
    · exact h

theorem Derives.binary {ls rs : List Token} {t : Token} {l r : Expr} {o : BinaryOperator}
    (hl : Derives (tierOf o.strength) ls l) (ht : t.Spells o)
    (hr : Derives (tierOf (o.strength + 1)) rs r) :
    Derives (tierOf o.strength) (ls ++ t :: rs) (.binary o l r t) := by
  cases o with
  | add => exact .add hl ht rfl hr
  | sub => exact .add hl ht rfl hr
  | mul => exact .scale hl ht rfl hr
  | div => exact .scale hl ht rfl hr

/-- The expression ends as the formula does, whatever the variables are. -/
def Formula.Gives (a : Formula) (e : Expr) : Prop :=
  ∀ table, match a.value with
    | some v => e.value table = .ok v
    | none => ∃ t, e.value table = .error (.diagnostic (.divisionByZero t))

theorem Formula.Gives.binary {a b : Formula} {l r : Expr} (hl : a.Gives l) (hr : b.Gives r)
    (o : BinaryOperator) (t : Token) : (Formula.binary o a b).Gives (.binary o l r t) := by
  intro table
  specialize hl table
  specialize hr table
  simp only [Formula.value, Expr.value, bind, Option.bind, Except.bind]
  cases ha : a.value with
  | none =>
    rw [ha] at hl
    obtain ⟨t', ht⟩ := hl
    exact ⟨t', by rw [ht]⟩
  | some v =>
    rw [ha] at hl
    simp only [hl]
    cases hb : b.value with
    | none =>
      rw [hb] at hr
      obtain ⟨t', ht⟩ := hr
      exact ⟨t', by rw [ht]⟩
    | some w =>
      rw [hb] at hr
      simp only [hr]
      by_cases hz : o = .div ∧ w = 0
      · obtain ⟨rfl, rfl⟩ := hz
        exact ⟨t, rfl⟩
      · simp only [hz, if_false]
        exact apply_of_divisor (fun ho hw => hz ⟨ho, hw⟩) t v

theorem Written.derives {k : Nat} {a : Formula} {ws : List Word} (h : Written k a ws)
    {ts : List Token} (hs : ts.map Token.spelling = ws.map Word.spelling) :
    ∃ e, Derives (tierOf k) ts e ∧ a.Gives e := by
  induction h generalizing ts with
  | @literal n =>
    obtain ⟨t, rfl, ht⟩ := List.map_eq_singleton_iff.mp hs
    obtain ⟨hk, htext⟩ := Prod.mk.inj ht
    refine ⟨_, .literal hk (htext ▸ isLiteral_hexLiteral n), fun table => ?_⟩
    rw [← literalValue_eq_ofDigits, htext]
    exact congrArg (Except.ok ∘ Int.ofNat) (literalValue_hexLiteral n)
  | @brackets k a ws _ ih =>
    obtain ⟨o, rest, rfl, ho, hrest⟩ := List.map_eq_cons_iff.mp hs
    rw [List.map_append] at hrest
    obtain ⟨ts, cs, rfl, hts, hcs⟩ := List.map_eq_append_iff.mp hrest
    obtain ⟨c, rfl, hc⟩ := List.map_eq_singleton_iff.mp hcs
    obtain ⟨e, he, hg⟩ := ih hts
    exact ⟨e, .group (Prod.mk.inj ho).1 (Prod.mk.inj hc).1 (he.weaken (Nat.zero_le k)), hg⟩
  | @binary i k l r ls rs o _ hi _ hk ihl ihr =>
    rw [List.map_append] at hs
    obtain ⟨ts, rest, rfl, hts, hrest⟩ := List.map_eq_append_iff.mp hs
    obtain ⟨t, us, rfl, ht, hus⟩ := List.map_eq_cons_iff.mp hrest
    obtain ⟨e, he, hg⟩ := ihl hts
    obtain ⟨e', he', hg'⟩ := ihr hus
    -- the left side may hold a chain of such operators, the right side is read one tier further down
    exact ⟨_, .binary (he.weaken hi) (Prod.mk.inj ht) (he'.weaken hk), hg.binary hg' o t⟩

end Reading

/-- Whichever way a formula is written, the program answers with its exact value, or with the
message that a divisor is zero. -/
theorem firstAnswer_of_written {k : Nat} {a : Formula} {ws : List Word} (h : Written k a ws)
    (hn : BracketsWithin nestingLimit ws) : firstAnswer (spaced ws) = .ok a.answer := by
  have hspelling := map_spelling_lex 0 ws
  obtain ⟨e, hderives, hgives⟩ := h.derives hspelling
  have hparse := parse_of_derives (hderives.weaken (Nat.zero_le k)) (hn.nestsWithin hspelling)
  have hvalue := evaluate_of_parse hparse ∅
  have htrim := trimmed_spaced ws
  have hne := spaced_ne_nil h.ne_nil
  have hlex := mt (lex_eq_nil_iff htrim standard.commentMarker 0).mp hne
  have hends := hgives ∅
  have hanswer : ∀ {o after}, Judged standard ∅ (spaced ws) o after →
      firstAnswer (spaced ws) = .ok o.answer := by
    intro o after hj
    rw [← trim_of_trimmed htrim] at hj hne
    exact firstAnswer_of_judged (notMem_spaced ws).1 hne hj
  rw [Formula.answer]
  cases hv : a.value with
  | some v =>
    rw [hv] at hends
    exact hanswer (.valued (bare_spaced ws) hlex (hvalue.trans hends))
  | none =>
    rw [hv] at hends
    obtain ⟨t, ht⟩ := hends
    exact hanswer (.unvalued (bare_spaced ws) hlex (hvalue.trans ht))

theorem firstAnswer_of_written_quotient :
    let a : Formula := .binary .sub (.literal 26)
      (.binary .div (.literal 5) (.binary .sub (.literal 2) (.literal 4)))
    let ws : List Word := [.literal 26, .operator .sub, .opening, .literal 5, .operator .div,
      .opening, .literal 2, .operator .sub, .literal 4, .closing, .closing]
    spaced ws = "1a - ( 5 / ( 2 - 4 ) )".toList ∧ a.answer = .value (some 29) ∧
      Written 0 a ws ∧ BracketsWithin nestingLimit ws ∧ firstAnswer (spaced ws) = .ok a.answer := by
  intro a ws
  have hanswer : a.answer = .value (some 29) := by
    simp only [a, Formula.answer, Formula.value, BinaryOperator.exact, ← fdiv_eq_floor]
    rfl
  have hdifference :=
    Written.binary (o := .sub) (.literal (n := 2)) (by decide) (.literal (n := 4)) (by decide)
  have hquotient :=
    Written.binary (o := .div) (.literal (n := 5)) (by decide) hdifference.brackets (by decide)
  have h : Written 0 a ws :=
    .binary (o := .sub) (.literal (n := 26)) (by decide) hquotient.brackets (by decide)
  have hn : BracketsWithin nestingLimit ws := by decide
  exact ⟨by decide, hanswer, h, hn, firstAnswer_of_written h hn⟩

end HexLang

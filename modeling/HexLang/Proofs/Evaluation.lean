import HexLang.Value
import Mathlib.Data.Rat.Floor

/-! The evaluator works on a stack and gives the value that the rules give to
an expression: the left operand comes first, then the right one, then the
operator, and the first failure on the way is the result. -/

namespace HexLang

/-- The fault is shown with this message at this token, and costs a statement its value only. -/
def Fault.Withholds (f : Fault) (message : Text) (t : Token) : Prop :=
  ∃ d, f = .diagnostic d ∧ d.level = .semantic ∧ d.message = message ∧ d.token? = some t

def BinaryOperator.exact (o : BinaryOperator) (a b : Int) : Int :=
  match o with
  | .add => a + b
  | .sub => a - b
  | .mul => a * b
  | .div => ⌊(a / b : ℚ)⌋

/-- The rules of evaluation, with every way to fail. -/
inductive Values (table : Table) : Expr → Except Fault Int → Prop where
  | number {v : Int} {t : Token} : Values table (.number v t) (.ok v)
  | bound {name : Text} {t : Token} {v : Int} : table.get? name = some v →
      Values table (.var name t) (.ok v)
  | unbound {name : Text} {t : Token} {f : Fault} : table.get? name = none →
      f.Withholds ("Undefined variable '".toList ++ name ++ "'".toList) t →
      Values table (.var name t) (.error f)
  | stray {text : Text} : Values table (.stray text) (.error (.strayLeaf text))
  | left {o : BinaryOperator} {l r : Expr} {t : Token} {f : Fault} : Values table l (.error f) →
      Values table (.binary o l r t) (.error f)
  | right {o : BinaryOperator} {l r : Expr} {t : Token} {a : Int} {f : Fault} :
      Values table l (.ok a) → Values table r (.error f) → Values table (.binary o l r t) (.error f)
  | zeroDivisor {l r : Expr} {t : Token} {a : Int} {f : Fault} : Values table l (.ok a) →
      Values table r (.ok 0) → f.Withholds "Division by zero".toList t →
      Values table (.binary .div l r t) (.error f)
  | applied {o : BinaryOperator} {l r : Expr} {t : Token} {a b : Int} : Values table l (.ok a) →
      Values table r (.ok b) → (o = .div → b ≠ 0) →
      Values table (.binary o l r t) (.ok (o.exact a b))

theorem fdiv_eq_floor (a b : Int) : a.fdiv b = ⌊(a / b : ℚ)⌋ := by
  rcases Int.le_total 0 b with hb | hb
  · obtain ⟨n, rfl⟩ := Int.eq_ofNat_of_zero_le hb
    rw [Int.fdiv_eq_ediv_of_nonneg a hb]
    exact (Rat.floor_intCast_div_natCast a n).symm
  · obtain ⟨n, hn⟩ := Int.eq_ofNat_of_zero_le (Int.neg_nonneg.mpr hb)
    have hq : (a / b : ℚ) = (-a : Int) / (n : ℚ) := by
      have hnq : (n : ℚ) = -b := by exact_mod_cast hn.symm
      rw [hnq, Int.cast_neg, neg_div_neg_eq]
    rw [hq, Rat.floor_intCast_div_natCast, ← Int.neg_fdiv_neg, hn,
      Int.fdiv_eq_ediv_of_nonneg _ (Int.natCast_nonneg n)]

theorem withholds_undefinedVariable (name : Text) (t : Token) :
    (Fault.diagnostic (.undefinedVariable name t)).Withholds
      ("Undefined variable '".toList ++ name ++ "'".toList) t :=
  ⟨_, rfl, rfl, rfl, rfl⟩

theorem withholds_divisionByZero (t : Token) :
    (Fault.diagnostic (.divisionByZero t)).Withholds "Division by zero".toList t :=
  ⟨_, rfl, rfl, rfl, rfl⟩

theorem undefinedVariable_message_inj {name name' : Text} {t : Token}
    (h : (Diagnostic.undefinedVariable name' t).message =
      "Undefined variable '".toList ++ name ++ "'".toList) : name' = name := by
  change "Undefined variable '".toList ++ name' ++ "'".toList = _ at h
  simpa only [List.append_cancel_right_eq, List.append_cancel_left_eq] using h

theorem undefinedVariable_message_ne (name : Text) :
    "Undefined variable '".toList ++ name ++ "'".toList ≠ "Division by zero".toList := by
  simp

theorem Fault.Withholds.eq_undefinedVariable {f : Fault} {name : Text} {t : Token}
    (h : f.Withholds ("Undefined variable '".toList ++ name ++ "'".toList) t) :
    f = .diagnostic (.undefinedVariable name t) := by
  obtain ⟨d, rfl, hl, hm, ht⟩ := h
  cases d with
  | undefinedVariable name' t' =>
    obtain rfl : t' = t := Option.some.inj ht
    rw [undefinedVariable_message_inj hm]
  | divisionByZero t' => exact absurd hm.symm (undefinedVariable_message_ne name)
  | _ => cases hl

theorem Fault.Withholds.eq_divisionByZero {f : Fault} {t : Token}
    (h : f.Withholds "Division by zero".toList t) : f = .diagnostic (.divisionByZero t) := by
  obtain ⟨d, rfl, hl, hm, ht⟩ := h
  cases d with
  | undefinedVariable name' t' => exact absurd hm (undefinedVariable_message_ne name')
  | divisionByZero t' =>
    obtain rfl : t' = t := Option.some.inj ht
    rfl
  | _ => cases hl

theorem apply_of_divisor {o : BinaryOperator} {b : Int} (h : o = .div → b ≠ 0) (t : Token)
    (a : Int) : o.apply t a b = .ok (o.exact a b) := by
  cases o with
  | div => simp [BinaryOperator.apply, BinaryOperator.exact, h rfl, fdiv_eq_floor]
  | _ => rfl

theorem evaluateExpr_eq_value (table : Table) (e : Expr) :
    evaluateExpr table e = e.value table := by
  rw [evaluateExpr, perform_visit]
  cases e.value table with
  | error f => rfl
  | ok v => simp [perform]

theorem evaluate_of_parse {tokens : List Token} {e : Expr} (h : parse tokens = .ok e)
    (table : Table) : evaluate table tokens = e.value table := by
  simp only [evaluate, h, bind, Except.bind, evaluateExpr_eq_value]

theorem values_value (table : Table) (e : Expr) : Values table e (e.value table) := by
  induction e with
  | number v t => exact .number
  | stray text => exact .stray
  | var name t =>
    cases hg : table.get? name with
    | none => simpa [Expr.value, Table.find, hg] using .unbound hg (withholds_undefinedVariable name t)
    | some v => simpa [Expr.value, Table.find, hg] using Values.bound hg
  | binary o l r t ihl ihr =>
    simp only [Expr.value, bind, Except.bind]
    cases hl : l.value table with
    | error f => exact .left (hl ▸ ihl)
    | ok a =>
      cases hr : r.value table with
      | error f => exact .right (hl ▸ ihl) (hr ▸ ihr)
      | ok b =>
        by_cases h : o = .div → b ≠ 0
        · simp only [apply_of_divisor h]
          exact .applied (hl ▸ ihl) (hr ▸ ihr) h
        · simp only [Classical.not_imp, not_not] at h
          obtain ⟨rfl, rfl⟩ := h
          exact .zeroDivisor (hl ▸ ihl) (hr ▸ ihr) (withholds_divisionByZero t)

theorem Values.value_eq {table : Table} {e : Expr} {r : Except Fault Int} (h : Values table e r) :
    e.value table = r := by
  induction h with
  | number => rfl
  | bound hg => simp [Expr.value, Table.find, hg]
  | unbound hg hf => simp [Expr.value, Table.find, hg, refuse, hf.eq_undefinedVariable]
  | stray => rfl
  | left _ ih => simp [Expr.value, ih, bind, Except.bind]
  | right _ _ ihl ihr => simp [Expr.value, ihl, ihr, bind, Except.bind]
  | zeroDivisor _ _ hf ihl ihr =>
    simp [Expr.value, ihl, ihr, bind, Except.bind, BinaryOperator.apply, refuse,
      hf.eq_divisionByZero]
  | applied _ _ ho ihl ihr =>
    simp [Expr.value, ihl, ihr, bind, Except.bind, apply_of_divisor ho]

theorem Values.ne_emptyStack {table : Table} {e : Expr} {r : Except Fault Int}
    (h : Values table e r) : r ≠ .error .emptyStack := by
  induction h with
  | unbound _ hf => simp [hf.eq_undefinedVariable]
  | zeroDivisor _ _ hf => simp [hf.eq_divisionByZero]
  | left _ ih => exact ih
  | right _ _ _ ih => exact ih
  | _ => simp

/-- The evaluator ends with exactly the result that the rules give, and its stack never runs
out. -/
theorem evaluateExpr_iff_values (table : Table) (e : Expr) (r : Except Fault Int) :
    (evaluateExpr table e = r ↔ Values table e r) ∧ evaluateExpr table e ≠ .error .emptyStack := by
  rw [evaluateExpr_eq_value]
  exact ⟨⟨fun h => h ▸ values_value table e, Values.value_eq⟩,
    (values_value table e).ne_emptyStack⟩

end HexLang

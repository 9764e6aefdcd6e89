import HexLang.Precedence
import HexLang.Proofs.Nesting
import Mathlib.Data.Nat.Digits.Defs

/-! The grammar of expressions, and what a derivation says about its tokens:
their brackets are balanced, and the others stand in the tree from left to
right. -/

namespace HexLang

inductive Tier where
  | sum
  | product
  | factor

def BinaryOperator.tier : BinaryOperator → Tier
  | .add | .sub => .sum
  | .mul | .div => .product

def Token.Spells (t : Token) (o : BinaryOperator) : Prop :=
  t.kind = .operator ∧ t.text = [o.sign]

/-- The tokens that make up an expression on each tier:
`sum := product (("+" | "-") product)*`, `product := factor (("*" | "/") factor)*` and
`factor := literal | name | "(" sum ")"`. A chain grows at its right end, so that it associates
to the left, and the digits of a literal count in base sixteen. -/
inductive Derives : Tier → List Token → Expr → Prop where
  | literal {t : Token} : t.kind = .hexNumber → isLiteral t.text = true →
      Derives .factor [t] (.number (Nat.ofDigits 16 (t.text.reverse.map digitValue) : Nat) t)
  | name {t : Token} : t.kind = .identifier → startsUppercase t.text = false →
      Derives .factor [t] (.var t.text t)
  | group {o c : Token} {ts : List Token} {e : Expr} : o.kind = .bracketOpen →
      c.kind = .bracketClose → Derives .sum ts e → Derives .factor (o :: (ts ++ [c])) e
  | factor {ts : List Token} {e : Expr} : Derives .factor ts e → Derives .product ts e
  | product {ts : List Token} {e : Expr} : Derives .product ts e → Derives .sum ts e
  | scale {ls rs : List Token} {t : Token} {l r : Expr} {o : BinaryOperator} :
      Derives .product ls l → t.Spells o → o.tier = .product → Derives .factor rs r →
      Derives .product (ls ++ t :: rs) (.binary o l r t)
  | add {ls rs : List Token} {t : Token} {l r : Expr} {o : BinaryOperator} :
      Derives .sum ls l → t.Spells o → o.tier = .sum → Derives .product rs r →
      Derives .sum (ls ++ t :: rs) (.binary o l r t)

theorem literalValue_eq_ofDigits (text : Text) :
    literalValue text = Nat.ofDigits 16 (text.reverse.map digitValue) := by
  rw [literalValue, Nat.ofDigits_eq_foldr, List.foldr_map, List.foldr_reverse]
  simp only [Nat.cast_id, Nat.add_comm]

theorem Token.Spells.ofText?_eq {t : Token} {o : BinaryOperator} (h : t.Spells o) :
    BinaryOperator.ofText? t.text = some o := by
  rw [h.2, BinaryOperator.ofText?_sign]

theorem spells_of_ofText? {t : Token} {o : BinaryOperator} (hk : t.kind = .operator)
    (h : BinaryOperator.ofText? t.text = some o) : t.Spells o := by
  refine ⟨hk, ?_⟩
  unfold BinaryOperator.ofText? at h
  repeat' split at h
  all_goals cases h
  all_goals assumption

theorem Token.Spells.lift_eq {t : Token} {o : BinaryOperator} (h : t.Spells o) : t.lift = 0 :=
  Token.lift_of_plain (by simp [h.1]) (by simp [h.1])

theorem Derives.openCount_eq {tier : Tier} {ts : List Token} {e : Expr} (h : Derives tier ts e) :
    openCount ts = 0 := by
  induction h with
  | literal hk _ => simp [Token.lift, hk]
  | name hk _ => simp [Token.lift, hk]
  | group ho hc _ ih => simp [ih, Token.lift_of_bracketOpen ho, Token.lift_of_bracketClose hc]
  | factor _ ih => exact ih
  | product _ ih => exact ih
  | scale _ ht _ _ ihl ihr => simp [ihl, ihr, ht.lift_eq]
  | add _ ht _ _ ihl ihr => simp [ihl, ihr, ht.lift_eq]

/-- The tokens in the nodes of an expression, a left operand before the operator. -/
def Expr.inOrder : Expr → List Token
  | .number _ t => [t]
  | .var _ t => [t]
  | .binary _ l r t => l.inOrder ++ t :: r.inOrder
  | .stray _ => []

def Token.isBracket (t : Token) : Bool :=
  t.kind = .bracketOpen ∨ t.kind = .bracketClose

/-- No token is lost, doubled or moved on the way into the tree, except that brackets go. -/
theorem Derives.inOrder_eq {tier : Tier} {ts : List Token} {e : Expr} (h : Derives tier ts e) :
    e.inOrder = ts.filter fun t => !t.isBracket := by
  induction h with
  | literal hk _ => simp [Expr.inOrder, Token.isBracket, hk]
  | name hk _ => simp [Expr.inOrder, Token.isBracket, hk]
  | group ho hc _ ih => simp [ih, Token.isBracket, ho, hc]
  | factor _ ih => exact ih
  | product _ ih => exact ih
  | scale _ ht _ _ ihl ihr => simp [Expr.inOrder, ihl, ihr, Token.isBracket, ht.1]
  | add _ ht _ _ ihl ihr => simp [Expr.inOrder, ihl, ihr, Token.isBracket, ht.1]

end HexLang

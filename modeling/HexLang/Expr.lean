import HexLang.Token

/-! Expressions over integers and variables. Every node keeps the token it
was read from, so that a diagnostic can point at it. -/

namespace HexLang

inductive BinaryOperator where
  | add
  | sub
  | mul
  | div
  deriving DecidableEq, Repr

def BinaryOperator.ofText? (text : Text) : Option BinaryOperator :=
  if text = ['+'] then some .add
  else if text = ['-'] then some .sub
  else if text = ['*'] then some .mul
  else if text = ['/'] then some .div
  else none

def BinaryOperator.sign : BinaryOperator → Char
  | .add => '+'
  | .sub => '-'
  | .mul => '*'
  | .div => '/'

/-- A stray leaf stands for a node that is no expression and has no value. -/
inductive Expr where
  | number (value : Int) (token : Token)
  | var (name : Text) (token : Token)
  | binary (operator : BinaryOperator) (left right : Expr) (token : Token)
  | stray (text : Text)
  deriving DecidableEq, Repr

/-- Equality up to the places the tokens were read from. -/
def Expr.alike : Expr → Expr → Bool
  | .number v _, .number w _ => v == w
  | .var a _, .var b _ => a == b
  | .binary o l r _, .binary p m s _ => o == p && l.alike m && r.alike s
  | .stray a, .stray b => a == b
  | _, _ => false

@[simp] theorem BinaryOperator.ofText?_sign (o : BinaryOperator) : ofText? [o.sign] = some o := by
  cases o <;> rfl

end HexLang

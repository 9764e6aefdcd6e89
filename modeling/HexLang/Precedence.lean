import HexLang.Expr
import HexLang.Form
import HexLang.Numeral

/-! Reading an expression from its tokens in one pass. An operator waits for
its right side until a bracket or an operator that binds no tighter ends it,
so a chain of operators of one kind associates to the left. -/

namespace HexLang

/-- An operator and its left side, waiting for the right one. -/
structure Pending where
  operator : BinaryOperator
  left : Expr
  token : Token
  deriving DecidableEq, Repr

def completeWith (pending : Option Pending) (right : Expr) : Expr :=
  match pending with
  | some p => .binary p.operator p.left right p.token
  | none => right

/-- What waits on one bracket level: a sum, and within it a product. -/
structure Waiting where
  sum : Option Pending := none
  product : Option Pending := none
  deriving DecidableEq, Repr

def Waiting.closeProduct (w : Waiting) (e : Expr) : Expr :=
  completeWith w.product e

def Waiting.close (w : Waiting) (e : Expr) : Expr :=
  completeWith w.sum (w.closeProduct e)

/-- Takes in an operator that follows the operand `e`. -/
def Waiting.await (w : Waiting) (o : BinaryOperator) (e : Expr) (t : Token) : Waiting :=
  match o with
  | .add | .sub => { sum := some ⟨o, w.close e, t⟩ }
  | .mul | .div => { w with product := some ⟨o, w.closeProduct e, t⟩ }

/-- An open bracket, and what waits outside of it. -/
structure Opening where
  token : Token
  outer : Waiting
  deriving DecidableEq, Repr

/-- An expression read in part: the open brackets from the inside out, what
waits within the innermost, and the operand if one is complete. -/
structure Draft where
  openings : List Opening := []
  waiting : Waiting := {}
  operand : Option Expr := none
  deriving DecidableEq, Repr

/-- How many brackets may be open at once. A parser that goes one call deeper at each of them has
as much room as the stack leaves it, less what its callers took. The number stands for that bound,
which is much the same wherever the parser is called from. -/
def nestingLimit : Nat := 328

/-- Takes in the next token of an expression that begins with `first`. -/
def Draft.step (first : Token) (draft : Draft) (t : Token) : Except Fault Draft :=
  match draft.operand with
  | none =>
    match t.kind with
    | .hexNumber => do
      admitOperand t
      return { draft with operand := some (.number (literalValue t.text) t) }
    | .identifier => do
      admitOperand t
      return { draft with operand := some (.var t.text t) }
    | .bracketOpen =>
      if draft.openings.length < nestingLimit then
        .ok { openings := ⟨t, draft.waiting⟩ :: draft.openings }
      else refuse (.tooDeep first)
    | _ => refuse (.unexpectedToken t)
  | some e =>
    match t.kind with
    | .operator =>
      match BinaryOperator.ofText? t.text with
      | some o => .ok { draft with waiting := draft.waiting.await o e t, operand := none }
      | none => .error (.unknownOperator t.text)
    | .bracketClose =>
      match draft.openings with
      | [] => refuse (.missingOpening t)
      | opening :: openings =>
        .ok { openings, waiting := opening.outer, operand := some (draft.waiting.close e) }
    | _ => refuse (.unexpectedToken t)

def Draft.finish (draft : Draft) : Except Fault Expr :=
  match draft.operand, draft.openings with
  | none, [] => refuse .incomplete
  | none, _ :: _ => refuse (.missingClosing none)
  | some e, [] => .ok (draft.waiting.close e)
  | some _, opening :: _ => refuse (.missingClosing (some opening.token))

def parse (tokens : List Token) : Except Fault Expr := do
  screen tokens
  match tokens with
  | [] => refuse .incomplete
  | first :: _ => do
    let draft ← tokens.foldlM (Draft.step first) {}
    draft.finish

end HexLang

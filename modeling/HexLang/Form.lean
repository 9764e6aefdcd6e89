import HexLang.Alphabet
import HexLang.Diagnostic

/-! The form of an expression, judged without building it: operands and
operators alternate, and brackets nest. -/

namespace HexLang

/-- Refuses the tokens that no expression holds. -/
def screenToken (t : Token) : Except Fault Unit :=
  match t.kind with
  | .unknown => refuse (.unknownToken t)
  | .comment => refuse (.commentInside t)
  | _ => .ok ()

def screen (tokens : List Token) : Except Fault Unit :=
  tokens.forM screenToken

def admitOperand (t : Token) : Except Fault Unit :=
  match t.kind with
  | .hexNumber => if isLiteral t.text then .ok () else refuse (.badLiteral t)
  | .identifier => if startsUppercase t.text then refuse (.uppercaseName t) else .ok ()
  | _ => .ok ()

/-- What the tokens read so far leave open. -/
structure Reading where
  operandDue : Bool := true
  depth : Nat := 0
  deriving DecidableEq, Repr

def Reading.step (r : Reading) (t : Token) : Except Fault Reading :=
  if r.operandDue then
    match t.kind with
    | .hexNumber | .identifier => do
      admitOperand t
      return { r with operandDue := false }
    | .bracketOpen => .ok { r with depth := r.depth + 1 }
    | _ => refuse (.unexpectedToken t)
  else
    match t.kind with
    | .operator => .ok { r with operandDue := true }
    | .bracketClose =>
      if r.depth = 0 then refuse (.missingOpening t) else .ok { r with depth := r.depth - 1 }
    | _ => refuse (.unexpectedToken t)

def Reading.finish (r : Reading) : Except Fault Unit :=
  if r.depth ≠ 0 then refuse (.missingClosing none)
  else if r.operandDue then refuse .incomplete
  else .ok ()

def checkForm (tokens : List Token) : Except Fault Unit := do
  screen tokens
  let r ← tokens.foldlM Reading.step {}
  r.finish

end HexLang

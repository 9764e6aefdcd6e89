import HexLang.Lexeme
import HexLang.Separator
import HexLang.Value

/-! Statements, and the verdict on one of them over a table of variables. An
assignment binds its target only when its right side has a value. -/

namespace HexLang

/-- The markers that end a statement, start a comment and part an assignment. -/
structure Dialect where
  terminator : Text := ";".toList
  commentMarker : Text := "//".toList
  assignMarker : Text := ":=".toList
  deriving DecidableEq, Repr

def standard : Dialect := {}

inductive Status where
  | accepted
  | rejected
  deriving DecidableEq, Repr

def Status.title : Status → Text
  | .accepted => "ACCEPTED".toList
  | .rejected => "REJECTED".toList

/-- An accepted statement that could not be valued carries a message and no value. -/
structure Outcome where
  rawText : Text
  status : Status
  message : Option Text := none
  tokens : List Token := []
  value : Option Int := none
  errorOffset : Option Int := none
  deriving DecidableEq, Repr

/-- An assignment knows where its right side starts. -/
inductive Statement where
  | comment
  | assignment (target : Text) (start : Nat) (right : Text)
  | expression
  deriving DecidableEq, Repr

/-- The shape of a trimmed text. -/
def Statement.ofText (d : Dialect) (text : Text) : Statement :=
  if d.commentMarker.isPrefixOf text then .comment
  else match splitFirst d.assignMarker text with
    | some (before, after) => .assignment (trim before) (before.length + d.assignMarker.length) after
    | none => .expression

def Level.status : Level → Status
  | .syntactic => .rejected
  | .semantic => .accepted

def Outcome.ofDiagnostic (raw : Text) (tokens : List Token) (d : Diagnostic) : Outcome where
  rawText := raw
  status := d.level.status
  message := some d.message
  tokens := tokens
  errorOffset := some (d.position raw.length)

/-- Turns a diagnostic into the verdict, and leaves the other faults. -/
def conclude (raw : Text) (tokens : List Token) : Except Fault Int → Except Fault Outcome
  | .ok v => .ok { rawText := raw, status := .accepted, tokens, value := some v }
  | .error (.diagnostic d) => .ok (.ofDiagnostic raw tokens d)
  | .error f => .error f

/-- A lone operand needs no reading. -/
def evaluateBare (table : Table) : List Token → Except Fault Int
  | [t] => do
    checkForm [t]
    match t.kind with
    | .hexNumber => return literalValue t.text
    | _ => evaluateExpr table (.var t.text t)
  | tokens => evaluate table tokens

/-- The tokens of a right side are screened before they are read, and once more by the parser. -/
def evaluateRight (table : Table) (tokens : List Token) : Except Fault Int := do
  screen tokens
  evaluate table tokens

def judgeAssignment (d : Dialect) (table : Table) (raw target : Text) (start : Nat) (right : Text) :
    Except Fault (Outcome × Table) :=
  if !isName target then .ok (.ofDiagnostic raw [] (.badTarget d.assignMarker target), table)
  else if startsUppercase target then .ok (.ofDiagnostic raw [] (.uppercaseTarget target), table)
  else do
    let tokens := lex d.commentMarker start right
    let outcome ← conclude raw tokens (evaluateRight table tokens)
    match outcome.value with
    | some v => return (outcome, table.insert target v)
    | none => return (outcome, table)

def judgeExpression (d : Dialect) (table : Table) (raw : Text) : Except Fault Outcome :=
  match lex d.commentMarker 0 raw with
  | [] => .ok { rawText := raw, status := .accepted }
  | tokens => conclude raw tokens (evaluateBare table tokens)

/-- The verdict on a statement, and the table after it. -/
def judge (d : Dialect) (table : Table) (text : Text) : Except Fault (Outcome × Table) :=
  let raw := trim text
  match Statement.ofText d raw with
  | .comment => .ok ({ rawText := raw, status := .accepted }, table)
  | .assignment target start right => judgeAssignment d table raw target start right
  | .expression => do
    let outcome ← judgeExpression d table raw
    return (outcome, table)

end HexLang

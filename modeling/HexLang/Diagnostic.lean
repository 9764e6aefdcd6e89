import HexLang.Quoted
import HexLang.Token

/-! What can be wrong with a statement, and the faults that no statement of
the language raises. The wording of every message is fixed here. -/

namespace HexLang

/-- A syntactic diagnostic refuses the statement, a semantic one only its value. -/
inductive Level where
  | syntactic
  | semantic
  deriving DecidableEq, Repr

/-- A token kept by a diagnostic is the one to blame. -/
inductive Diagnostic where
  | unknownToken (token : Token)
  | commentInside (token : Token)
  | badLiteral (token : Token)
  | uppercaseName (token : Token)
  | unexpectedToken (token : Token)
  | missingOpening (token : Token)
  | missingClosing (opening : Option Token)
  | incomplete
  | tooDeep (first : Token)
  | badTarget (assignMarker target : Text)
  | uppercaseTarget (target : Text)
  | undefinedVariable (name : Text) (token : Token)
  | divisionByZero (operator : Token)
  deriving DecidableEq, Repr

namespace Diagnostic

def level : Diagnostic → Level
  | undefinedVariable _ _ | divisionByZero _ => .semantic
  | _ => .syntactic

def token? : Diagnostic → Option Token
  | unknownToken t | commentInside t | badLiteral t | uppercaseName t | unexpectedToken t
  | missingOpening t | tooDeep t | undefinedVariable _ t | divisionByZero t => some t
  | missingClosing opening => opening
  | incomplete | badTarget _ _ | uppercaseTarget _ => none

def message : Diagnostic → Text
  | unknownToken t => "Unknown token '".toList ++ t.text ++ "'".toList
  | commentInside _ => "Comment inside expression is not allowed (must end with ';')".toList
  | badLiteral t => "Invalid hex literal '".toList ++ t.text ++ "'".toList
  | uppercaseName t => uppercase t.text
  | unexpectedToken t => "Unexpected token '".toList ++ t.text ++ "'".toList
  | missingOpening _ => "Missing opening parenthesis".toList
  | missingClosing _ => "Missing closing parenthesis".toList
  | incomplete => "Expression is incomplete".toList
  | tooDeep _ => "Expression is too deeply nested".toList
  | badTarget marker target =>
    "Left side of ".toList ++ marker ++ " must be identifier (got '".toList ++ target ++ "')".toList
  | uppercaseTarget target => uppercase target
  | undefinedVariable name _ => "Undefined variable '".toList ++ name ++ "'".toList
  | divisionByZero _ => "Division by zero".toList
where
  uppercase (name : Text) : Text :=
    "Identifier '".toList ++ name ++ "' cannot start with uppercase letter".toList

/-- Where a statement of the given length shows the diagnostic: at the token,
at the end when the text ran out, and at the start for the target of an assignment. -/
def position (d : Diagnostic) (length : Nat) : Int :=
  match d with
  | badTarget _ _ | uppercaseTarget _ => 0
  | _ => match d.token? with
    | some t => t.offset
    | none => length

end Diagnostic

/-- Only the diagnostics arise from the text of a statement. -/
inductive Fault where
  | diagnostic (d : Diagnostic)
  | unknownOperator (text : Text)
  | strayLeaf (text : Text)
  | emptyStack
  | emptyTerminator
  | decimalTooLong
  | noStatement
  deriving DecidableEq, Repr

def Fault.message : Fault → Text
  | .diagnostic d => d.message
  | .unknownOperator text => quote text ++ " is not a valid BinaryOperator".toList
  | .strayLeaf text => "Unexpected expression type: ".toList ++ text
  | .emptyStack => "pop from empty list".toList
  | .emptyTerminator => "empty separator".toList
  | .decimalTooLong =>
    "Exceeds the limit (4300 digits) for integer string conversion; ".toList ++
      "use sys.set_int_max_str_digits() to increase the limit".toList
  | .noStatement => "list index out of range".toList

def refuse {α : Type} (d : Diagnostic) : Except Fault α :=
  .error (.diagnostic d)

end HexLang

import HexLang.Program

/-! Outcomes and tables as lines of text. -/

namespace HexLang

/-- The most digits a value may have to be shown in base ten. -/
def decimalDigits : Nat := 4300

/-- A value in base ten, and as the literal that a program would hold. -/
def showValue (v : Int) : Except Fault Text :=
  if Nat.pow 10 decimalDigits ≤ v.natAbs then .error .decimalTooLong
  else .ok (decimal v ++ " (".toList ++ hexLiteral v ++ ")".toList)

/-- An empty message counts as none. -/
def Outcome.remark (o : Outcome) : Option Text :=
  o.message.filter (· ≠ [])

def Outcome.heading (o : Outcome) : Text :=
  o.rawText ++ " -> ".toList ++ o.status.title

def showOutcome (o : Outcome) : Except Fault Text :=
  match o.remark with
  | some m => .ok (o.heading ++ ": ".toList ++ m)
  | none =>
    match o.value with
    | some v => do
      let text ← showValue v
      return o.heading ++ " = ".toList ++ text
    | none => .ok o.heading

/-- The caret window follows when there is a remark with a place. -/
def showPointed (o : Outcome) : Except Fault Text := do
  let line ← showOutcome o
  match o.remark, o.errorOffset with
  | some _, some i => return line ++ '\n' :: pointAt o.rawText i
  | _, _ => return line

def showTokens (tokens : List Token) : Text :=
  [' '].intercalate (tokens.map Token.labelled)

def joinLines (lines : List Text) : Text :=
  ['\n'].intercalate lines

def printed (lines : List Text) : Text :=
  lines.flatMap (· ++ ['\n'])

def nameWidth (table : Table) : Nat :=
  (table.entries.map (·.1.length)).foldl max 0

def showEntry (width : Nat) (entry : Text × Int) : Except Fault Text := do
  let text ← showValue entry.2
  return entry.1.rightpad width ' ' ++ " = ".toList ++ text

def showTable (table : Table) : Except Fault Text :=
  match table.entries with
  | [] => .ok "(no variables)".toList
  | entries => do
    let lines ← entries.mapM (showEntry (nameWidth table))
    return joinLines lines

end HexLang

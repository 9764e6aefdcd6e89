import HexLang.Display

/-! A tour of the language: sample programs with their statements, outcomes,
tokens and variables. -/

namespace HexLang

def sampleLines : List Text :=
  ["abc := 1a5 + 2f;".toList,
    "_var := 0ff * (x - 1b);".toList,
    "// This is a comment;".toList,
    "new := a + b * 2;".toList,
    "undef := 5 + ;".toList]

def samples : List Text :=
  [printed sampleLines,
    "10 / 3; (0 - 1) / 2; 2 + 3 * 4".toList,
    "a := 0ff; b := a / 0; c := a - 100; c".toList,
    "Abc := 1; x := 1 +* 2; y := (1; z := 1); w := 1 : 2".toList]

def rule : Text := List.replicate 10 '='

def quoteAll (texts : List Text) : Text :=
  '[' :: ", ".toList.intercalate (texts.map quote) ++ [']']

/-- The number stands behind the margin and a column for its sign. -/
def numbered (n : Nat) (text : Text) : Text :=
  spaces 2 ++ decimal n ++ ": ".toList ++ text

def tourOutcome (n : Nat) (o : Outcome) : Except Fault (List Text) := do
  let line ← showPointed o
  if o.tokens.isEmpty then return [numbered n line]
  else
    return [numbered n line,
      spaces 5 ++ "expression: ".toList ++ layOut o.tokens,
      spaces 5 ++ "tokens: ".toList ++ showTokens o.tokens]

def tourProgram (source : Text) : Except Fault (List Text) := do
  let segs ← segments standard source
  let run ← runSegments standard ∅ segs
  let outcomes ← (run.outcomes.zipIdx 1).mapM fun (o, n) => tourOutcome n o
  let table ← showTable run.table
  return [rule, "code: ".toList ++ quote source,
    "statements: ".toList ++ quoteAll (segs.map Segment.text)] ++ outcomes.flatten ++
    ["variables:".toList, table]

def tour : Except Fault Text := do
  let lines ← samples.mapM tourProgram
  return printed lines.flatten

end HexLang

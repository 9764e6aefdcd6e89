import HexLang.Display
import HexLang.Trace

/-! Running a program at once, and line by line. An interactive session runs
the whole text again after each line, and shows the outcomes that are new. -/

namespace HexLang

/-- What is shown to the reader, and what is logged beside it. -/
structure Output where
  shown : Text := []
  logged : Text := []
  deriving DecidableEq, Repr

instance : Append Output where
  append a b := ⟨a.shown ++ b.shown, a.logged ++ b.logged⟩

/-- A run of a source text with the lines that it logs. -/
def runLogged (verbose : Bool) (source : Text) : Except Fault (Run × Text) := do
  let segs ← segments standard source
  let run ← runSegments standard ∅ segs
  return (run, if verbose then printed ((trace standard segs run).map Record.line) else [])

def batch (verbose : Bool) (source : Text) : Except Fault Output := do
  let (run, logged) ← runLogged verbose source
  let lines ← run.outcomes.mapM showPointed
  let table ← showTable run.table
  return ⟨printed (lines ++ [table]), logged⟩

/-- Every line break of a file becomes a single line feed. -/
def unifyBreaks : Text → Text
  | [] => []
  | '\r' :: '\n' :: rest => '\n' :: unifyBreaks rest
  | '\r' :: rest => '\n' :: unifyBreaks rest
  | c :: rest => c :: unifyBreaks rest

/-- The text typed so far, and how many of its outcomes were shown. -/
structure Session where
  source : Text := []
  seen : Nat := 0
  deriving DecidableEq, Repr

def prompt : Text := "> ".toList

def tableRequest : Text := ":vars".toList

/-- A line without a terminator at its end gets one. -/
def endLine (line : Text) : Text :=
  if standard.terminator.isSuffixOf (trimRight line) then line ++ ['\n']
  else line ++ standard.terminator ++ ['\n']

def Session.enter (verbose : Bool) (s : Session) (line : Text) : Except Fault (Output × Session) :=
  if trim line = tableRequest then do
    let (run, logged) ← runLogged verbose s.source
    let table ← showTable run.table
    return (⟨printed [table], logged⟩, s)
  else do
    let source := s.source ++ endLine line
    let (run, logged) ← runLogged verbose source
    let lines ← (run.outcomes.drop s.seen).mapM showPointed
    return (⟨printed lines, logged⟩, ⟨source, run.outcomes.length⟩)

/-- The prompt stands before each line, and before the end of the input. -/
def Session.converse (verbose : Bool) (s : Session) : List Text → Except Fault Output
  | [] => .ok { shown := prompt }
  | line :: lines => do
    let (output, s) ← s.enter verbose line
    let rest ← s.converse verbose lines
    return { shown := prompt } ++ output ++ rest

/-- The lines of an input, whose last one may lack its line feed. -/
def inputLines (input : Text) : List Text :=
  let lines := splitOn ['\n'] input
  if lines.getLast? = some [] then lines.dropLast else lines

def interactive (verbose : Bool) (input : Text) : Except Fault Output :=
  ({} : Session).converse verbose (inputLines input)

end HexLang

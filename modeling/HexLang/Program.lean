import HexLang.Statement

/-! Programs: statements in a row, each with a verdict of its own, which share
one table of variables. -/

namespace HexLang

/-- The text of one statement, and whether a terminator stands behind it. -/
structure Segment where
  text : Text
  terminated : Bool
  deriving DecidableEq, Repr

/-- A terminator stands behind every piece but the last. -/
def segmentsOf : List Text → List Segment
  | [] => []
  | [last] => [⟨trim last, false⟩]
  | piece :: rest => ⟨trim piece, true⟩ :: segmentsOf rest

def segments (d : Dialect) (source : Text) : Except Fault (List Segment) :=
  if d.terminator = [] then .error .emptyTerminator
  else .ok ((segmentsOf (splitOn d.terminator source)).filter fun s => !s.text.isEmpty)

structure Run where
  outcomes : List Outcome
  table : Table
  deriving DecidableEq

/-- The terminator is shown where it stood, and also behind every accepted statement. -/
def Outcome.terminate (o : Outcome) (d : Dialect) (s : Segment) : Outcome :=
  if s.terminated || o.status == .accepted then { o with rawText := o.rawText ++ d.terminator } else o

def runSegments (d : Dialect) (table : Table) : List Segment → Except Fault Run
  | [] => .ok ⟨[], table⟩
  | s :: rest => do
    let (outcome, table) ← judge d table s.text
    let run ← runSegments d table rest
    return { run with outcomes := outcome.terminate d s :: run.outcomes }

def runProgram (d : Dialect) (source : Text) : Except Fault Run := do
  let segs ← segments d source
  runSegments d ∅ segs

/-- What a program says first. -/
inductive Answer where
  | message (text : Text)
  | value (v : Option Int)
  deriving DecidableEq, Repr

def Outcome.answer (o : Outcome) : Answer :=
  match o.message with
  | some m => .message m
  | none => .value o.value

def firstAnswer (source : Text) : Except Fault Answer := do
  let run ← runProgram standard source
  match run.outcomes with
  | [] => .error .noStatement
  | o :: _ => return o.answer

end HexLang

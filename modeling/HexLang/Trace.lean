import HexLang.Program

/-! The trace of a run: a record of every binding and of every verdict, and a
count at the end. Comments leave no record. -/

namespace HexLang

inductive Record where
  | assigned (name : Text) (v : Int)
  | judged (text : Text) (status : Status) (message : Text)
  | finished (statements rejected bound : Nat)
  deriving DecidableEq, Repr

def statementChannel : Text := "hexcalc.processor: ".toList

def programChannel : Text := "hexcalc.driver: ".toList

def Record.line : Record → Text
  | assigned name v => statementChannel ++ "Assigned ".toList ++ name ++ " = ".toList ++ decimal v
  | judged text status message =>
    statementChannel ++ "Statement ".toList ++ quote text ++ ": ".toList ++ status.title ++
      ' ' :: message
  | finished statements rejected bound =>
    programChannel ++ "Processed ".toList ++ decimal statements ++ " statements, ".toList ++
      decimal rejected ++ " rejected, ".toList ++ decimal bound ++ " variables defined".toList

def recordsOf (d : Dialect) (s : Segment) (o : Outcome) : List Record :=
  match Statement.ofText d s.text with
  | .comment => []
  | .assignment target _ _ => (o.value.map (.assigned target)).toList ++ [verdict]
  | .expression => [verdict]
where
  verdict : Record := .judged s.text o.status (o.message.getD [])

def Run.finalRecord (run : Run) : Record :=
  .finished run.outcomes.length (run.outcomes.countP (·.status == .rejected)) run.table.size

def trace (d : Dialect) (segs : List Segment) (run : Run) : List Record :=
  ((segs.zip run.outcomes).flatMap fun (s, o) => recordsOf d s o) ++ [run.finalRecord]

end HexLang

import HexLang.Session
import HexLang.Tour

/-! The command line: a program text or a file to run, or an interactive
session when neither is given. -/

namespace HexLang

structure Options where
  verbose : Bool := false
  tour : Bool := false
  expr : Option String := none
  file : Option String := none

def Options.ofArgs (o : Options) : List String → Option Options
  | [] => some o
  | "-v" :: args | "--verbose" :: args => { o with verbose := true }.ofArgs args
  | "--tour" :: args => { o with tour := true }.ofArgs args
  | "-e" :: expr :: args | "--expr" :: expr :: args => { o with expr := some expr }.ofArgs args
  | arg :: args =>
    if arg.startsWith "-" || o.file.isSome then none else { o with file := some arg }.ofArgs args

def emit (output : Output) : IO Unit := do
  IO.print (String.ofList output.shown)
  (← IO.getStdout).flush
  IO.eprint (String.ofList output.logged)

def complain (f : Fault) : IO UInt32 := do
  IO.eprintln (String.ofList f.message)
  return 1

def emitAll : Except Fault Output → IO UInt32
  | .ok output => do
    emit output
    return 0
  | .error f => complain f

partial def talk (verbose : Bool) (s : Session) : IO UInt32 := do
  emit { shown := prompt }
  let line := (← (← IO.getStdin).getLine).toList
  if line.isEmpty then return 0
  let line := if line.getLast? = some '\n' then line.dropLast else line
  match s.enter verbose line with
  | .ok (output, s) =>
    emit output
    talk verbose s
  | .error f => complain f

def runOptions (o : Options) : IO UInt32 := do
  if o.tour then return ← emitAll (tour.map fun shown => { shown })
  match o.expr, o.file with
  | some expr, _ => emitAll (batch o.verbose expr.toList)
  | none, some file => emitAll (batch o.verbose (unifyBreaks (← IO.FS.readFile file).toList))
  | none, none => talk o.verbose {}

end HexLang

def main (args : List String) : IO UInt32 := do
  match HexLang.Options.ofArgs {} args with
  | some o => HexLang.runOptions o
  | none =>
    IO.eprintln "usage: hexlang [-v] [-e EXPR | FILE | --tour]"
    return 2

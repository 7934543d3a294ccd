import Binisaya.Command

/-! The command line: reads the file that a job needs and the input, and writes what comes of them. -/

namespace Binisaya

/-- What is found at a path of the file system. A file below something that is no directory is missing too, and so is
one whose path no file can have. -/
def readContents (p : Path) : IO Contents := do
  if p.isImpossible then return .missing
  try
    return .text (← IO.FS.readFile p.text)
  catch
    | .noFileOrDirectory .. => return .missing
    | .inappropriateType _ code _ => return if code = 21 then .directory else .missing
    | .invalidArgument .. => return .overlong
    | e => throw e

/-- What is found where a file may be written. What cannot be told beforehand shows when the file is written. -/
def readTarget : Option Path → IO Contents
  | none => return .missing
  | some p => try readContents p catch _ => return .missing

/-- All of a stream that is left. -/
partial def readAll (stream : IO.FS.Stream) (before : String) : IO String := do
  let line ← stream.getLine
  if line.isEmpty then return before else readAll stream (before ++ line)

/-- The input of a job; storing a program takes none. -/
def readJobInput : Job → IO String
  | .emit _ => return ""
  | .stored _ | .source _ => do readAll (← IO.getStdin) ""

/-- A word on why the command broke off, which the command itself does not write. -/
def Breakdown.message : Breakdown → String
  | .directory => "a directory stands in the place of a file"
  | .overlong => "the path of a file is too long"
  | .misread .malformed => "the file is not JSON"
  | .misread .endlessNumber => "a number in the file has too many digits"
  | .flaw f => f.message?.getD "the file does not hold a stored program"
  | .defect _ => "the program cannot be run"

/-- Writes what comes of a call and tells its exit status. -/
def deliver (t : Transcript) : IO UInt32 := do
  for (p, s) in t.written do
    IO.FS.writeFile p.text s
  IO.print t.output
  IO.eprint t.errors
  match t.ending with
  | .ok status => return status.toUInt32
  | .error b =>
    IO.eprintln b.message
    return 1

end Binisaya

open Binisaya in
def main (args : List String) : IO UInt32 := do
  match Command.plan args with
  | .error t => deliver t
  | .ok (o, job) =>
    let contents ← readContents job.path
    let input ← if contents matches .text _ then readJobInput job else pure ""
    let target ← readTarget (o.target? job)
    deliver (Command.perform o job contents target input.toList)

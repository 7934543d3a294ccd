import Binisaya.Command.Options
import Binisaya.Command.Path
import Binisaya.Command.Usage
import Binisaya.Document
import Binisaya.Json.Reader
import Binisaya.Json.Writer
import Binisaya.Program
import Binisaya.Run

/-! The command. From its arguments it finds a job, the file that the job needs and the one that it may write; how
the command ends depends only on what is found at these two places and on the input. -/

namespace Binisaya

inductive Job where
  /-- Stores the program of a source file beside it. -/
  | emit (path : Path)
  /-- Runs a stored program. -/
  | stored (path : Path)
  /-- Runs the program of a source file. -/
  | source (path : Path)
deriving DecidableEq, Repr

def Job.path : Job → Path
  | .emit p | .stored p | .source p => p

/-- Why the command breaks off. It has written nothing about that itself; what the user is told then is up to the
caller. -/
inductive Breakdown where
  /-- A directory stands where a file is read or written. -/
  | directory
  /-- The path of a file, or a part of it, is too long. -/
  | overlong
  | misread (m : Json.Misreading)
  | flaw (f : Flaw)
  | defect (d : Defect)
deriving DecidableEq, Repr

/-- What a call of the command comes to. -/
structure Transcript where
  /-- The exit status, unless the command broke off. -/
  ending : Except Breakdown Nat
  output : String := ""
  /-- What the command itself writes to the error stream, without any word on why it broke off. -/
  errors : String := ""
  /-- Files that the command writes. -/
  written : List (Path × String) := []

/-- The file with the debug log. -/
def logPath : Path := ⟨"", ["debug.txt"]⟩

/-- Where the program of a source file is stored. -/
def storedPath (p : Path) : Path := p.withSuffix ".ast.json"

/-- Why no file can be written where something is found. -/
def Contents.obstacle? : Contents → Option Breakdown
  | .directory => some .directory
  | .overlong => some .overlong
  | .missing | .text _ => none

namespace Options

def settings (o : Options) : Settings := ⟨o.scopedBlocks, !o.noBanner, o.verbosity⟩

/-- A name that is not empty. -/
def given (name : Option String) : Option String := name.filter (· != "")

/-- The job that the options ask for. -/
def job? (o : Options) : Option Job :=
  match given o.emitAst, given o.ast, given o.program with
  | some name, _, _ => some (.emit (.parse name))
  | none, some name, _ => some (.stored (.parse name))
  | none, none, some name => some (.source (.parse name))
  | none, none, none => none

/-- The file that a job may write: a stored program, or a debug log as soon as a level asks for one. -/
def target? (o : Options) : Job → Option Path
  | .emit p => some (storedPath p)
  | .stored _ | .source _ => if 0 < o.verbosity then some logPath else none

end Options

namespace Command

/-- The options and the job of a call, or the end of a call that has none. -/
def plan (args : List String) : Except Transcript (Options × Job) :=
  match Options.parse args with
  | .error .help => .error { ending := .ok 0, output := helpText }
  | .error (.wrong message) => .error { ending := .ok 2, errors := usageError message }
  | .ok o =>
    match o.job? with
    | some job => .ok (o, job)
    | none => .error { ending := .ok 2, errors := usageError "missing program file; or use --emit-ast/--ast" }

/-- Runs a program tree on an input. A debug log is begun before the program is. -/
def runTree (o : Options) (tree : Node) (target : Contents) (input : List Char) : Transcript :=
  let written := fun (m : Machine) => if 0 < o.verbosity then [(logPath, m.logText)] else []
  match target.obstacle? with
  | some b => { ending := .error b }
  | none =>
    match run o.settings ampleFuel tree (.fresh (unifyNewlines input)) with
    | .done _ m => { ending := .ok 0, output := m.output, written := written m }
    | .failed (.fault f) m =>
      { ending := .ok 1, output := m.output, errors := "Runtime error: " ++ f.report.line ++ "\n",
        written := written m }
    | .failed (.defect d) m => { ending := .error (.defect d), output := m.output, written := written m }
    | .outOfFuel => { ending := .ok 1 }

/-- The end of a call on a source that is no program. -/
def syntaxTranscript (f : Fault) : Transcript :=
  { ending := .ok 1, errors := "Syntax error: " ++ f.message ++ "\n" }

/-- Does a job whose file holds a text, given what is found where the job may write. -/
def performOn (o : Options) (job : Job) (text : List Char) (target : Contents) (input : List Char) : Transcript :=
  match job with
  | .emit p =>
    match readProgram text with
    | .error f => syntaxTranscript f
    | .ok tree =>
      match target.obstacle? with
      | some b => { ending := .error b }
      | none =>
        { ending := .ok 0, output := (storedPath p).text ++ "\n",
          written := [(storedPath p, .ofList (Json.write (Document.ofNode tree)))] }
  | .stored _ =>
    match Json.parse text with
    | .error m => { ending := .error (.misread m) }
    | .ok j =>
      match Document.toNode j with
      | .error f => { ending := .error (.flaw f) }
      | .ok tree => runTree o tree target input
  | .source _ =>
    match readProgram text with
    | .error f => syntaxTranscript f
    | .ok tree => runTree o tree target input

/-- Does a job, given what is found at its path and where it may write. Files are read with any line ends. -/
def perform (o : Options) (job : Job) (contents target : Contents) (input : List Char) : Transcript :=
  match contents with
  | .missing => { ending := .ok 1, errors := "Error: file " ++ job.path.text ++ " not found\n" }
  | .directory => { ending := .error .directory }
  | .overlong => { ending := .error .overlong }
  | .text s => performOn o job (unifyNewlines s.toList) target input

/-- A call of the command in a working directory with given files. -/
def call (files : FileTree) (args : List String) (input : List Char) : Transcript :=
  match plan args with
  | .error t => t
  | .ok (o, job) =>
    perform o job (files.find job.path) (((o.target? job).map files.find).getD .missing) input

/-- The files that a call creates or changes, by their places in the working directory. -/
def changes (files : FileTree) (t : Transcript) : FileTree :=
  (t.written.map fun (p, s) => (files.resolve p, s)).filter fun (place, s) => files.lookup place != some s

end Command

end Binisaya

import Binisaya.Program
import Binisaya.Run

/-! Ways to run a source. Input in memory is taken as it is; a console and a file are read with any line ends. -/

namespace Binisaya

/-- Runs the program of a source on an input in memory. -/
def runSource (cfg : Settings) (fuel : Nat) (source input : List Char) : Except Fault (Outcome Unit) :=
  (readProgram source).map fun tree => run cfg fuel tree (.fresh input)

/-- Runs the program of a source on what is typed at a console. -/
def runAtConsole (cfg : Settings) (fuel : Nat) (source typed : List Char) : Except Fault (Outcome Unit) :=
  runSource cfg fuel source (unifyNewlines typed)

/-- Runs the program of a source file on what is typed at a console. -/
def runFile (cfg : Settings) (fuel : Nat) (contents typed : List Char) : Except Fault (Outcome Unit) :=
  runAtConsole cfg fuel (unifyNewlines contents) typed

end Binisaya

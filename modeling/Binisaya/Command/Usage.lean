/-! What the command tells about itself. -/

namespace Binisaya

/-- How the command is called. -/
def usageText : String :=
  "usage: bisaya [-h] [-v] [--scoped-blocks] [--no-banner]\n" ++
  "              [--emit-ast PROGRAM_FILE | --ast AST_JSON_FILE]\n" ++
  "              [program]\n"

/-- What the command does and what its options mean. -/
def helpText : String :=
  usageText ++ "\n" ++
  "Bisaya++ language interpreter\n" ++ "\n" ++
  "positional arguments:\n" ++
  "  program               Bisaya++ program file to execute\n" ++ "\n" ++
  "options:\n" ++
  "  -h, --help            show this help message and exit\n" ++
  "  -v                    increase debug verbosity (can be repeated)\n" ++
  "  --scoped-blocks       run each PUNDOK block in its own namespace\n" ++
  "  --no-banner           suppress the completion notice\n" ++
  "  --emit-ast PROGRAM_FILE\n" ++
  "                        emit AST JSON for the given program\n" ++
  "  --ast AST_JSON_FILE   execute AST from a JSON file\n"

/-- The complaint about a wrong call. -/
def usageError (message : String) : String := usageText ++ "bisaya: error: " ++ message ++ "\n"

end Binisaya

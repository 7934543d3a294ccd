import Binisaya.Text.Digit
import Binisaya.Text.Quoted

/-! The options of the command. Long options can be cut short as long as only one is meant and take a value after
an equals sign or as the next argument; short ones can be run together. Two hyphens end the options. -/

namespace Binisaya

inductive Flag where
  | help
  | verbose
  | scopedBlocks
  | noBanner
  | emitAst
  | ast
deriving DecidableEq, Repr

namespace Flag

/-- The spellings of all options, in the order in which they are listed. -/
def spellings : List (String × Flag) :=
  [("-h", help), ("--help", help), ("-v", verbose), ("--scoped-blocks", scopedBlocks), ("--no-banner", noBanner),
    ("--emit-ast", emitAst), ("--ast", ast)]

def ofSpelling? (s : String) : Option Flag := spellings.lookup s

/-- All spellings of an option, as complaints name it. -/
def shown (f : Flag) : String := "/".intercalate ((spellings.filter (·.2 = f)).map Prod.fst)

def takesValue (f : Flag) : Bool := f = emitAst || f = ast

end Flag

/-- What an argument before the end of the options is. -/
inductive Argument where
  | plain
  | unknown
  /-- An option as it was found, with a value that is part of the argument. -/
  | option (spelling : String) (flag : Flag) (value : Option String)
  | ambiguous (candidates : List String)
deriving DecidableEq, Repr

/-- The parts of a text before and after its first equals sign. -/
def splitEquals (s : String) : String × Option String :=
  let cs := s.toList
  match cs.dropWhile (· != '=') with
  | _ :: rest => (.ofList (cs.takeWhile (· != '=')), some (.ofList rest))
  | [] => (s, none)

/-- A text without a line end behind it. -/
def dropLineEnd (cs : List Char) : List Char := if cs.getLast? = some '\n' then cs.dropLast else cs

/-- Tells that an argument reads as a negative number: digits, or digits after a point. A line end may follow. -/
def isNegativeNumber (s : String) : Bool :=
  match dropLineEnd s.toList with
  | '-' :: cs =>
    let isDigit := fun c => (scriptDigit? c).isSome
    match cs.dropWhile isDigit with
    | [] => !cs.isEmpty
    | '.' :: fraction => !fraction.isEmpty && fraction.all isDigit
    | _ => false
  | _ => false

/-- The options that an argument may mean which spells none in full: a long one by its beginning, a short one
by its letter with more behind it. -/
def candidates (arg : String) : List (String × Flag × Option String) :=
  match arg.toList with
  | '-' :: '-' :: _ =>
    let (start, value) := splitEquals arg
    (Flag.spellings.filter fun (spelling, _) => start.toList.isPrefixOf spelling.toList).map
      fun (spelling, flag) => (spelling, flag, value)
  | '-' :: c :: rest =>
    let letter := String.ofList ['-', c]
    ((Flag.ofSpelling? letter).map fun flag => (letter, flag, some (String.ofList rest))).toList
  | _ => []

/-- An argument that starts like an option but spells none in full. -/
def classifyRest (arg : String) : Argument :=
  match candidates arg with
  | [(spelling, flag, value)] => .option spelling flag value
  | [] => if isNegativeNumber arg || arg.toList.contains ' ' then .plain else .unknown
  | several => .ambiguous (several.map Prod.fst)

/-- Tells what an argument before the end of the options is. -/
def classify (arg : String) : Argument :=
  if arg.toList.head? != some '-' || arg = "-" then .plain
  else match Flag.ofSpelling? arg with
    | some flag => .option arg flag none
    | none =>
      match splitEquals arg with
      | (name, some value) =>
        match Flag.ofSpelling? name with
        | some flag => .option name flag (some value)
        | none => classifyRest arg
      | (_, none) => classifyRest arg

/-- What the command is asked for. -/
structure Options where
  verbosity : Nat := 0
  scopedBlocks : Bool := false
  noBanner : Bool := false
  emitAst : Option String := none
  ast : Option String := none
  program : Option String := none
  /-- Arguments that nothing could be made of. -/
  extras : List String := []
deriving DecidableEq, Repr

/-- Why a call comes to nothing. -/
inductive Stop where
  | help
  | wrong (message : String)
deriving DecidableEq, Repr

namespace Options

def complain {α : Type} (flag : Flag) (message : String) : Except Stop α :=
  .error (.wrong ("argument " ++ flag.shown ++ ": " ++ message))

def ignoredValue {α : Type} (flag : Flag) (value : String) : Except Stop α :=
  complain flag ("ignored explicit argument " ++ quoted value)

/-- Options that take no value. -/
def setFlag (o : Options) : Flag → Except Stop Options
  | .help => .error .help
  | .verbose => .ok { o with verbosity := o.verbosity + 1 }
  | .scopedBlocks => .ok { o with scopedBlocks := true }
  | .noBanner => .ok { o with noBanner := true }
  | .emitAst | .ast => .ok o

/-- The value that is joined to an option. Two hyphens are no value, which is the same as an empty one. -/
def joinedValue (value : String) : String := if value = "--" then "" else value

/-- Options that take a value; only one of the two can be given. -/
def setValue (o : Options) (flag : Flag) (value : String) : Except Stop Options :=
  match flag with
  | .emitAst =>
    if o.ast.isSome then complain flag ("not allowed with argument " ++ Flag.ast.shown)
    else .ok { o with emitAst := some value }
  | .ast =>
    if o.emitAst.isSome then complain flag ("not allowed with argument " ++ Flag.emitAst.shown)
    else .ok { o with ast := some value }
  | _ => .ok o

/-- The short options that are run together after a first one. -/
def runTogether (flag : Flag) : List Char → Except Stop (List Flag)
  | [] => .ok [flag]
  | c :: cs =>
    match Flag.ofSpelling? (.ofList ['-', c]) with
    | some next => (runTogether next cs).map (flag :: ·)
    | none => ignoredValue flag (.ofList (c :: cs))

/-- An option without a value of its own, with what is joined to it. -/
def setJoined (o : Options) (spelling : String) (flag : Flag) : Option String → Except Stop Options
  | none => o.setFlag flag
  | some value =>
    if spelling.toList.take 2 = ['-', '-'] || value = "" then ignoredValue flag value
    else do (← runTogether flag value.toList).foldlM setFlag o

def addExtras (o : Options) (args : List String) : Options := { o with extras := o.extras ++ args }

/-- The arguments after two hyphens: the first is the program unless there is one already. -/
def addPlain (o : Options) (args : List String) : Options :=
  match o.program, args with
  | none, "--" :: arg :: rest => { o with program := some arg }.addExtras rest
  | none, ["--"] => o
  | _, args => o.addExtras args

/-- Takes the arguments one after the other. -/
def takeAll (o : Options) : List String → Except Stop Options
  | [] => .ok o
  | "--" :: rest => .ok (o.addPlain ("--" :: rest))
  | arg :: rest =>
    match classify arg with
    | .option spelling flag value =>
      if flag.takesValue then
        match value, rest with
        | some v, rest => do (← o.setValue flag (joinedValue v)).takeAll rest
        | none, v :: rest =>
          if v = "--" || classify v != .plain then complain flag "expected one argument"
          else do (← o.setValue flag v).takeAll rest
        | none, [] => complain flag "expected one argument"
      else do (← o.setJoined spelling flag value).takeAll rest
    | .plain =>
      match o.program, rest with
      | none, "--" :: rest => .ok ({ o with program := some arg }.addExtras rest)
      | none, rest => { o with program := some arg }.takeAll rest
      | some _, rest => (o.addExtras [arg]).takeAll rest
    | _ => (o.addExtras [arg]).takeAll rest

/-- Complains about the first argument before two hyphens that can mean several options. -/
def checkAmbiguous (args : List String) : Except Stop Unit :=
  (args.takeWhile (· != "--")).forM fun arg =>
    match classify arg with
    | .ambiguous several =>
      .error (.wrong ("ambiguous option: " ++ arg ++ " could match " ++ ", ".intercalate several))
    | _ => .ok ()

/-- Reads the arguments of a call. -/
def parse (args : List String) : Except Stop Options := do
  checkAmbiguous args
  let o ← takeAll {} args
  if o.extras.isEmpty then return o
  else .error (.wrong ("unrecognized arguments: " ++ " ".intercalate o.extras))

end Options

end Binisaya

import Binisaya.Text.Pieces

/-! Paths of files and the files of a working directory. A path is written without empty parts and without parts
that stay where they are; steps upwards are kept, since where they lead is for the files to say. -/

namespace Binisaya

structure Path where
  /-- The slashes in front of a path that does not start at the working directory. -/
  root : String
  parts : List String
deriving DecidableEq, Repr

namespace Path

/-- The slashes that count at the start of a path: one, or exactly two. -/
def rootOf (cs : List Char) : String :=
  match (cs.takeWhile (· == '/')).length with
  | 0 => ""
  | 2 => "//"
  | _ => "/"

/-- The path that a text names. -/
def parse (s : String) : Path :=
  ⟨rootOf s.toList, ((pieces '/' s.toList).map String.ofList).filter fun part => part != "" && part != "."⟩

/-- The text of a path. -/
def text (p : Path) : String :=
  if p.root = "" ∧ p.parts = [] then "." else p.root ++ "/".intercalate p.parts

/-- Tells that no file can have a path: one with a zero character in it. -/
def isImpossible (p : Path) : Bool := p.text.toList.contains '\x00'

/-- The path with a suffix on its last part. -/
def withSuffix (p : Path) (suffix : String) : Path :=
  match p.parts.reverse with
  | [] => p
  | last :: rest => { p with parts := ((last ++ suffix) :: rest).reverse }

end Path

/-- The most bytes that one part of a path can have. -/
def longestName : Nat := 255

/-- The most bytes that a path can have. -/
def longestPath : Nat := 4095

/-- What is found at a path. -/
inductive Contents where
  | missing
  | directory
  /-- Nothing can be there, since the path or a part of it is too long. -/
  | overlong
  | text (s : String)
deriving DecidableEq, Repr

/-- The files below a working directory, by the parts of their paths. -/
abbrev FileTree := List (List String × String)

/-- Where a path leads: to a place below the working directory, out of it, to nothing, or to a part that is too
long to be looked for. -/
inductive Location where
  | inside (parts : List String)
  | outside
  | nowhere
  | overlong
deriving DecidableEq, Repr

namespace FileTree

def isDirectory (files : FileTree) (parts : List String) : Bool :=
  parts.isEmpty || files.any fun (path, _) => parts.isPrefixOf path && parts != path

/-- What is found at a place below the working directory. -/
def contents (files : FileTree) (parts : List String) : Contents :=
  match files.lookup parts with
  | some s => .text s
  | none => if files.isDirectory parts then .directory else .missing

/-- Follows one part of a path. Only what a directory holds is looked for, so a part that is too long is noticed
only there. Outside the working directory only steps upwards can be followed. -/
def follow (files : FileTree) (place : Location) (part : String) : Location :=
  match place with
  | .nowhere => .nowhere
  | .overlong => .overlong
  | .outside =>
    if part = ".." then .outside
    else if longestName < part.utf8ByteSize then .overlong
    else .nowhere
  | .inside parts =>
    if !files.isDirectory parts then .nowhere
    else if part = ".." then (if parts.isEmpty then .outside else .inside parts.dropLast)
    else if longestName < part.utf8ByteSize then .overlong
    else if files.contents (parts ++ [part]) = .missing then .nowhere
    else .inside (parts ++ [part])

/-- The place to which a path leads. -/
def locate (files : FileTree) (p : Path) : Location :=
  if p.isImpossible then .nowhere
  else if longestPath < p.text.utf8ByteSize then .overlong
  else p.parts.foldl files.follow (if p.root = "" then .inside [] else .outside)

/-- What is found at a path. -/
def find (files : FileTree) (p : Path) : Contents :=
  match files.locate p with
  | .nowhere => .missing
  | .overlong => .overlong
  | .outside => .directory
  | .inside parts => files.contents parts

/-- The parts of the path of a file beside an existing one. -/
def resolve (files : FileTree) (p : Path) : List String :=
  match files.locate { p with parts := p.parts.dropLast } with
  | .inside parts => parts ++ p.parts.getLast?.toList
  | _ => p.parts

end FileTree

end Binisaya

import Reckoner.Text.Quoted

/-!
# Paths

A path is a list of parts behind an optional root. Empty parts and single dots say
nothing and are dropped; double dots stay, since what they lead to depends on the
files.
-/

namespace Reckoner

structure Path where
  /-- Nothing, one slash, or exactly two. -/
  root : Text
  parts : List Text
  deriving DecidableEq, Repr

namespace Path

/-! ## Reading and writing -/

/-- Two slashes at the start are a root of their own; one and more than two are the same. -/
def rootOf (t : Text) : Text :=
  match (t.takeWhile (· = '/')).length with
  | 0 => []
  | 2 => ['/', '/']
  | _ => ['/']

def ofText (t : Text) : Path :=
  ⟨rootOf t, (t.pieces '/').filter fun part => part != [] && part != ['.']⟩

def toText (p : Path) : Text :=
  if p.root.isEmpty && p.parts.isEmpty then ['.'] else p.root ++ ['/'].intercalate p.parts

/-! ## Names and suffixes -/

/-- The last part, empty where there is none. -/
def name (p : Path) : Text := p.parts.getLast?.getD []

/-- What the last point of the name starts, unless that point is at an end of the name. -/
def suffix (p : Path) : Text :=
  let tail := (p.name.reverse.takeWhile (· != '.')).reverse
  match p.name.reverse.dropWhile (· != '.') with
  | _ :: _ :: _ => if tail.isEmpty then [] else '.' :: tail
  | _ => []

/-- What every point of the name starts, up to the next one; points at the start of
the name do not count, and a name that ends in a point has no suffixes. -/
def suffixes (p : Path) : List Text :=
  if p.name.getLast? = some '.' then []
  else ((Text.pieces '.' (p.name.dropWhile (· = '.'))).drop 1).map ('.' :: ·)

def stem (p : Path) : Text := p.name.take (p.name.length - p.suffixes.flatten.length)

def withName (p : Path) (name : Text) : Path := { p with parts := p.parts.dropLast ++ [name] }

/-! ## Where results go -/

/-- A path without a name has no file beside it. -/
structure Nameless where
  path : Path
  deriving DecidableEq, Repr

def Nameless.message (n : Nameless) : Text :=
  "PosixPath(".toList ++ n.path.toText.quoted ++ ") has an empty name".toList

def resultsEnding : Text := "_results.txt".toList

/-- The file beside the input that holds its results: the suffixes become part of the name. -/
def results (p : Path) : Except Nameless Path :=
  if p.name.isEmpty then .error ⟨p⟩
  else
    let suffixes := p.suffixes.flatten.map fun c => if c = '.' then '_' else c
    .ok (p.withName (p.stem ++ suffixes ++ resultsEnding))

end Path

end Reckoner

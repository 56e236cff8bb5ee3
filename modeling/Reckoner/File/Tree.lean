import Reckoner.File.Path
import Reckoner.Text.Utf8

/-!
# File trees

Files with what they hold. A file has the parts of its path from the working
directory as its key, or the root and the parts behind it. A directory exists where
a file lies below it, and where the tree says so.
-/

namespace Reckoner

/-! ## Contents -/

inductive ArchiveKind
  | zip
  | tarXz
  | sevenZip
  deriving DecidableEq, Repr

/-- A member of an archive; one without content is a directory. -/
structure Member where
  name : Text
  content : Option Utf8.Bytes
  deriving DecidableEq, Repr

inductive Content
  | bytes (data : Utf8.Bytes)
  | archive (kind : ArchiveKind) (members : List Member)
  deriving DecidableEq, Repr

/-- The bytes that every archive of a kind starts with. -/
def ArchiveKind.signature : ArchiveKind → Utf8.Bytes
  | zip => [0x50, 0x4b, 0x03, 0x04]
  | tarXz => [0xfd, 0x37, 0x7a, 0x58, 0x5a, 0x00]
  | sevenZip => [0x37, 0x7a, 0xbc, 0xaf, 0x27, 0x1c]

/-- The bytes of a file, of an archive as far as its kind fixes them. -/
def Content.data : Content → Utf8.Bytes
  | bytes data => data
  | archive kind _ => kind.signature

/-! ## Trees -/

abbrev FileKey := List Text

structure FileTree where
  files : List (FileKey × Content)
  /-- Directories beside those that hold a file. -/
  directories : List FileKey := []

inductive Place
  | file (key : FileKey) (content : Content)
  | directory
  /-- Nothing, in a directory that exists. -/
  | vacant (key : FileKey)
  /-- Nothing, and no directory to put it in. -/
  | nowhere
  /-- A file stands where a directory should. -/
  | belowFile
  deriving DecidableEq, Repr

namespace FileTree

def empty : FileTree := { files := [] }

def get? (t : FileTree) (key : FileKey) : Option Content := t.files.lookup key

/-- Puts a file in its place, over the one that is there. -/
def put (t : FileTree) (key : FileKey) (content : Content) : FileTree :=
  if t.files.any (·.1 == key) then
    { t with files := t.files.map fun (k, c) => if k == key then (k, content) else (k, c) }
  else { t with files := t.files ++ [(key, content)] }

def isDirectory (t : FileTree) (key : FileKey) : Bool :=
  key.isEmpty || t.directories.contains key || t.files.any fun (k, _) => key.isPrefixOf k && key != k

/-! ## Following paths -/

/-- The directory that double dots in `here` lead to. A root leads to itself, and
the working directory to one above it, which keeps the double dots as its key. -/
def above (here : FileKey) : FileKey :=
  match here.getLast? with
  | none => [['.', '.']]
  | some part =>
    if part = ['.', '.'] then here ++ [part]
    else if part.head? = some '/' then here
    else here.dropLast

def follow (t : FileTree) (here : FileKey) : List Text → Place
  | [] => .directory
  | part :: rest =>
    if part = ['.', '.'] then t.follow (above here) rest
    else
      let next := here ++ [part]
      if t.isDirectory next then t.follow next rest
      else match t.get? next with
        | some content => if rest.isEmpty then .file next content else .belowFile
        | none => if rest.isEmpty then .vacant next else .nowhere

def startOf (p : Path) : FileKey := if p.root.isEmpty then [] else [p.root]

def place (t : FileTree) (p : Path) : Place := t.follow (startOf p) p.parts

/-- The keys of the places that a path passes, each with the parts up to there. -/
def keysAlong (p : Path) : List FileKey :=
  (p.parts.foldl (fun (keys, here) part =>
    let next := if part = ['.', '.'] then above here else here ++ [part]
    (keys ++ [next], next)) ([startOf p], startOf p)).1

/-- Puts a file where a path leads, with a directory everywhere that the path passes. -/
def insert (t : FileTree) (p : Path) (content : Content) : FileTree :=
  let keys := keysAlong p
  { t with directories := t.directories ++ keys.dropLast }.put (keys.getLast?.getD []) content

def pathOf : FileKey → Text
  | first :: rest =>
    if first.head? = some '/' then first ++ ['/'].intercalate rest else ['/'].intercalate (first :: rest)
  | [] => ['.']

def isFile (t : FileTree) (p : Path) : Bool :=
  match t.place p with
  | .file .. => true
  | _ => false

/-- The texts of the result files in the tree. -/
def results (t : FileTree) : List (Text × Text) :=
  t.files.filterMap fun (key, content) =>
    if Path.resultsEnding.isSuffixOf (key.getLast?.getD []) then
      match Utf8.decode content.data with
      | .ok text => some (pathOf key, text)
      | .error _ => none
    else none

/-! ## Writing -/

inductive WriteFault
  | noDirectory
  | isDirectory
  | belowFile
  deriving DecidableEq, Repr

/-- Where a file at the path is to be put. -/
def keyFor (t : FileTree) (p : Path) : Except WriteFault FileKey :=
  match t.place p with
  | .file key _ => .ok key
  | .vacant key => .ok key
  | .directory => .error .isDirectory
  | .nowhere => .error .noDirectory
  | .belowFile => .error .belowFile

end FileTree

end Reckoner

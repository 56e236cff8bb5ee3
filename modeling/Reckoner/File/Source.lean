import Reckoner.File.Tree
import Reckoner.Text.Lines

/-!
# Sources of expressions

Expressions come from a text file, one a line, or from the first text file in an
archive. Blank lines are skipped but counted. The name of the file alone decides
how it is read.
-/

namespace Reckoner

/-- An expression and the number of its line, from one on. -/
structure Line where
  number : Nat
  text : Text
  deriving DecidableEq, Repr

/-- The lines of a text that are not blank, without the blanks at their ends. -/
def expressions (t : Text) : List Line :=
  (t.lines.zipIdx 1).filterMap fun (line, number) =>
    if line.strip.isEmpty then none else some ⟨number, line.strip⟩

/-! ## Libraries -/

/-- What an archive library says when it gives up: the kind of its fault, and a message
where that is a fault of a value. -/
structure LibraryFault where
  name : Text
  message? : Option Text
  deriving DecidableEq, Repr

/-- What the libraries that read archives make of what no archive says by itself. -/
structure Library where
  /-- The members of a file that is not set down as an archive of the kind, such as a
  damaged or a locked one, or what keeps them from being read. -/
  unpack : ArchiveKind → Content → Except LibraryFault (List Member)
  /-- What stands under a directory's name once the directory is extracted, from an
  archive of these members. -/
  directory : List Member → Text → Except LibraryFault Utf8.Bytes

/-- Takes nothing for an archive but what is set down as one, and extracts an empty
file for a directory. -/
def Library.standard : Library where
  unpack kind _ :=
    let name := match kind with
      | .zip => "BadZipFile".toList
      | .tarXz => "ReadError".toList
      | .sevenZip => "Bad7zFile".toList
    .error ⟨name, none⟩
  directory _ _ := .ok []

namespace Source

inductive Fault
  | malformed (m : Utf8.Malformed)
  | unsupported (format : Text)
  | noTextFile (kind : ArchiveKind)
  | library (fault : LibraryFault)
  /-- The member that is to be read is a directory. -/
  | directoryMember
  deriving DecidableEq, Repr

/-! ## Archives -/

def kindName : ArchiveKind → Text
  | .zip => "zip".toList
  | .tarXz => "tar.xz".toList
  | .sevenZip => "7z".toList

def chain : ArchiveKind → List Text
  | .zip => [".zip".toList]
  | .tarXz => [".tar".toList, ".xz".toList]
  | .sevenZip => [".7z".toList]

def archiveKind? (p : Path) : Option ArchiveKind :=
  [ArchiveKind.zip, .tarXz, .sevenZip].find? fun kind => (chain kind).isSuffixOf p.suffixes

/-- The name that an archive keeps for a member: a directory's ends in a slash in one kind. -/
def keptName (kind : ArchiveKind) (m : Member) : Text :=
  if kind = .zip && m.content.isNone then m.name ++ ['/'] else m.name

/-- The names among which a text file is looked for: one kind tells directories apart. -/
def listedNames (kind : ArchiveKind) (members : List Member) : List Text :=
  (members.filter fun m => kind != .tarXz || m.content.isSome).map (keptName kind)

def isTextName (name : Text) : Bool := ".txt".toList.isSuffixOf name

section
variable (lib : Library)

/-- The members of an archive, or of what the library takes for one. -/
def membersOf (kind : ArchiveKind) (content : Content) : Except LibraryFault (List Member) :=
  match content with
  | .archive actual members => if actual = kind then .ok members else lib.unpack kind content
  | .bytes _ => lib.unpack kind content

/-- The bytes of the member of a name, the last one of several. One kind extracts a
directory as it does a file. -/
def extract (kind : ArchiveKind) (members : List Member) (name : Text) : Except Fault Utf8.Bytes :=
  match (members.reverse.find? (keptName kind · == name)).bind Member.content with
  | some bytes => .ok bytes
  | none =>
    if kind = .sevenZip then (lib.directory members name).mapError .library
    else .error .directoryMember

/-- The bytes of the first text file. -/
def firstText (kind : ArchiveKind) (members : List Member) : Except Fault Utf8.Bytes :=
  match (listedNames kind members).find? isTextName with
  | none => .error (.noTextFile kind)
  | some name => extract lib kind members name

def archiveText (kind : ArchiveKind) (content : Content) : Except Fault Utf8.Bytes :=
  match membersOf lib kind content with
  | .ok members => firstText lib kind members
  | .error fault => .error (.library fault)

/-! ## Reading -/

def decode (bytes : Utf8.Bytes) : Except Fault Text :=
  match Utf8.decode bytes with
  | .ok text => .ok text
  | .error m => .error (.malformed m)

/-- The text that a file gives: its own, with unified newlines, or a member's. -/
def load (p : Path) (content : Content) : Except Fault Text :=
  if p.suffix = ".txt".toList then (decode content.data).map Text.unifyNewlines
  else match archiveKind? p with
    | some kind => do decode (← archiveText lib kind content)
    | none => .error (.unsupported (if p.suffixes.isEmpty then p.name else p.suffixes.flatten))

def read (p : Path) (content : Content) : Except Fault (List Line) :=
  (load lib p content).map expressions

end

/-! ## What a fault says -/

/-- The message of a fault of a value; no other has one that is told. -/
def Fault.message? : Fault → Option Text
  | malformed m => some m.message
  | unsupported format => some ("📄❌ Unsupported archive format: ".toList ++ format)
  | noTextFile kind => some ("📄❌ No .txt file found in ".toList ++ kindName kind ++ " archive".toList)
  | library fault => fault.message?
  | directoryMember => none

end Source

end Reckoner

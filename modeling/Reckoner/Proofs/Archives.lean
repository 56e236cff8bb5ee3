import Mathlib.Data.List.Nodup
import Reckoner.Proofs.Rows
import Reckoner.Proofs.Suffixes

/-!
# Text files in archives

An archive is read at the first member that its kind lists as a text file. The kinds list alike,
except that one of them takes a directory for a file. The member is read as a text file of its
bytes would be.
-/

namespace Reckoner.Source

variable {lib : Library} {kind : ArchiveKind} {members : List Member} {m : Member} {name : Text} {bytes : Utf8.Bytes}

/-! ## The member that is read -/

/-- The kind lists the member, and under a text file's name. -/
def takes (kind : ArchiveKind) (m : Member) : Bool :=
  isTextName m.name && (m.content.isSome || kind == .sevenZip)

theorem isTextName_slash (name : Text) : isTextName (name ++ ['/']) = false := by
  unfold isTextName
  rw [Bool.eq_false_iff, Ne, List.isSuffixOf_iff_suffix]
  rintro ⟨front, hname⟩
  have hlast := congrArg List.getLast? hname
  rw [List.getLast?_append, List.getLast?_append] at hlast
  cases hlast

theorem keptName_of_content (h : m.content.isSome = true) : keptName kind m = m.name := by
  obtain ⟨bytes, hbytes⟩ := Option.isSome_iff_exists.mp h
  simp [keptName, hbytes]

theorem name_eq_of_keptName (hname : isTextName name = true) (h : keptName kind m = name) : m.name = name := by
  unfold keptName at h
  split at h
  · rw [← h, isTextName_slash] at hname
    cases hname
  · exact h

theorem takes_eq (kind : ArchiveKind) (m : Member) :
    ((kind != .tarXz || m.content.isSome) && isTextName (keptName kind m)) = takes kind m := by
  obtain ⟨name, content⟩ := m
  cases kind <;> cases content <;> simp [takes, keptName, isTextName_slash]

theorem find?_listedNames (kind : ArchiveKind) (members : List Member) :
    (listedNames kind members).find? isTextName = (members.find? (takes kind)).map (keptName kind) := by
  have htakes : (fun m => decide ((kind != .tarXz || m.content.isSome) = true ∧
      (isTextName ∘ keptName kind) m = true)) = takes kind := by
    funext m
    rw [← takes_eq, Bool.decide_and, Bool.decide_eq_true, Bool.decide_eq_true]
    rfl
  rw [listedNames, List.find?_map, List.find?_filter, htakes]

theorem keptName_of_takes (h : takes kind m = true) : keptName kind m = m.name := by
  obtain ⟨-, hlisted⟩ := Bool.and_eq_true_iff.mp h
  rcases Bool.or_eq_true_iff.mp hlisted with hcontent | hkind
  · exact keptName_of_content hcontent
  · rw [eq_of_beq hkind]
    rfl

theorem firstText_of_none (h : members.find? (takes kind) = none) :
    firstText lib kind members = .error (.noTextFile kind) := by
  unfold firstText
  rw [find?_listedNames, h]
  rfl

/-- Where no other member has its name, it is the member itself that is extracted. -/
theorem extract_of_only (hm : m ∈ members)
    (honly : ∀ other ∈ members, keptName kind other = keptName kind m → other = m) :
    extract lib kind members (keptName kind m) = match m.content with
      | some bytes => .ok bytes
      | none =>
        if kind = .sevenZip then (lib.directory members (keptName kind m)).mapError .library
        else .error .directoryMember := by
  have hlast : members.reverse.find? (keptName kind · == keptName kind m) = some m := by
    obtain ⟨other, hother⟩ : ∃ other, members.reverse.find? (keptName kind · == keptName kind m) = some other := by
      rw [← Option.isSome_iff_exists, List.find?_isSome]
      exact ⟨m, List.mem_reverse.mpr hm, BEq.rfl⟩
    have hname := List.find?_some hother
    rw [beq_iff_eq] at hname
    rw [hother, honly other (List.mem_reverse.mp (List.mem_of_find?_eq_some hother)) hname]
  unfold extract
  cases hcontent : m.content with
  | some bytes => simp only [hlast, Option.bind_some, hcontent]
  | none => simp only [hlast, Option.bind_some, hcontent]

theorem firstText_of_some (h : members.find? (takes kind) = some m)
    (honly : ∀ other ∈ members, keptName kind other = m.name → other = m) :
    firstText lib kind members = match m.content with
      | some bytes => .ok bytes
      | none => (lib.directory members m.name).mapError .library := by
  have htakes : takes kind m = true := List.find?_some h
  have hkept := keptName_of_takes htakes
  rw [← hkept] at honly
  unfold firstText
  rw [find?_listedNames, h, Option.map_some]
  dsimp only
  rw [extract_of_only (List.mem_of_find?_eq_some h) honly, hkept]
  cases hcontent : m.content with
  | some bytes => rfl
  | none =>
    have hkind : kind = .sevenZip := by simpa [takes, hcontent] using (Bool.and_eq_true_iff.mp htakes).2
    exact if_pos hkind

theorem archiveText_archive (kind : ArchiveKind) (members : List Member) :
    archiveText lib kind (.archive kind members) = firstText lib kind members := by
  unfold archiveText membersOf
  dsimp only
  rw [if_pos rfl]

theorem read_archive {p : Path} (hp : archiveKind? p = some kind) (content : Content) :
    Source.read lib p content = (archiveText lib kind content >>= decode).map expressions := by
  unfold Source.read load
  rw [if_neg (suffix_of_archiveKind? hp), hp]

/-! ## A file alone and in an archive -/

/-- The first text file of the archive holds the bytes, and no other member has its name. Only where
directories can be told from files may one with a text file's name stand before it. -/
def Leads (kind : ArchiveKind) (bytes : Utf8.Bytes) (members : List Member) : Prop :=
  ∃ front name back, members = front ++ ⟨name, some bytes⟩ :: back ∧ isTextName name = true ∧
    (∀ m ∈ front, isTextName m.name = true → m.content = none ∧ kind ≠ .sevenZip) ∧
    ∀ m ∈ front ++ back, keptName kind m ≠ name

theorem Leads.firstText (h : Leads kind bytes members) : Source.firstText lib kind members = .ok bytes := by
  obtain ⟨front, name, back, rfl, hname, hfront, honly⟩ := h
  have hfind : (front ++ ⟨name, some bytes⟩ :: back).find? (takes kind) = some ⟨name, some bytes⟩ := by
    rw [List.find?_eq_some_iff_append]
    refine ⟨by simp [takes, hname], front, back, rfl, fun m hm => ?_⟩
    by_cases htext : isTextName m.name = true
    · obtain ⟨hcontent, hkind⟩ := hfront m hm htext
      simp [takes, hcontent, hkind]
    · simp [takes, htext]
  rw [firstText_of_some hfind]
  intro other hother hkept
  rw [List.mem_append, List.mem_cons] at hother
  rcases hother with hmem | rfl | hmem
  · exact absurd hkept (honly other (List.mem_append_left back hmem))
  · rfl
  · exact absurd hkept (honly other (List.mem_append_right front hmem))

/-- A text file and an archive that leads with its bytes give the same lines, or have the same fault. -/
theorem read_leads {p q : Path} (hp : p.suffix = ".txt".toList) (hq : archiveKind? q = some kind)
    (h : Leads kind bytes members) :
    Source.read lib q (.archive kind members) = Source.read lib p (.bytes bytes) ∧
      Source.read lib p (.bytes bytes) = (decode bytes).map expressions := by
  rw [read_archive hq, archiveText_archive, h.firstText, ok_bind, read_textFile hp]
  exact ⟨rfl, rfl⟩

/-- Bytes with both kinds of returns, behind a directory with a text file's name. -/
def archivedBytes : Utf8.Bytes := Utf8.encode "1+2\r\n\r 3 \u2028".toList

def archivedMembers : List Member :=
  [⟨"d.txt".toList, none⟩, ⟨"notes".toList, some [0xff]⟩, ⟨"d.txt/in.txt".toList, some archivedBytes⟩,
    ⟨"more.txt".toList, some []⟩]

theorem read_leads_tarXz :
    (Path.ofText "in.txt".toList).suffix = ".txt".toList ∧ archiveKind? (.ofText "in.tar.xz".toList) = some .tarXz ∧
      Leads .tarXz archivedBytes archivedMembers ∧
      Source.read .standard (.ofText "in.tar.xz".toList) (.archive .tarXz archivedMembers) =
        .ok [⟨1, "1+2".toList⟩, ⟨3, ['3']⟩] := by
  have hp : (Path.ofText "in.txt".toList).suffix = ".txt".toList := by decide
  have hq : archiveKind? (.ofText "in.tar.xz".toList) = some .tarXz := by decide
  have hleads : Leads .tarXz archivedBytes archivedMembers :=
    ⟨[⟨"d.txt".toList, none⟩, ⟨"notes".toList, some [0xff]⟩], "d.txt/in.txt".toList, [⟨"more.txt".toList, some []⟩], rfl,
      by decide, by decide, by decide⟩
  have hlines : Source.read .standard (.ofText "in.txt".toList) (.bytes archivedBytes) = .ok [⟨1, "1+2".toList⟩, ⟨3, ['3']⟩] := by
    decide +kernel
  exact ⟨hp, hq, hleads, (read_leads hp hq hleads).1.trans hlines⟩

/-! ## Kinds of archives -/

def isTextFile (m : Member) : Bool := isTextName m.name && m.content.isSome

/-- What an archive says by its first text file, or that it has none. Only the wording of that
depends on the kind. -/
def readFirst (kind : ArchiveKind) (members : List Member) : Except Fault (List Line) :=
  match (members.find? isTextFile).bind Member.content with
  | some bytes => (decode bytes).map expressions
  | none => .error (.noTextFile kind)

/-- What a library extracts for a directory, read as the bytes of a file are. -/
def readDirectory (lib : Library) (members : List Member) (name : Text) : Except Fault (List Line) :=
  ((lib.directory members name).mapError .library >>= decode).map expressions

/-- The first member with a text file's name is a directory, of that name. -/
def DirectoryFirst (name : Text) (members : List Member) : Prop :=
  ∃ front back, members = front ++ ⟨name, none⟩ :: back ∧ isTextName name = true ∧
    ∀ m ∈ front, isTextName m.name = false

theorem takes_of_isTextFile (kind : ArchiveKind) (h : isTextFile m = true) : takes kind m = true := by
  obtain ⟨hname, hcontent⟩ := Bool.and_eq_true_iff.mp h
  rw [takes, hname, hcontent]
  rfl

theorem find?_takes (h : kind = .sevenZip → ∀ name, ¬ DirectoryFirst name members) :
    members.find? (takes kind) = members.find? isTextFile := by
  cases hfind : members.find? (takes kind) with
  | none =>
    rw [List.find?_eq_none] at hfind
    symm
    rw [List.find?_eq_none]
    exact fun m hm htext => hfind m hm (takes_of_isTextFile kind htext)
  | some m =>
    obtain ⟨htakes, front, back, rfl, hfront⟩ := List.find?_eq_some_iff_append.mp hfind
    obtain ⟨hname, hlisted⟩ := Bool.and_eq_true_iff.mp htakes
    have hcontent : m.content.isSome = true := by
      cases hdirectory : m.content with
      | some bytes => rfl
      | none =>
        rw [hdirectory, Option.isSome_none, Bool.false_or, beq_iff_eq] at hlisted
        refine absurd ⟨front, back, by rw [← hdirectory], hname, fun a ha => ?_⟩ (h hlisted m.name)
        have hnot := hfront a ha
        simpa [takes, hlisted] using hnot
    symm
    rw [List.find?_eq_some_iff_append]
    refine ⟨by rw [isTextFile, hname, hcontent]; rfl, front, back, rfl, fun a ha => ?_⟩
    have hnot := hfront a ha
    rw [Bool.not_eq_true'] at hnot ⊢
    rw [Bool.eq_false_iff] at hnot ⊢
    exact mt (takes_of_isTextFile kind) hnot

theorem firstText_of_distinct (hdistinct : (members.map Member.name).Nodup) (h : members.find? (takes kind) = some m) :
    firstText lib kind members = match m.content with
      | some bytes => .ok bytes
      | none => (lib.directory members m.name).mapError .library := by
  refine firstText_of_some h fun other hother hkept => ?_
  have htakes : takes kind m = true := List.find?_some h
  have hname : isTextName m.name = true := (Bool.and_eq_true_iff.mp htakes).1
  exact List.inj_on_of_nodup_map hdistinct hother (List.mem_of_find?_eq_some h) (name_eq_of_keptName hname hkept)

/-- Archives of every kind are read at their first text file. Only where a directory with such a name
comes before it does one kind read what its library extracts for the directory instead. -/
theorem read_archive_alike (hdistinct : (members.map Member.name).Nodup) {p : Path}
    (hp : archiveKind? p = some kind) :
    ((kind = .sevenZip → ∀ name, ¬ DirectoryFirst name members) →
      Source.read lib p (.archive kind members) = readFirst kind members) ∧
    ∀ name, kind = .sevenZip → DirectoryFirst name members →
      Source.read lib p (.archive kind members) = readDirectory lib members name := by
  rw [read_archive hp, archiveText_archive]
  constructor
  · intro h
    have hfind := find?_takes h
    unfold readFirst
    rw [← hfind]
    cases htakes : members.find? (takes kind) with
    | none =>
      rw [firstText_of_none htakes]
      rfl
    | some m =>
      have hfile := List.find?_some (hfind.symm.trans htakes)
      obtain ⟨bytes, hbytes⟩ := Option.isSome_iff_exists.mp (Bool.and_eq_true_iff.mp hfile).2
      rw [firstText_of_distinct hdistinct htakes, Option.bind_some, hbytes]
      rfl
  · rintro name rfl ⟨front, back, rfl, hname, hfront⟩
    have htakes : (front ++ ⟨name, none⟩ :: back).find? (takes .sevenZip) = some ⟨name, none⟩ := by
      rw [List.find?_eq_some_iff_append]
      refine ⟨by simp [takes, hname], front, back, rfl, fun a ha => ?_⟩
      simp [takes, hfront a ha]
    rw [firstText_of_distinct hdistinct htakes]
    rfl

def directoryMembers : List Member := [⟨"d.txt".toList, none⟩, ⟨"a.txt".toList, some (Utf8.encode "1+2".toList)⟩]

theorem read_archive_alike_zip :
    (directoryMembers.map Member.name).Nodup ∧ archiveKind? (.ofText "in.zip".toList) = some .zip ∧
      Source.read .standard (.ofText "in.zip".toList) (.archive .zip directoryMembers) = .ok [⟨1, "1+2".toList⟩] ∧
      DirectoryFirst "d.txt".toList directoryMembers ∧ archiveKind? (.ofText "in.7z".toList) = some .sevenZip ∧
      Source.read .standard (.ofText "in.7z".toList) (.archive .sevenZip directoryMembers) = .ok [] := by
  have hdistinct : (directoryMembers.map Member.name).Nodup := by decide
  have hzip : archiveKind? (.ofText "in.zip".toList) = some .zip := by decide
  have hseven : archiveKind? (.ofText "in.7z".toList) = some .sevenZip := by decide
  have hfirst : DirectoryFirst "d.txt".toList directoryMembers :=
    ⟨[], [⟨"a.txt".toList, some (Utf8.encode "1+2".toList)⟩], rfl, by decide, by simp⟩
  have hlines : readFirst .zip directoryMembers = .ok [⟨1, "1+2".toList⟩] := by decide +kernel
  exact ⟨hdistinct, hzip, ((read_archive_alike hdistinct hzip).1 (by simp)).trans hlines, hfirst, hseven,
    (read_archive_alike hdistinct hseven).2 _ rfl hfirst⟩

theorem read_directory_apart :
    (directoryMembers.map Member.name).Nodup ∧
      Source.read .standard (.ofText "in.zip".toList) (.archive .zip directoryMembers) = .ok [⟨1, "1+2".toList⟩] ∧
      Source.read .standard (.ofText "in.tar.xz".toList) (.archive .tarXz directoryMembers) =
        .ok [⟨1, "1+2".toList⟩] ∧
      readFirst .sevenZip directoryMembers = .ok [⟨1, "1+2".toList⟩] ∧
      Source.read .standard (.ofText "in.7z".toList) (.archive .sevenZip directoryMembers) = .ok [] := by
  decide +kernel

end Reckoner.Source

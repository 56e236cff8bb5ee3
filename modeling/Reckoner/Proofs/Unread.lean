import Reckoner.CommandLine.Run
import Reckoner.Proofs.Archives

/-!
# Files that cannot be read

A job reads its input before it does anything else. Where that fails, for whatever reason, the job has
logged nothing, started nobody and written nowhere. A run of the command line has words for a fault of a
value, be it a library's own, and for no other.
-/

namespace Reckoner

/-! ## Reasons -/

namespace Source

/-- Why a file cannot be read. -/
inductive Fails (lib : Library) (p : Path) (content : Content) : Fault → Prop
  | name (htext : p.suffix ≠ ".txt".toList) (hkind : archiveKind? p = none) :
      Fails lib p content (.unsupported (if p.suffixes.isEmpty then p.name else p.suffixes.flatten))
  | text {m : Utf8.Malformed} (htext : p.suffix = ".txt".toList) (hbytes : Utf8.decode content.data = .error m) :
      Fails lib p content (.malformed m)
  | format {kind : ArchiveKind} {fault : LibraryFault} (hkind : archiveKind? p = some kind)
      (hmembers : membersOf lib kind content = .error fault) : Fails lib p content (.library fault)
  | noTextFile {kind : ArchiveKind} {members : List Member} (hkind : archiveKind? p = some kind)
      (hmembers : membersOf lib kind content = .ok members) (hnone : ∀ m ∈ members, takes kind m = false) :
      Fails lib p content (.noTextFile kind)
  | extraction {kind : ArchiveKind} {members : List Member} {name : Text} {fault : Fault}
      (hkind : archiveKind? p = some kind) (hmembers : membersOf lib kind content = .ok members)
      (hname : (listedNames kind members).find? isTextName = some name)
      (hextract : extract lib kind members name = .error fault) : Fails lib p content fault
  | memberText {kind : ArchiveKind} {bytes : Utf8.Bytes} {m : Utf8.Malformed} (hkind : archiveKind? p = some kind)
      (hmember : archiveText lib kind content = .ok bytes) (hbytes : Utf8.decode bytes = .error m) :
      Fails lib p content (.malformed m)

variable {lib : Library} {kind : ArchiveKind} {p : Path} {content : Content} {fault : Fault}

theorem decode_eq_error_iff {bytes : Utf8.Bytes} :
    decode bytes = .error fault ↔ ∃ m, Utf8.decode bytes = .error m ∧ fault = .malformed m := by
  unfold decode
  cases Utf8.decode bytes with
  | ok t => simp
  | error m => simp [eq_comm]

theorem firstText_eq_error_iff {members : List Member} :
    firstText lib kind members = .error fault ↔
      (∀ m ∈ members, takes kind m = false) ∧ fault = .noTextFile kind ∨
        ∃ name, (listedNames kind members).find? isTextName = some name ∧
          extract lib kind members name = .error fault := by
  unfold firstText
  rw [find?_listedNames]
  cases hfind : members.find? (takes kind) with
  | none =>
    have hnone : ∀ m ∈ members, takes kind m = false := fun m hm =>
      Bool.eq_false_iff.mpr (List.find?_eq_none.mp hfind m hm)
    constructor
    · intro h
      cases h
      exact Or.inl ⟨hnone, rfl⟩
    · rintro (⟨-, rfl⟩ | ⟨name, hname, -⟩)
      · rfl
      · cases hname
  | some m =>
    have htakes := List.find?_some hfind
    constructor
    · exact fun h => Or.inr ⟨_, rfl, h⟩
    · rintro (⟨hnone, -⟩ | ⟨name, hname, hextract⟩)
      · rw [hnone m (List.mem_of_find?_eq_some hfind)] at htakes
        cases htakes
      · cases hname
        exact hextract

theorem archiveText_eq_error_iff :
    archiveText lib kind content = .error fault ↔
      (∃ refusal, membersOf lib kind content = .error refusal ∧ fault = .library refusal) ∨
        ∃ members, membersOf lib kind content = .ok members ∧ firstText lib kind members = .error fault := by
  unfold archiveText
  cases membersOf lib kind content with
  | ok members => simp
  | error refusal => simp [eq_comm]

theorem read_unsupported (htext : p.suffix ≠ ".txt".toList) (hkind : archiveKind? p = none) :
    Source.read lib p content =
      .error (.unsupported (if p.suffixes.isEmpty then p.name else p.suffixes.flatten)) := by
  unfold Source.read load
  rw [if_neg htext, hkind]
  rfl

theorem read_archive_eq_error_iff (hkind : archiveKind? p = some kind) :
    Source.read lib p content = .error fault ↔
      archiveText lib kind content = .error fault ∨
        ∃ bytes m, archiveText lib kind content = .ok bytes ∧ Utf8.decode bytes = .error m ∧ fault = .malformed m := by
  rw [read_archive hkind, map_eq_error_iff, bind_eq_error_iff]
  simp only [decode_eq_error_iff, exists_and_left]

theorem Fails.of_archiveText (hkind : archiveKind? p = some kind)
    (h : archiveText lib kind content = .error fault) : Fails lib p content fault := by
  rcases archiveText_eq_error_iff.mp h with ⟨refusal, hmembers, rfl⟩ | ⟨members, hmembers, hfirst⟩
  · exact .format hkind hmembers
  rcases firstText_eq_error_iff.mp hfirst with ⟨hnone, rfl⟩ | ⟨name, hname, hextract⟩
  · exact .noTextFile hkind hmembers hnone
  · exact .extraction hkind hmembers hname hextract

/-- These are all the reasons, and each is one. -/
theorem read_eq_error_iff : Source.read lib p content = .error fault ↔ Fails lib p content fault := by
  constructor
  · intro h
    by_cases htext : p.suffix = ".txt".toList
    · rw [read_textFile htext, map_eq_error_iff, decode_eq_error_iff] at h
      obtain ⟨m, hbytes, rfl⟩ := h
      exact .text htext hbytes
    cases hkind : archiveKind? p with
    | none =>
      rw [read_unsupported htext hkind] at h
      cases h
      exact .name htext hkind
    | some kind =>
      rcases (read_archive_eq_error_iff hkind).mp h with hfault | ⟨bytes, m, hmember, hbytes, rfl⟩
      · exact .of_archiveText hkind hfault
      · exact .memberText hkind hmember hbytes
  · intro h
    cases h with
    | name htext hkind => exact read_unsupported htext hkind
    | text htext hbytes =>
      rw [read_textFile htext, map_eq_error_iff, decode_eq_error_iff]
      exact ⟨_, hbytes, rfl⟩
    | format hkind hmembers =>
      rw [read_archive_eq_error_iff hkind, archiveText_eq_error_iff]
      exact Or.inl (Or.inl ⟨_, hmembers, rfl⟩)
    | noTextFile hkind hmembers hnone =>
      rw [read_archive_eq_error_iff hkind, archiveText_eq_error_iff]
      exact Or.inl (Or.inr ⟨_, hmembers, firstText_eq_error_iff.mpr (Or.inl ⟨hnone, rfl⟩)⟩)
    | extraction hkind hmembers hname hextract =>
      rw [read_archive_eq_error_iff hkind, archiveText_eq_error_iff]
      exact Or.inl (Or.inr ⟨_, hmembers, firstText_eq_error_iff.mpr (Or.inr ⟨_, hname, hextract⟩)⟩)
    | memberText hkind hmember hbytes =>
      rw [read_archive_eq_error_iff hkind]
      exact Or.inr ⟨_, _, hmember, hbytes, rfl⟩

/-- The fault is one of a value: what the file is called, what it holds, or what its library calls one. -/
def Fault.ofValue : Fault → Bool
  | malformed _ | unsupported _ | noTextFile _ => true
  | library fault => fault.message?.isSome
  | directoryMember => false

theorem Fault.isSome_message? (fault : Fault) : fault.message?.isSome = fault.ofValue := by
  cases fault <;> rfl

end Source

/-! ## Runs -/

theorem Batch.Job.run_of_unread {job : Job} {lib : Library} {processors : Nat} {schedule : Schedule} {tree : FileTree}
    {key : FileKey} {content : Content} {fault : Source.Fault} (hplace : tree.place job.input = .file key content)
    (hread : Source.read lib job.input content = .error fault) :
    job.run lib processors schedule tree = ⟨.error (.read fault), [], tree, []⟩ := by
  unfold Job.run
  rw [hplace]
  dsimp only
  rw [hread]

theorem results_of_file {tree : FileTree} {name : Text} {key : FileKey} {content : Content}
    (h : tree.place (.ofText name) = .file key content) : ∃ out, (Path.ofText name).results = .ok out := by
  have hparts : (Path.ofText name).parts ≠ [] := by
    intro hnil
    unfold FileTree.place at h
    rw [hnil] at h
    cases h
  have hname : (Path.ofText name).name ≠ [] := by
    have hmem := List.getLast_mem hparts
    rw [Path.name, List.getLast?_eq_some_getLast hparts, Option.getD_some]
    have hpart := (List.mem_filter.mp hmem).2
    rw [Bool.and_eq_true_iff, bne_iff_ne] at hpart
    exact hpart.1
  unfold Path.results
  rw [if_neg (by simpa using hname)]
  exact ⟨_, rfl⟩

namespace CommandLine

variable {lib : Library} {tree : FileTree} {processors : Nat} {schedule : Batch.Schedule}

theorem target_of_settings? {d : Draft} {s : Settings} {p : Path} (h : d.settings? tree = some s)
    (htarget : s.target = .file p) : ∃ name, p = .ofText name := by
  unfold Draft.settings? at h
  split at h
  · simp only [Option.bind_eq_bind, Option.bind_eq_some_iff, Option.pure_def, Option.some.injEq] at h
    obtain ⟨target, htarget', mode, -, level, -, rfl⟩ := h
    cases htarget
    unfold Draft.target? at htarget'
    split at htarget'
    · cases htarget'
    · split at htarget'
      · cases htarget'
        exact ⟨_, rfl⟩
      · cases htarget'
    · cases htarget'
  · cases h

def unreadEnding (fault : Source.Fault) : Ending :=
  match fault.message? with
  | some message => failure message
  | none => .brokenBatch (.read fault)

theorem runFile_of_unread {name : Text} {key : FileKey} {content : Content} {fault : Source.Fault}
    (hplace : tree.place (.ofText name) = .file key content)
    (hread : Source.read lib (.ofText name) content = .error fault) (s : Settings) :
    runFile lib tree processors schedule s (.ofText name) = ⟨unreadEnding fault, [], tree⟩ := by
  obtain ⟨out, hout⟩ := results_of_file hplace
  have hrun : (Batch.Job.mk (.ofText name) out s.mode none).run lib processors schedule tree =
      ⟨.error (.read fault), [], tree, []⟩ := Batch.Job.run_of_unread hplace hread
  rw [runFile_of_results _ _ _ _ hout, hrun]
  rfl

/-- A run fails in words exactly where the fault is one of a value. Any other is nobody's to handle. -/
structure Told (fault : Source.Fault) (ending : Ending) : Prop where
  words : fault.ofValue = true ↔
    ∃ message, fault.message? = some message ∧ ending = .exit 1 [] ("error: ".toList ++ message ++ ['\n'])
  silent : fault.ofValue = false → ending = .brokenBatch (.read fault)

theorem told_unreadEnding (fault : Source.Fault) : Told fault (unreadEnding fault) := by
  have hsome := fault.isSome_message?
  unfold unreadEnding
  cases hmessage : fault.message? with
  | some message =>
    have hvalue : fault.ofValue = true := by rw [← hsome, hmessage, Option.isSome_some]
    refine ⟨iff_of_true hvalue ⟨message, hmessage, rfl⟩, fun hnot => ?_⟩
    cases hvalue.symm.trans hnot
  | none =>
    have hvalue : fault.ofValue = false := by rw [← hsome, hmessage, Option.isSome_none]
    refine ⟨iff_of_false (by rw [hvalue]; exact Bool.false_ne_true) ?_, fun _ => rfl⟩
    rintro ⟨message, hwords, -⟩
    cases hmessage.symm.trans hwords

/-- A file that cannot be read, for one of the reasons there are, leaves everything as it was. Every job
over it has the same fault, and leaves the files as they are, with no worker started and nothing logged.
So does every run of the command line over it, which tells the fault. -/
theorem run_unread (lib : Library) {p : Path} {key : FileKey} {content : Content} {fault : Source.Fault}
    (hplace : tree.place p = .file key content) (hread : Source.read lib p content = .error fault) (processors : Nat)
    (schedule : Batch.Schedule) :
    Source.Fails lib p content fault ∧
    (∀ job : Batch.Job, job.input = p →
      job.run lib processors schedule tree = ⟨.error (.read fault), [], tree, []⟩) ∧
    ∀ args d s, read args = .ok d → d.settings? tree = some s → s.target = .file p →
      ∃ ending, run lib tree processors schedule args = (⟨ending, [], tree⟩, some s.level) ∧ Told fault ending := by
  refine ⟨Source.read_eq_error_iff.mp hread, ?_, fun args d s hargs hsettings htarget => ?_⟩
  · rintro job rfl
    exact Batch.Job.run_of_unread hplace hread
  · obtain ⟨name, rfl⟩ := target_of_settings? hsettings htarget
    refine ⟨unreadEnding fault, ?_, told_unreadEnding fault⟩
    unfold run
    rw [hargs]
    dsimp only
    rw [hsettings]
    dsimp only
    unfold runSettings
    rw [htarget]
    dsimp only
    rw [runFile_of_unread hplace hread]

def archiveTree (content : Content) : FileTree :=
  { files := [(["in.zip".toList], content), (["in_zip_results.txt".toList], .bytes (Utf8.encode "1 = 1.0\n".toList))] }

def mangledMember : Content := .archive .zip [⟨"d.txt".toList, none⟩, ⟨"a.txt".toList, some [0x31, 0xc3, 0x28]⟩]

/-- A directory of one file whose name is marked as UTF-8, and is not. -/
def mangledName : Content :=
  .bytes [0x50, 0x4b, 0x01, 0x02, 0x14, 0x00, 0x14, 0x00, 0x00, 0x08, 0x00, 0x00, 0x00, 0x00, 0x21, 0x00,
    0x00, 0x00, 0x00, 0x00, 0x00, 0x00, 0x00, 0x00, 0x00, 0x00, 0x00, 0x00, 0x01, 0x00, 0x00, 0x00,
    0x00, 0x00, 0x00, 0x00, 0x00, 0x00, 0x00, 0x00, 0x00, 0x00, 0x00, 0x00, 0x00, 0x00, 0xff,
    0x50, 0x4b, 0x05, 0x06, 0x00, 0x00, 0x00, 0x00, 0x01, 0x00, 0x01, 0x00, 0x2f, 0x00, 0x00, 0x00,
    0x00, 0x00, 0x00, 0x00, 0x00, 0x00]

/-- A library that decodes the names in an archive when it opens it. -/
def decodingLibrary : Library where
  unpack kind content :=
    if kind = .zip ∧ content = mangledName then
      .error ⟨"UnicodeDecodeError".toList,
        some "'utf-8' codec can't decode byte 0xff in position 0: invalid start byte".toList⟩
    else Library.standard.unpack kind content
  directory := Library.standard.directory

def debugArgs : List Text := ["-f".toList, "in.zip".toList, "--log-level".toList, "debug".toList]

theorem run_unread_archives :
    run decodingLibrary (archiveTree mangledMember) 2 .prompt debugArgs =
        (⟨failure "'utf-8' codec can't decode byte 0xc3 in position 1: invalid continuation byte".toList, [],
          archiveTree mangledMember⟩, some 10) ∧
      run decodingLibrary (archiveTree mangledName) 2 .prompt debugArgs =
        (⟨failure "'utf-8' codec can't decode byte 0xff in position 0: invalid start byte".toList, [],
          archiveTree mangledName⟩, some 10) ∧
      run decodingLibrary (archiveTree (.bytes [])) 2 .prompt debugArgs =
        (⟨.brokenBatch (.read (.library ⟨"BadZipFile".toList, none⟩)), [], archiveTree (.bytes [])⟩, some 10) := by
  have hargs : read debugArgs = .ok { file := some "in.zip".toList, level := "DEBUG".toList } := by decide +kernel
  have hrun : ∀ content fault, Source.read decodingLibrary (.ofText "in.zip".toList) content = .error fault →
      ∃ ending, run decodingLibrary (archiveTree content) 2 .prompt debugArgs =
        (⟨ending, [], archiveTree content⟩, some 10) ∧ Told fault ending := by
    intro content fault hread
    have hplace : (archiveTree content).place (.ofText "in.zip".toList) = .file ["in.zip".toList] content := rfl
    have hsettings : Draft.settings? (archiveTree content) { file := some "in.zip".toList, level := "DEBUG".toList } =
        some ⟨.file (.ofText "in.zip".toList), .twoPass, false, 10⟩ := rfl
    exact (run_unread decodingLibrary hplace hread 2 .prompt).2.2 _ _ _ hargs hsettings rfl
  have hwords : ∀ {content : Content} {fault : Source.Fault} {message : Text},
      Source.read decodingLibrary (.ofText "in.zip".toList) content = .error fault → fault.ofValue = true →
      fault.message? = some message →
      run decodingLibrary (archiveTree content) 2 .prompt debugArgs =
        (⟨failure message, [], archiveTree content⟩, some 10) := by
    intro content fault message hread hvalue hmessage
    obtain ⟨ending, hending, htold⟩ := hrun content fault hread
    obtain ⟨words, hwords, rfl⟩ := htold.words.mp hvalue
    cases hmessage.symm.trans hwords
    exact hending
  have hmember : Source.read decodingLibrary (.ofText "in.zip".toList) mangledMember =
      .error (.malformed ⟨0xc3, 1, 1, .continuation⟩) := by decide +kernel
  have hname : Source.read decodingLibrary (.ofText "in.zip".toList) mangledName =
      .error (.library ⟨"UnicodeDecodeError".toList,
        some "'utf-8' codec can't decode byte 0xff in position 0: invalid start byte".toList⟩) := by decide +kernel
  have hempty : Source.read decodingLibrary (.ofText "in.zip".toList) (.bytes []) =
      .error (.library ⟨"BadZipFile".toList, none⟩) := by decide +kernel
  refine ⟨hwords hmember rfl (by decide +kernel), hwords hname rfl rfl, ?_⟩
  obtain ⟨ending, hending, htold⟩ := hrun _ _ hempty
  obtain rfl := htold.silent rfl
  exact hending

end CommandLine

end Reckoner

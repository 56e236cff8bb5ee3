import Reckoner.Proofs.Modes
import Reckoner.Proofs.Reports
import Reckoner.Proofs.Rows

/-!
# A file and its expressions alone

A run over a text file ends as the runs over its lines, one by one, end: a line of the
results file says what a run over the expression alone prints, and the run fails where one
of those fails.
-/

namespace Reckoner.CommandLine

/-! ## Arguments -/

def forExpression (mode : Mode) (e : Text) : List Text := ["--mode".toList, mode.name, ending, e]

def forFile (mode : Mode) (path : Text) : List Text := ["--mode".toList, mode.name, "--file".toList, path]

theorem read_forExpression (mode : Mode) (e : Text) :
    read (forExpression mode e) = .ok { expression := some e, mode := some mode } := by
  cases mode <;> rfl

theorem readFrom_value {p : Progress} {arg value : Text} {rest : List Text} {s : Switch} (harg : arg ≠ ending)
    (hs : classify arg = .switches ⟨[], s, none⟩) (htakes : s.takesValue = true) (hvalue : value ≠ ending)
    (hplain : classify value = .plain) :
    readFrom p (arg :: value :: rest) = p.draft.set s value >>= fun d => readFrom (p.switch d) rest := by
  rw [readFrom, if_neg harg, hs]
  simp [htakes, hvalue, hplain, Draft.turnAllOn]

theorem read_forFile (mode : Mode) {path : Text} (hvalue : path ≠ ending) (hplain : classify path = .plain) :
    read (forFile mode path) = .ok { file := some path, mode := some mode } := by
  have hmode : classify "--mode".toList = .switches ⟨[], .mode, none⟩ := by decide
  have hfile : classify "--file".toList = .switches ⟨[], .file, none⟩ := by decide
  have hname : mode.name ≠ ending ∧ classify mode.name = .plain := by cases mode <;> decide
  have hset : Draft.set {} .mode mode.name = .ok { mode := some mode } := by cases mode <;> rfl
  have hclear : ∀ arg ∈ forFile mode path, (classify arg == .ambiguous) = false := by
    simp only [forFile, List.forall_mem_cons, hmode, hfile, hname.2, hplain]
    exact ⟨rfl, rfl, rfl, rfl, fun _ h => absurd h List.not_mem_nil⟩
  have hany : ((forFile mode path).takeWhile (· != ending)).any (classify · == .ambiguous) = false :=
    List.any_eq_false.mpr fun arg harg => by simp [hclear arg ((List.takeWhile_prefix _).subset harg)]
  have hfirst : readFrom .start (forFile mode path) =
      readFrom (Progress.start.switch { mode := some mode }) ["--file".toList, path] := by
    rw [forFile, readFrom_value (by decide) hmode rfl hname.1 hname.2]
    show Draft.set {} .mode mode.name >>= _ = _
    rw [hset]
    rfl
  unfold read
  rw [hany, if_neg Bool.false_ne_true, hfirst, readFrom_value (by decide) hfile rfl hvalue hplain]
  unfold Draft.set
  rw [if_neg hvalue]
  rfl

/-! ## Runs -/

section
variable (lib : Library) (tree : FileTree) (processors : Nat) (schedule : Batch.Schedule) (mode : Mode)

theorem run_forExpression (e : Text) :
    run lib tree processors schedule (forExpression mode e) =
      (runExpression tree ⟨.expression e, mode, false, 30⟩ e, some 30) := by
  unfold run
  rw [read_forExpression]
  rfl

theorem run_forFile {path : Text} (hvalue : path ≠ ending) (hplain : classify path = .plain)
    (hfile : tree.isFile (.ofText path) = true) :
    run lib tree processors schedule (forFile mode path) =
      (runFile lib tree processors schedule ⟨.file (.ofText path), mode, false, 30⟩ (.ofText path), some 30) := by
  have hsettings : Draft.settings? tree { file := some path, mode := some mode } =
      some ⟨.file (.ofText path), mode, false, 30⟩ := by
    unfold Draft.settings? Draft.target?
    dsimp only
    rw [hfile]
    rfl
  unfold run
  rw [read_forFile mode hvalue hplain]
  dsimp only
  rw [hsettings]
  rfl

/-! ### What it prints -/

/-- A run over one expression prints a value, or it fails with a wording. -/
def Speaks (alone : Text → Ending) : Prop :=
  ∀ e, (∃ x, alone e = success (Text.float x)) ∨ ∃ words, Wording words ∧ alone e = failure words

def alone (e : Text) : Ending := (run lib tree processors schedule (forExpression mode e)).1.ending

variable {lib tree processors schedule mode} in
theorem alone_of_value {e : Text} {x : Float} (he : e.allBlank = false)
    (h : Rules.standard.evaluateTwoPass e = .ok x) :
    alone lib tree processors schedule mode e = success (Text.float x) := by
  unfold alone
  rw [run_forExpression, runExpression_of_not_blank _ _ he]
  unfold answer
  rw [Rules.evaluate_eq, h]
  rfl

variable {lib tree processors schedule mode} in
theorem alone_of_fault {e : Text} {fault : Fault} (he : e.allBlank = false)
    (h : Rules.standard.evaluateTwoPass e = .error fault) :
    alone lib tree processors schedule mode e = failure fault.message := by
  unfold alone
  rw [run_forExpression, runExpression_of_not_blank _ _ he]
  unfold answer
  rw [Rules.evaluate_eq, h]
  show Run.ending (if fault.isExpression then _ else _) = _
  rw [if_pos (Rules.isExpression_of_evaluateTwoPass _ h)]

theorem speaks_alone : Speaks (alone lib tree processors schedule mode) := by
  intro e
  cases he : e.allBlank with
  | true =>
    have hending : alone lib tree processors schedule mode e = failure "expression cannot be empty".toList := by
      unfold alone
      rw [run_forExpression, runExpression_of_blank _ _ he]
    refine Or.inr ⟨_, ⟨by decide, by decide, fun d hd hpair => ?_⟩, hending⟩
    exact sign_not_mem hd (by decide) (hpair.subset List.mem_cons_self)
  | false =>
    cases h : Rules.standard.evaluateTwoPass e with
    | ok x => exact Or.inl ⟨x, alone_of_value he h⟩
    | error fault => exact Or.inr ⟨_, wording_message (legal_of_evaluateTwoPass h), alone_of_fault he h⟩

end

/-! ## Rows -/

/-- What a row says of an expression is what a run over it alone ends with. -/
def Row (x : Text) (e : Ending) (row : Text) : Prop :=
  (∃ v, e = success v ∧ row = valueRow x v) ∨ ∃ words, e = failure words ∧ row = failureRow x words

theorem success_inj {v w : Text} : success v = success w ↔ v = w := by
  simp [success]

theorem failure_inj {words more : Text} : failure words = failure more ↔ words = more := by
  simp [failure]

theorem success_ne_failure (v words : Text) : success v ≠ failure words := by
  simp [success, failure]

theorem Row.of_success {x v row : Text} (h : Row x (success v) row) : row = valueRow x v := by
  rcases h with ⟨w, hw, rfl⟩ | ⟨words, hwords, -⟩
  · rw [success_inj.mp hw]
  · exact absurd hwords (success_ne_failure v words)

theorem Row.of_failure {x words row : Text} (h : Row x (failure words) row) : row = failureRow x words := by
  rcases h with ⟨w, hw, -⟩ | ⟨more, hmore, rfl⟩
  · exact absurd hw.symm (success_ne_failure w words)
  · rw [failure_inj.mp hmore]

-- With a text that no run prints for a value, the row of one expression can read as the row of another.
-- So a file is asked only for values and wordings that some run prints.
example (words : Text) : failureRow "1 = 2".toList words = valueRow ['1'] ("2 -> ERROR: ".toList ++ words) := rfl

/-- What a results file says of the lines of a text: a row for every line that counts, each ended by a
line feed, with what a run over the line's expression alone prints. -/
structure Tells (alone : Text → Ending) (t out : Text) : Prop where
  rows : ∃ collected : List Line, collected.Nodup ∧ (∀ l, l ∈ collected ↔ l.Of t) ∧
    List.Forall₂ (fun l row => Row l.text (alone l.text) row) collected out.lines
  ended : out = out.lines.flatMap fun row => row ++ ['\n']
  value : ∀ l : Line, l.Of t → ∀ v, (∃ e, alone e = success v) →
    (valueRow l.text v ∈ out.lines ↔ alone l.text = success v)
  failure : ∀ l : Line, l.Of t → ∀ words, (∃ e, alone e = failure words) →
    (failureRow l.text words ∈ out.lines ↔ alone l.text = failure words)

section
variable {alone : Text → Ending} (hs : Speaks alone)
include hs

theorem Speaks.value {e v : Text} (h : alone e = success v) : ∃ x, v = Text.float x := by
  rcases hs e with ⟨x, hx⟩ | ⟨words, -, hwords⟩
  · exact ⟨x, success_inj.mp (h.symm.trans hx)⟩
  · exact absurd (h.symm.trans hwords) (success_ne_failure v words)

theorem Speaks.wording {e words : Text} (h : alone e = CommandLine.failure words) : Wording words := by
  rcases hs e with ⟨x, hx⟩ | ⟨more, hmore, hwords⟩
  · exact absurd (hx.symm.trans h) (success_ne_failure _ words)
  · rw [failure_inj.mp (h.symm.trans hwords)]
    exact hmore

theorem Row.unbroken {x row : Text} (hx : Unbroken x) (h : Row x (alone x) row) : Unbroken row := by
  rcases h with ⟨v, hv, rfl⟩ | ⟨words, hwords, rfl⟩
  · obtain ⟨a, rfl⟩ := hs.value hv
    exact unbroken_valueRow hx (visible_float a).unbroken
  · exact unbroken_failureRow hx (hs.wording hwords).visible.unbroken

/-- Where a row reads as one for an expression that prints a value, it is its row. -/
theorem Row.of_valueRow {x y e v : Text} (he : alone e = success v) (h : Row y (alone y) (valueRow x v)) :
    x = y ∧ alone y = success v := by
  obtain ⟨a, rfl⟩ := hs.value he
  rcases h with ⟨w, hw, hrow⟩ | ⟨words, hwords, hrow⟩
  · obtain ⟨b, rfl⟩ := hs.value hw
    obtain ⟨rfl, hab⟩ := valueRow_inj (not_mem_float a).1 (not_mem_float b).1 hrow
    exact ⟨rfl, by rw [hab, hw]⟩
  · exact absurd hrow (valueRow_ne_failureRow (not_mem_float a).2 (hs.wording hwords))

theorem Row.of_failureRow {x y e words : Text} (he : alone e = CommandLine.failure words)
    (h : Row y (alone y) (failureRow x words)) : x = y ∧ alone y = CommandLine.failure words := by
  have hwording := hs.wording he
  rcases h with ⟨w, hw, hrow⟩ | ⟨more, hmore, hrow⟩
  · obtain ⟨b, rfl⟩ := hs.value hw
    exact absurd hrow.symm (valueRow_ne_failureRow (not_mem_float b).2 hwording)
  · obtain ⟨rfl, hsame⟩ := failureRow_inj (hwording.apart '>' (by decide)) ((hs.wording hmore).apart '>' (by decide)) hrow
    exact ⟨rfl, by rw [hsame, hmore]⟩

/-- Rows of all lines that count, each written once, make a results file. -/
theorem tells_of_rows {t : Text} {collected : List Line} (hnodup : collected.Nodup)
    (hmem : ∀ l, l ∈ collected ↔ l.Of t) {row : Line → Text}
    (hrow : ∀ l ∈ collected, Row l.text (alone l.text) (row l)) :
    Tells alone t ((collected.map row).flatMap fun r => r ++ ['\n']) := by
  have hlines : Text.lines ((collected.map row).flatMap fun r => r ++ ['\n']) = collected.map row := by
    refine Text.lines_flatMap fun r hr => ?_
    obtain ⟨l, hl, rfl⟩ := List.mem_map.mp hr
    exact (hrow l hl).unbroken hs ((hmem l).mp hl).unbroken
  -- A row of the file that tells an ending of one line can only be that line's.
  have hiff : ∀ l : Line, l.Of t → ∀ r ending, (∀ m ∈ collected, row m = r → l.text = m.text ∧ alone m.text = ending) →
      (alone l.text = ending → row l = r) →
      (r ∈ Text.lines ((collected.map row).flatMap fun r => r ++ ['\n']) ↔ alone l.text = ending) := by
    intro l hl r ending hback hforth
    rw [hlines, List.mem_map]
    constructor
    · rintro ⟨m, hm, hsame⟩
      obtain ⟨hlm, halone⟩ := hback m hm hsame
      rw [hlm, halone]
    · exact fun halone => ⟨l, (hmem l).mpr hl, hforth halone⟩
  constructor
  · refine ⟨collected, hnodup, hmem, ?_⟩
    rw [hlines, List.forall₂_map_right_iff, List.forall₂_same]
    exact hrow
  · rw [hlines]
  · rintro l hl v ⟨e, he⟩
    refine hiff l hl _ _ (fun m hm hsame => ?_) fun halone => ?_
    · have hread := hrow m hm
      rw [hsame] at hread
      exact hread.of_valueRow hs he
    · have hmine := hrow l ((hmem l).mpr hl)
      rw [halone] at hmine
      exact hmine.of_success
  · rintro l hl words ⟨e, he⟩
    refine hiff l hl _ _ (fun m hm hsame => ?_) fun halone => ?_
    · have hread := hrow m hm
      rw [hsame] at hread
      exact hread.of_failureRow hs he
    · have hmine := hrow l ((hmem l).mpr hl)
      rw [halone] at hmine
      exact hmine.of_failure

end

/-! ## A file -/

/-- A text file that the arguments can name, and the text in it. -/
structure Names (tree : FileTree) (path t : Text) : Prop where
  value : path ≠ ending
  plain : classify path = .plain
  suffix : (Path.ofText path).suffix = ".txt".toList
  text : ∃ key content, tree.place (.ofText path) = .file key content ∧ Utf8.decode content.data = .ok t

/-- No directory stands where the results of a file go. -/
def HasRoom (tree : FileTree) (path : Text) : Prop :=
  ∀ output, (Path.ofText path).results = .ok output → tree.place output ≠ .directory

/-- What a run over a file owes to the runs over its expressions alone: the results file, the count of
the lines that are not blank, and the status, which is 0 where all of those have it and 1 otherwise. -/
structure Agrees (alone : Text → Ending) (t : Text) (output : Path) (r : Run) : Prop where
  written : ∃ key out, r.tree.place output = .file key (.bytes (Utf8.encode out)) ∧ Tells alone t out
  status : ∃ status,
    r.ending = .exit status (Text.natural (t.lines.countP fun line => !line.allBlank) ++
      " results written to ".toList ++ output.toText ++ ['\n']) [] ∧
    (status = 0 ∨ status = 1) ∧
    (status = 0 ↔ ∀ l : Line, l.Of t → ∃ stdout stderr, alone l.text = .exit 0 stdout stderr)

section
variable {lib' : Library} {tree' : FileTree} {processors' : Nat} {schedule' : Batch.Schedule} {mode : Mode}

/-- A line's outcome in a batch is rendered as its row, and has succeeded where the run over it alone does. -/
theorem row_outcome {plan : Batch.Plan} {l : Line} (hl : l.Good) (hlive : plan.schedule.death l.number = none) :
    Row l.text (alone lib' tree' processors' schedule' mode l.text) (Batch.outcome plan l).render ∧
      ((Batch.outcome plan l).succeeded = true ↔
        ∃ stdout stderr, alone lib' tree' processors' schedule' mode l.text = .exit 0 stdout stderr) := by
  have houtcome := Batch.evaluate_eq_outcome plan hlive
  rcases Worker.evaluate_cases ⟨l.text, l.number, plan.mode⟩ with ⟨rpn, x, -, hvalue, h⟩ | ⟨fault, hfault, h⟩
  · rw [Rules.evaluate_eq] at hvalue
    have halone : alone lib' tree' processors' schedule' mode l.text = success (Text.float x) :=
      alone_of_value hl.text hvalue
    rw [← Except.ok.inj (h.symm.trans houtcome), halone]
    exact ⟨Or.inl ⟨_, rfl, rfl⟩, ⟨fun _ => ⟨_, _, rfl⟩, fun _ => rfl⟩⟩
  · rw [Rules.evaluate_eq] at hfault
    have halone : alone lib' tree' processors' schedule' mode l.text = failure fault.message :=
      alone_of_fault hl.text hfault
    rw [← Except.ok.inj (h.symm.trans houtcome), halone]
    refine ⟨Or.inr ⟨_, rfl, rfl⟩, ⟨fun hsucceeded => ?_, fun hexit => ?_⟩⟩
    · cases hsucceeded
    · obtain ⟨stdout, stderr, hexit⟩ := hexit
      cases hexit

theorem Names.read {tree : FileTree} {path t : Text} (h : Names tree path t) :
    ∃ key content, tree.place (.ofText path) = .file key content ∧
      ∀ lib, Source.read lib (.ofText path) content = .ok (expressions t) := by
  obtain ⟨key, content, hplace, hdecode⟩ := h.text
  refine ⟨key, content, hplace, fun lib => ?_⟩
  rw [Source.read_textFile h.suffix, Source.decode, hdecode]
  rfl

/-- What is written and how the run ends comes from one outcome for every line, collected in any order. -/
theorem agrees_of_outcomes {t : Text} {collected : List Line} (hperm : collected.Perm (expressions t))
    {outcome : Line → Outcome} {alone : Text → Ending} (hs : Speaks alone)
    (houtcome : ∀ l ∈ expressions t, Row l.text (alone l.text) (outcome l).render ∧
      ((outcome l).succeeded = true ↔ ∃ stdout stderr, alone l.text = .exit 0 stdout stderr))
    {output : Path} {r : Run} {key : FileKey}
    (hwritten : r.tree.place output = .file key (Batch.written (collected.map outcome)))
    (hending : r.ending = endingOf output (.ok ((expressions t).map outcome))) :
    Agrees alone t output r := by
  constructor
  · refine ⟨key, (collected.map fun l => (outcome l).render).flatMap fun row => row ++ ['\n'], ?_, ?_⟩
    · rw [hwritten, Batch.written, List.flatMap_map, List.flatMap_map]
    · exact tells_of_rows hs (hperm.symm.nodup (Batch.listed_expressions t).nodup)
        (fun l => hperm.mem_iff.trans mem_expressions_iff) fun l hmem => (houtcome l (hperm.mem_iff.mp hmem)).1
  · have hall : ((expressions t).map outcome).all Outcome.succeeded = true ↔
        ∀ l : Line, l.Of t → ∃ stdout stderr, alone l.text = .exit 0 stdout stderr := by
      rw [List.all_map, List.all_eq_true]
      refine forall_congr' fun l => ?_
      rw [← mem_expressions_iff]
      exact forall_congr' fun hmem => (houtcome l hmem).2
    refine ⟨if ((expressions t).map outcome).all Outcome.succeeded then 0 else 1, ?_, ?_, ?_⟩
    · rw [hending, ← length_expressions]
      dsimp only [endingOf]
      rw [List.length_map]
    · split
      · exact Or.inl rfl
      · exact Or.inr rfl
    · rw [← hall]
      simp

theorem runFile_agrees (lib : Library) {tree : FileTree} {path t : Text} (h : Names tree path t)
    (hroom : HasRoom tree path) {processors : Nat} (hprocessors : 1 ≤ processors) {schedule : Batch.Schedule}
    (hlive : ∀ k, schedule.death k = none) (s : Settings) :
    ∃ output, (Path.ofText path).results = .ok output ∧
      Agrees (alone lib' tree' processors' schedule' mode) t output
        (runFile lib tree processors schedule s (.ofText path)) := by
  obtain ⟨name, hname, hresults⟩ := results_of_suffix (p := .ofText path) (by rw [h.suffix]; decide)
  obtain ⟨key, content, hplace, hread⟩ := h.read
  obtain ⟨out, hout⟩ := FileTree.keyFor_withName hname hplace (hroom _ hresults)
  generalize (Path.ofText path).withName name = output at hresults hout
  have hl := Batch.listed_expressions t
  obtain ⟨collected, hperm, -, houtcomes, htree⟩ := Batch.Job.run_of_read ⟨.ofText path, output, s.mode, none⟩
    schedule (fun n hn => by cases hn) hprocessors hl hplace (hread lib) hout
  have hwritten := congrArg (fun after : FileTree => after.place output) htree
  rw [FileTree.place_put hout] at hwritten
  rw [runFile_of_results _ _ _ _ hresults]
  exact ⟨output, hresults, agrees_of_outcomes hperm (speaks_alone _ _ _ _ _)
    (fun l hmem => row_outcome (hl.good l hmem) (hlive l.number)) hwritten (congrArg (endingOf output) houtcomes)⟩

end

/-- A run over a text file agrees with the runs over its expressions alone, in either mode and whatever
order its workers are ready in, unless a worker dies or a directory stands where the results go. The mode
changes nothing at all. -/
theorem runs_agree (lib : Library) {tree : FileTree} {path t : Text} (h : Names tree path t)
    (hroom : HasRoom tree path) {processors : Nat} (hprocessors : 1 ≤ processors) {schedule : Batch.Schedule}
    (hlive : ∀ k, schedule.death k = none) (lib' : Library) (tree' : FileTree) (processors' : Nat)
    (schedule' : Batch.Schedule) (mode : Mode) :
    (∃ output, (Path.ofText path).results = .ok output ∧
      Agrees (alone lib' tree' processors' schedule' mode) t output
        (run lib tree processors schedule (forFile mode path)).1) ∧
    ∀ other : Mode,
      run lib tree processors schedule (forFile other path) = run lib tree processors schedule (forFile mode path) ∧
      ∀ e, run lib' tree' processors' schedule' (forExpression other e) =
        run lib' tree' processors' schedule' (forExpression mode e) := by
  have hfile : tree.isFile (.ofText path) = true := by
    obtain ⟨key, content, hplace, -⟩ := h.text
    unfold FileTree.isFile
    rw [hplace]
  refine ⟨?_, fun other => ⟨?_, fun e => ?_⟩⟩
  · rw [run_forFile _ _ _ _ _ h.value h.plain hfile]
    exact runFile_agrees lib h hroom hprocessors hlive _
  · rw [run_forFile _ _ _ _ _ h.value h.plain hfile, run_forFile _ _ _ _ _ h.value h.plain hfile]
    exact congrArg (·, some 30)
      (runSettings_mode tree ⟨.file (.ofText path), mode, false, 30⟩ lib other processors schedule)
  · rw [run_forExpression, run_forExpression]
    exact congrArg (·, some 30)
      (runSettings_mode tree' ⟨.expression e, mode, false, 30⟩ lib' other processors' schedule')

/-- Two lines that count, one of them wrong, and a blank one between them. -/
def pairTree : FileTree :=
  { files := [(["in.txt".toList], .bytes (Utf8.encode "1+2\n \n 4/0".toList))] }

theorem runs_agree_pair :
    ∃ key out,
      (run .standard pairTree 2 .prompt (forFile .fused "in.txt".toList)).1.tree.place (.ofText "in_txt_results.txt".toList) =
        .file key (.bytes (Utf8.encode out)) ∧
      "1+2 = 3.0".toList ∈ out.lines ∧
      "4/0 -> ERROR: cannot evaluate '/': division by zero".toList ∈ out.lines ∧
      (run .standard pairTree 2 .prompt (forFile .fused "in.txt".toList)).1.ending =
        .exit 1 "2 results written to in_txt_results.txt\n".toList [] := by
  have hnames : Names pairTree "in.txt".toList "1+2\n \n 4/0".toList :=
    ⟨by decide, by decide, by decide, ["in.txt".toList], .bytes (Utf8.encode "1+2\n \n 4/0".toList), by decide +kernel,
      by decide +kernel⟩
  have hresults : (Path.ofText "in.txt".toList).results = .ok (.ofText "in_txt_results.txt".toList) := by decide +kernel
  have hroom : HasRoom pairTree "in.txt".toList := by
    intro output houtput
    cases hresults.symm.trans houtput
    decide +kernel
  have hprocessors : 1 ≤ 2 := by decide
  have hlive : ∀ k, Batch.Schedule.prompt.death k = none := fun _ => rfl
  have hvalue : alone .standard .empty 1 .prompt .fused "1+2".toList = success "3.0".toList := by
    have hthree : Text.float 3 = "3.0".toList := by decide +kernel
    rw [← hthree]
    exact alone_of_value (by decide) (by decide +kernel)
  have hfault : alone .standard .empty 1 .prompt .fused "4/0".toList =
      failure "cannot evaluate '/': division by zero".toList := by
    have hmessage : Fault.message (.evaluation ['/'] .divisionByZero) =
        "cannot evaluate '/': division by zero".toList := by decide +kernel
    rw [← hmessage]
    exact alone_of_fault (by decide) (by decide +kernel)
  have hfirst : (⟨1, "1+2".toList⟩ : Line).Of "1+2\n \n 4/0".toList := ⟨0, "1+2".toList, by decide +kernel⟩
  have hlast : (⟨3, "4/0".toList⟩ : Line).Of "1+2\n \n 4/0".toList := ⟨2, " 4/0".toList, by decide +kernel⟩
  obtain ⟨⟨output, houtput, ⟨key, out, hwritten, htells⟩, status, hending, hone, hzero⟩, -⟩ :=
    runs_agree .standard hnames hroom hprocessors hlive .standard .empty 1 .prompt .fused
  cases hresults.symm.trans houtput
  have hprinted : Text.natural ((Text.lines "1+2\n \n 4/0".toList).countP fun line => !line.allBlank) ++
      " results written to ".toList ++ (Path.ofText "in_txt_results.txt".toList).toText ++ ['\n'] =
      "2 results written to in_txt_results.txt\n".toList := by decide +kernel
  rw [hprinted] at hending
  have hvalueRow : valueRow "1+2".toList "3.0".toList = "1+2 = 3.0".toList := by decide +kernel
  have hfailureRow : failureRow "4/0".toList "cannot evaluate '/': division by zero".toList =
      "4/0 -> ERROR: cannot evaluate '/': division by zero".toList := by decide +kernel
  rw [← hvalueRow, ← hfailureRow]
  refine ⟨key, out, hwritten, (htells.value _ hfirst _ ⟨_, hvalue⟩).mpr hvalue,
    (htells.failure _ hlast _ ⟨_, hfault⟩).mpr hfault, ?_⟩
  rcases hone with rfl | rfl
  · obtain ⟨stdout, stderr, hexit⟩ := hzero.mp rfl _ hlast
    cases hfault.symm.trans hexit
  · exact hending

/-- A directory stands where the results of the file go. -/
def blockedTree : FileTree :=
  { files := [(["a.txt".toList], .bytes (Utf8.encode ['1'])), (["a_txt_results.txt".toList, ['x']], .bytes [])] }

/-- The run over the file has no status then, though the run over its expression alone prints a value. -/
theorem not_agrees_blocked :
    Names blockedTree "a.txt".toList ['1'] ∧ (∀ k, Batch.Schedule.prompt.death k = none) ∧
      alone .standard blockedTree 1 .prompt .twoPass ['1'] = success "1.0".toList ∧
      (run .standard blockedTree 1 .prompt (forFile .twoPass "a.txt".toList)).1.ending = .brokenBatch (.write .isDirectory) ∧
      ∀ output, ¬ Agrees (alone .standard blockedTree 1 .prompt .twoPass) ['1'] output
        (run .standard blockedTree 1 .prompt (forFile .twoPass "a.txt".toList)).1 := by
  have hnames : Names blockedTree "a.txt".toList ['1'] :=
    ⟨by decide, by decide, by decide, ["a.txt".toList], .bytes (Utf8.encode ['1']), by decide +kernel,
      by decide +kernel⟩
  have hone : alone .standard blockedTree 1 .prompt .twoPass ['1'] = success "1.0".toList := by
    have hfloat : Text.float 1 = "1.0".toList := by decide +kernel
    rw [← hfloat]
    exact alone_of_value (by decide) (by decide +kernel)
  have hbroken : (run .standard blockedTree 1 .prompt (forFile .twoPass "a.txt".toList)).1.ending =
      .brokenBatch (.write .isDirectory) := rfl
  refine ⟨hnames, fun _ => rfl, hone, hbroken, fun output h => ?_⟩
  obtain ⟨status, hstatus, -⟩ := h.status
  rw [hbroken] at hstatus
  cases hstatus

end Reckoner.CommandLine

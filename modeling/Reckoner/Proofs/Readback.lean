import Reckoner.Proofs.Encoding
import Reckoner.Proofs.Legality
import Reckoner.Proofs.Reports
import Reckoner.Proofs.Rows

/-!
# Results read back

Nothing in a row of results is escaped, and yet each row by itself tells what it was written for. An
expression with a value holds neither of the two signs that part a row, and the words of a failure hold no
mark. So a row without a greater-than sign is that of a value, and parts at its only mark; any other parts at
its last.
-/

namespace Reckoner

/-! ## Marks in a text -/

/-- The places where a mark stands in a text, from the left: what is before it and what is behind it. -/
def splits (mark : Text) : Text → List (Text × Text)
  | [] => if mark = [] then [([], [])] else []
  | c :: t =>
    (if mark.isPrefixOf (c :: t) then [([], (c :: t).drop mark.length)] else []) ++
      (splits mark t).map fun (before, behind) => (c :: before, behind)

section
variable {mark t before behind : Text} {a : Text × Text}

theorem mem_splits_iff : (before, behind) ∈ splits mark t ↔ t = before ++ (mark ++ behind) := by
  induction t generalizing before with
  | nil =>
    unfold splits
    split
    · rename_i hmark
      simp [hmark, and_comm]
    · rename_i hmark
      simp [hmark]
  | cons c t ih =>
    rw [splits, List.mem_append]
    cases before with
    | nil =>
      have hnone : ([], behind) ∉ (splits mark t).map fun (before, behind) => (c :: before, behind) := by simp
      rw [or_iff_left hnone, List.nil_append]
      split
      · rename_i hprefix
        obtain ⟨rest, hrest⟩ := List.isPrefixOf_iff_prefix.mp hprefix
        rw [← hrest]
        simp [eq_comm]
      · rename_i hprefix
        refine iff_of_false (by simp) fun heq => hprefix ?_
        rw [List.isPrefixOf_iff_prefix]
        exact ⟨behind, heq.symm⟩
    | cons b before =>
      have hnone : (b :: before, behind) ∉
          (if mark.isPrefixOf (c :: t) then [(([] : Text), (c :: t).drop mark.length)] else []) := by
        split <;> simp
      rw [or_iff_right hnone, List.cons_append, List.cons.injEq, ← ih, List.mem_map]
      constructor
      · rintro ⟨⟨u, v⟩, hmem, heq⟩
        cases heq
        exact ⟨rfl, hmem⟩
      · rintro ⟨rfl, hmem⟩
        exact ⟨_, hmem, rfl⟩

theorem pairwise_splits (mark t : Text) : (splits mark t).Pairwise fun a b => a.1.length < b.1.length := by
  induction t with
  | nil =>
    unfold splits
    split <;> simp
  | cons c t ih =>
    rw [splits, List.pairwise_append]
    refine ⟨?_, ?_, fun a ha b hb => ?_⟩
    · split <;> simp
    · rw [List.pairwise_map]
      exact ih.imp Nat.succ_lt_succ
    · obtain ⟨b, -, rfl⟩ := List.mem_map.mp hb
      split at ha
      · obtain rfl := List.mem_singleton.mp ha
        exact Nat.succ_pos _
      · cases ha

theorem splits_eq_singleton (ha : a ∈ splits mark t) (hall : ∀ b ∈ splits mark t, b = a) :
    splits mark t = [a] := by
  have hpairwise := pairwise_splits mark t
  cases hs : splits mark t with
  | nil =>
    rw [hs] at ha
    cases ha
  | cons b more =>
    rw [hs] at hall hpairwise
    obtain ⟨rfl, hmore⟩ := List.forall_mem_cons.mp hall
    cases more with
    | nil => rfl
    | cons d more =>
      obtain rfl := hmore d List.mem_cons_self
      exact absurd (List.rel_of_pairwise_cons hpairwise List.mem_cons_self) (Nat.lt_irrefl _)

theorem getLast?_splits (ha : a ∈ splits mark t) (hlast : ∀ b ∈ splits mark t, a.1.length ≤ b.1.length → b = a) :
    (splits mark t).getLast? = some a := by
  have hpairwise := pairwise_splits mark t
  rcases List.eq_nil_or_concat (splits mark t) with hs | ⟨front, b, hs⟩
  · rw [hs] at ha
    cases ha
  · rw [hs] at ha hlast hpairwise ⊢
    rw [List.concat_eq_append] at ha hlast hpairwise ⊢
    have hle : a.1.length ≤ b.1.length := by
      rcases List.mem_append.mp ha with hfront | hb
      · exact Nat.le_of_lt ((List.pairwise_append.mp hpairwise).2.2 a hfront b List.mem_cons_self)
      · rw [List.mem_singleton.mp hb]
    rw [List.getLast?_append, hlast b (by simp) hle]
    rfl

end

/-! ## Rows -/

section
variable {x v words : Text}

/-- The row of a value parts at the only equals sign. -/
theorem splits_valueRow (hx : '=' ∉ x) (hv : '=' ∉ v) : splits " = ".toList (valueRow x v) = [(x, v)] := by
  refine splits_eq_singleton (mem_splits_iff.mpr (by simp [valueRow])) ?_
  rintro ⟨before, behind⟩ hmem
  have hrow : valueRow x v = valueRow before behind := by
    rw [mem_splits_iff.mp hmem]
    simp [valueRow]
  have hcount := congrArg (List.count '=') hrow
  have hmark : List.count '=' " = ".toList = 1 := by decide
  simp only [valueRow, List.count_append, hmark, List.count_eq_zero_of_not_mem hx,
    List.count_eq_zero_of_not_mem hv] at hcount
  have hbehind : '=' ∉ behind := List.count_eq_zero.mp (by omega)
  obtain ⟨rfl, rfl⟩ := valueRow_inj hv hbehind hrow
  rfl

/-- The row of a failure parts at the last mark, whatever the expression holds. -/
theorem getLast?_splits_failureRow (hwords : ¬ ['>', ' '] <:+: words) :
    (splits " -> ERROR: ".toList (failureRow x words)).getLast? = some (x, words) := by
  refine getLast?_splits (mem_splits_iff.mpr (by simp [failureRow])) ?_
  rintro ⟨before, behind⟩ hmem hle
  have hrow : failureRow x words = failureRow before behind := by
    rw [mem_splits_iff.mp hmem]
    simp [failureRow]
  -- What is behind a later mark is an end of the words.
  have hsuffix : behind <:+ words := by
    have hlength := congrArg List.length hrow
    simp only [failureRow, List.length_append] at hlength
    refine List.suffix_of_suffix_length_le ⟨before ++ " -> ERROR: ".toList, rfl⟩ ?_ (by dsimp only at hle; omega)
    exact ⟨x ++ " -> ERROR: ".toList, hrow⟩
  have hbehind : ¬ ['>', ' '] <:+: behind := fun hpair => hwords (hpair.trans hsuffix.isInfix)
  obtain ⟨rfl, rfl⟩ := failureRow_inj hwords hbehind hrow
  rfl

end

/-! ## Outcomes -/

theorem sign_not_mem_of_evaluateTwoPass {e : Text} {x : Float} (h : Rules.standard.evaluateTwoPass e = .ok x)
    {d : Char} (hd : d ∈ partingSigns) : d ∉ e := by
  obtain ⟨out, hout, -⟩ := bind_eq_ok_iff.mp h
  obtain ⟨tokens, hscan, -⟩ := bind_eq_ok_iff.mp hout
  intro hmem
  obtain ⟨i, hi⟩ := List.mem_iff_getElem?.mp hmem
  have hbad : isBlank d = false ∧ isLegal d = false := by
    rcases List.mem_pair.mp hd with rfl | rfl <;> decide
  exact exists_scan_iff.mp ⟨tokens, hscan⟩ i ⟨d, hi, Or.inl hbad⟩

theorem wording_exit (code : Int) : Wording ("worker exited with code ".toList ++ Text.integer code) := by
  refine ⟨visible_append.mpr ⟨by decide, visible_integer code⟩, List.mem_append_left _ (by decide), ?_⟩
  intro d hd hpair
  have hnone : d ∉ "worker exited with code ".toList ++ Text.integer code := by
    rw [List.mem_append, not_or]
    exact ⟨sign_not_mem hd (by decide), sign_not_mem_integer hd code⟩
  exact hnone (hpair.subset List.mem_cons_self)

/-- What a row can show: a value of an expression without parting signs, or a failure in a wording. -/
inductive Shown : Outcome → Prop
  | value {line : Nat} {e : Text} {rpn : Option Text} {x : Float} (h : ∀ d ∈ partingSigns, d ∉ e) :
      Shown ⟨line, e, rpn, .value x⟩
  | failure {line : Nat} {e : Text} {rpn : Option Text} {words : Text} (h : Wording words) :
      Shown ⟨line, e, rpn, .failure words⟩

theorem shown_outcome (plan : Batch.Plan) (l : Line) : Shown (Batch.outcome plan l) := by
  cases hdeath : plan.schedule.death l.number with
  | some code =>
    rw [Batch.outcome_of_death plan hdeath]
    exact .failure (wording_exit code)
  | none =>
    have houtcome := Batch.evaluate_eq_outcome plan hdeath
    rcases Worker.evaluate_cases ⟨l.text, l.number, plan.mode⟩ with ⟨rpn, x, -, hvalue, h⟩ | ⟨fault, hfault, h⟩
    · rw [Rules.evaluate_eq] at hvalue
      rw [← Except.ok.inj (h.symm.trans houtcome)]
      exact .value fun d hd => sign_not_mem_of_evaluateTwoPass hvalue hd
    · rw [Rules.evaluate_eq] at hfault
      rw [← Except.ok.inj (h.symm.trans houtcome)]
      exact .failure (wording_message (legal_of_evaluateTwoPass hfault))

theorem Shown.unbroken {o : Outcome} (h : Shown o) (he : Unbroken o.expression) : Unbroken o.render := by
  cases h with
  | @value line e rpn x => exact unbroken_valueRow he (visible_float x).unbroken
  | failure h => exact unbroken_failureRow he h.visible.unbroken

/-- Whether an outcome has succeeded, its expression, and its value or its failure, as they can be told from
its row. -/
structure Readable (o : Outcome) : Prop where
  sign : o.succeeded = true ↔ '>' ∉ o.render
  value : ∀ x, o.verdict = .value x → splits " = ".toList o.render = [(o.expression, Text.float x)]
  failure : ∀ words, o.verdict = .failure words →
    (splits " -> ERROR: ".toList o.render).getLast? = some (o.expression, words)

theorem Shown.readable {o : Outcome} (h : Shown o) : Readable o := by
  cases h with
  | @value line e rpn x h =>
    refine ⟨iff_of_true rfl ?_, fun y hy => ?_, fun words hwords => by cases hwords⟩
    · have hsign : '>' ∈ partingSigns := by decide
      show '>' ∉ e ++ " = ".toList ++ Text.float x
      simp only [List.mem_append, not_or]
      exact ⟨⟨h _ hsign, by decide⟩, sign_not_mem_float hsign x⟩
    · cases hy
      exact splits_valueRow (h '=' (by decide)) (sign_not_mem_float (by decide) x)
  | @failure line e rpn words h =>
    refine ⟨iff_of_false Bool.false_ne_true (not_not.mpr ?_), fun x hx => (by cases hx), fun more hmore => ?_⟩
    · exact List.mem_append_left _ (List.mem_append_right _ (by decide))
    · cases hmore
      exact getLast?_splits_failureRow (h.apart '>' (by decide))

/-! ## Reading a row -/

/-- What a row says. -/
structure Reading where
  expression : Text
  succeeded : Bool
  /-- The value as it is printed, or the words of the failure. -/
  told : Text
  deriving DecidableEq, Repr

def Reading.ofRow? (row : Text) : Option Reading :=
  if '>' ∈ row then (splits " -> ERROR: ".toList row).getLast?.map fun (e, words) => ⟨e, false, words⟩
  else match splits " = ".toList row with
    | [(e, v)] => some ⟨e, true, v⟩
    | _ => none

def Outcome.reading (o : Outcome) : Reading :=
  match o.verdict with
  | .value x => ⟨o.expression, true, Text.float x⟩
  | .failure words => ⟨o.expression, false, words⟩

theorem Readable.ofRow?_render {o : Outcome} (h : Readable o) : Reading.ofRow? o.render = some o.reading := by
  have hsign := h.sign
  unfold Reading.ofRow? Outcome.reading
  cases hv : o.verdict with
  | value x =>
    have hsucceeded : o.succeeded = true := by simp [Outcome.succeeded, hv]
    rw [if_neg (hsign.mp hsucceeded), h.value x hv]
  | failure words =>
    have hfailed : ¬ o.succeeded = true := by simp [Outcome.succeeded, hv]
    rw [if_pos (not_not.mp fun hnone => hfailed (hsign.mpr hnone)), h.failure words hv]
    rfl

/-! ## Results files -/

theorem lines_rows {outcomes : List Outcome} (h : ∀ o ∈ outcomes, Unbroken o.render) :
    Text.lines (outcomes.flatMap fun o => o.render ++ ['\n']) = outcomes.map Outcome.render := by
  have hrows : (outcomes.map Outcome.render).flatMap (fun row => row ++ ['\n']) =
      outcomes.flatMap fun o => o.render ++ ['\n'] := List.flatMap_map ..
  rw [← hrows, Text.lines_flatMap (List.forall_mem_map.mpr h)]

namespace Batch

variable {job : Job} {processors : Nat} (schedule : Schedule)

/-- Whatever a text holds, whatever workers are ready and whichever of them die, the lines of the results
file are the rows of the outcomes, in the order in which they were collected, and each row by itself tells
the expression of its line, whether it succeeded, and the value or the words of the failure. -/
theorem Job.run_readback {lib : Library} (hworkers : ∀ n ∈ job.maxWorkers, 1 ≤ n) (hprocessors : 1 ≤ processors)
    {tree : FileTree} {key out : FileKey} {content : Content} {t : Text}
    (hinput : tree.place job.input = .file key content) (hload : Source.load lib job.input content = .ok t)
    (houtput : tree.keyFor job.output = .ok out) :
    ∃ results collected data text, (job.run lib processors schedule tree).results = .ok results ∧
      Accounts job.mode schedule t results ∧
      Collects (job.plan processors schedule (expressions t)) (expressions t) collected ∧
      collected.Perm results ∧
      (job.run lib processors schedule tree).tree.place job.output = .file out (.bytes data) ∧
      Utf8.decode data = .ok text ∧
      text.lines = collected.map Outcome.render ∧
      text.lines.map Reading.ofRow? = collected.map (fun o => some o.reading) ∧
      ∀ o ∈ collected, Readable o := by
  have hl := listed_expressions t
  obtain ⟨lines, hperm, hcollects, hrun, htree⟩ :=
    job.run_of_read schedule hworkers hprocessors hl hinput (Source.read_of_load hload) houtput
  have haccounts : Accounts job.mode schedule t
      ((expressions t).map (outcome (job.plan processors schedule (expressions t)))) :=
    accounts_outcome (job.plan processors schedule (expressions t)) t
  generalize job.plan processors schedule (expressions t) = plan at hcollects hrun htree haccounts ⊢
  have hreadable : ∀ o ∈ lines.map (outcome plan), Readable o := by
    intro o ho
    obtain ⟨l, -, rfl⟩ := List.mem_map.mp ho
    exact (shown_outcome plan l).readable
  have hunbroken : ∀ o ∈ lines.map (outcome plan), Unbroken o.render := by
    intro o ho
    obtain ⟨l, hmem, rfl⟩ := List.mem_map.mp ho
    apply (shown_outcome plan l).unbroken
    rw [(outcome_source plan l).2]
    exact (mem_expressions_iff.mp (hperm.subset hmem)).unbroken
  have hrows := lines_rows hunbroken
  refine ⟨_, lines.map (outcome plan), _, _, hrun, haccounts, hcollects, hperm.map _, ?_,
    Utf8.decode_encode _, hrows, ?_, hreadable⟩
  · rw [htree]
    exact FileTree.place_put houtput _
  · rw [hrows, List.map_map]
    exact List.map_congr_left fun o ho => (hreadable o ho).ofRow?_render

/-- Lines that hold marks and signs themselves. The worker of the last one dies. -/
def markedText : Text := "1 = 2\n1+2\n 3 -> ERROR: 4 = 5\n6".toList

def markedSchedule : Schedule := ⟨fun n k => n = 0 && k = 3, fun k => if k = 4 then some (-9) else none⟩

def markedTree : FileTree := { files := [(["in.txt".toList], .bytes (Utf8.encode markedText))] }

theorem run_readback_marked :
    ∃ results data text, (sampleJob.run .standard 4 markedSchedule markedTree).results = .ok results ∧
      (sampleJob.run .standard 4 markedSchedule markedTree).tree.place sampleJob.output =
        .file ["out.txt".toList] (.bytes data) ∧
      Utf8.decode data = .ok text ∧ text.lines.length = results.length ∧
      some ⟨"3 -> ERROR: 4 = 5".toList, false, "Unexpected character '>' at position 3".toList⟩ ∈
        text.lines.map Reading.ofRow? ∧
      some ⟨['6'], false, "worker exited with code -9".toList⟩ ∈ text.lines.map Reading.ofRow? := by
  have hworkers : ∀ n ∈ sampleJob.maxWorkers, 1 ≤ n := by decide
  have hprocessors : 1 ≤ 4 := by decide
  have hinput : markedTree.place sampleJob.input = .file ["in.txt".toList] (.bytes (Utf8.encode markedText)) := by
    decide +kernel
  have hload : Source.load .standard sampleJob.input (.bytes (Utf8.encode markedText)) = .ok markedText := by decide +kernel
  have houtput : markedTree.keyFor sampleJob.output = .ok ["out.txt".toList] := by decide +kernel
  obtain ⟨results, collected, data, text, hrun, haccounts, -, hperm, hplace, hdecode, hlines, hread, -⟩ :=
    Job.run_readback markedSchedule hworkers hprocessors hinput hload houtput
  have htold : ∀ l : Line, l.Of markedText → ∃ o, some o.reading ∈ text.lines.map Reading.ofRow? ∧
      Delivers sampleJob.mode markedSchedule l o := by
    intro l hl
    obtain ⟨o, ho, hdelivers⟩ := haccounts.complete l hl
    rw [hread]
    exact ⟨o, List.mem_map_of_mem (hperm.symm.subset ho), hdelivers⟩
  obtain ⟨third, hthird, hlived⟩ := htold ⟨3, "3 -> ERROR: 4 = 5".toList⟩
    (mem_expressions_iff.mp (by decide +kernel))
  obtain ⟨last, hlast, hdied⟩ := htold ⟨4, ['6']⟩ (mem_expressions_iff.mp (by decide +kernel))
  have hlength : text.lines.length = results.length := by rw [hlines, List.length_map, hperm.length_eq]
  refine ⟨results, data, text, hrun, hplace, hdecode, hlength, ?_, ?_⟩
  · have hevaluate : Worker.evaluate ⟨"3 -> ERROR: 4 = 5".toList, 3, .fused⟩ =
        .ok ⟨3, "3 -> ERROR: 4 = 5".toList, none, .failure "Unexpected character '>' at position 3".toList⟩ := by
      rfl
    obtain rfl := Except.ok.inj (hevaluate.symm.trans (hlived.lived rfl))
    exact hthird
  · obtain ⟨-, hverdict⟩ := hdied.died (-9) rfl
    have hreading : last.reading = ⟨['6'], false, "worker exited with code -9".toList⟩ := by
      unfold Outcome.reading
      rw [hverdict, hdied.expression]
      rfl
    rw [← hreading]
    exact hlast

end Batch

end Reckoner

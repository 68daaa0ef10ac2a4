import SequenceChart.Proofs.Script.Reading

/-! The line that an error of a script is reported at. It is the first line that no continuation makes right
again or, in a script that could still go on, the line that opened the innermost of its open blocks. -/

namespace SequenceChart

/-- The lines that opened the blocks which are open after a statement, innermost first. -/
def Statement.openers (line : Nat) (before : List Nat) : Statement → List Nat
  | .opening _ => line :: before
  | .close => before.tail
  | _ => before

namespace Assembly

def openers (a : Assembly) : List Nat := a.opened.map OpenBlock.line

theorem openers_push (a : Assembly) (node : Node) : (a.push node).openers = a.openers := by
  unfold push openers
  cases a.opened with
  | nil => rfl
  | cons block outer => rfl

theorem openers_step {a after : Assembly} {line : Nat} {s : Statement} (h : a.step line s = .ok after) :
    after.openers = s.openers line a.openers := by
  cases s with
  | leaf content =>
    cases content with
    | instruction setting =>
      obtain rfl := Except.ok.inj h
      rfl
    | _ =>
      obtain rfl := Except.ok.inj h
      exact openers_push a _
  | opening heading =>
    obtain rfl := Except.ok.inj h
    rfl
  | branch heading last =>
    unfold step at h
    unfold openers
    cases hopened : a.opened with
    | nil =>
      rw [hopened] at h
      contradiction
    | cons block outer =>
      rw [hopened] at h
      obtain ⟨branched, hbranch, rfl⟩ := map_eq_ok.mp h
      obtain ⟨_, _, hline, _⟩ := OpenBlock.branch_eq_ok hbranch
      rw [List.map_cons, List.map_cons, hline]
      rfl
  | close =>
    unfold step at h
    cases hopened : a.opened with
    | nil =>
      rw [hopened] at h
      contradiction
    | cons block outer =>
      rw [hopened] at h
      obtain rfl := Except.ok.inj h
      rw [openers_push]
      unfold openers
      rw [hopened]
      rfl

theorem openers_run {statements : List (Nat × Statement)} {a after : Assembly} (h : a.run statements = .ok after) :
    after.openers = statements.foldl (fun before s => s.2.openers s.1 before) a.openers := by
  induction statements generalizing a with
  | nil =>
    obtain rfl := Except.ok.inj h
    rfl
  | cons s later ih =>
    rw [run_cons] at h
    obtain ⟨middle, hstep, hlater⟩ := bind_eq_ok.mp h
    rw [ih hlater, openers_step hstep, List.foldl_cons]

theorem isOk_step_close (a : Assembly) (line : Nat) : (a.step line .close).isOk = true ↔ a.openers ≠ [] := by
  unfold step openers
  cases a.opened with
  | nil => exact iff_of_false nofun (not_not_intro rfl)
  | cons block outer => exact iff_of_true rfl (List.cons_ne_nil _ _)

theorem isOk_finish (a : Assembly) : a.finish.isOk = true ↔ a.openers.length = 0 := by
  unfold finish openers
  cases a.opened with
  | nil => exact iff_of_true rfl rfl
  | cons block outer => exact iff_of_false nofun nofun

theorem finish_eq_error {a : Assembly} {e : ScriptError} (h : a.finish = .error e) :
    ∃ outer, a.openers = e.line :: outer ∧ e.fault = .unterminated := by
  unfold finish at h
  unfold openers
  cases hopened : a.opened with
  | nil =>
    rw [hopened] at h
    contradiction
  | cons block outer =>
    rw [hopened] at h
    obtain rfl := Except.error.inj h
    exact ⟨outer.map OpenBlock.line, rfl, rfl⟩

theorem line_of_readLine {a : Assembly} {line : Nat} {text : List Char} {e : ScriptError}
    (h : a.readLine line text = .error e) : e.line = line := by
  obtain ⟨fault, _, rfl⟩ := mapError_eq_error.mp h
  rfl

end Assembly

namespace Script

def source (lines : List (List Char)) : String := String.ofList (lines.flatMap (· ++ ['\n']))

def closingLine : List Char := "end".toList

/-- The lines that opened the blocks which are open after these lines, innermost first. -/
def openers (lines : List (List Char)) : List Nat :=
  (numbered 1 lines).foldl (fun before s => s.2.openers s.1 before) []

theorem ofLine_closingLine : Statement.ofLine closingLine = .ok (some .close) := by decide +kernel

theorem readLines_eq_error {a : Assembly} {line : Nat} {lines : List (List Char)} {e : ScriptError}
    (h : readLines a line lines = .error e) :
    ∃ before text after middle, lines = before ++ text :: after ∧ readLines a line before = .ok middle ∧
      middle.readLine (line + before.length) text = .error e := by
  induction lines generalizing a line with
  | nil => contradiction
  | cons text later ih =>
    rw [readLines] at h
    cases hread : a.readLine line text with
    | error fault =>
      rw [hread] at h
      obtain rfl := Except.error.inj h
      exact ⟨[], text, later, a, rfl, rfl, hread⟩
    | ok middle =>
      rw [hread] at h
      obtain ⟨before, bad, after, last, rfl, hbefore, hbad⟩ := ih h
      refine ⟨text :: before, bad, after, last, rfl, ?_, ?_⟩
      · rw [readLines, hread]
        exact hbefore
      · rw [List.length_cons, ← hbad, Nat.add_right_comm, Nat.add_assoc]

theorem openers_readLines {lines : List (List Char)} {after : Assembly}
    (h : readLines .empty 1 lines = .ok after) : after.openers = openers lines :=
  Assembly.openers_run ((readLines_eq_ok (readable_of_readLines h) _ _ _).mp h)

theorem readLine_closingLine (a : Assembly) (line : Nat) :
    a.readLine line closingLine = (a.step line .close).mapError fun fault => ⟨line, fault⟩ :=
  a.readLine_statement ofLine_closingLine line

/-- Open blocks are closed by as many closing lines, and by no other number of them. -/
theorem isOk_closed (a : Assembly) (line count : Nat) :
    (readLines a line (List.replicate count closingLine) >>= Assembly.finish).isOk = true ↔
      count = a.openers.length := by
  induction count generalizing a line with
  | zero => exact a.isOk_finish.trans eq_comm
  | succ count ih =>
    have hclosable := a.isOk_step_close line
    rw [List.replicate_succ, readLines, readLine_closingLine]
    cases hstep : a.step line .close with
    | error fault =>
      have hnone : a.openers = [] := by simpa [hstep, Except.isOk, Except.toBool] using hclosable
      rw [hnone]
      change false = true ↔ count + 1 = 0
      simp
    | ok after =>
      have hsome : a.openers ≠ [] := hclosable.mp (hstep ▸ rfl)
      have htail : after.openers = a.openers.tail := Assembly.openers_step hstep
      have hlength := List.length_pos_iff.mpr hsome
      refine (ih after (line + 1)).trans ?_
      rw [htail, List.length_tail]
      omega

theorem isOk_parseLines_closed {lines : List (List Char)} {a : Assembly} (h : readLines .empty 1 lines = .ok a)
    (count : Nat) :
    (parseLines (lines ++ List.replicate count closingLine)).isOk = true ↔ count = (openers lines).length := by
  unfold parseLines
  rw [readLines_append, h, ← openers_readLines h]
  exact isOk_closed a _ count

theorem readLines_source {lines : List (List Char)} (h : ∀ line ∈ lines, '\n' ∉ line) (a : Assembly) (line : Nat)
    (rest : List Char) :
    readLines a line (Text.lines (lines.flatMap (· ++ ['\n']) ++ rest)) =
      readLines a line (lines ++ Text.lines rest) := by
  induction lines generalizing a line with
  | nil => rfl
  | cons text later ih =>
    obtain ⟨htext, hlater⟩ := List.forall_mem_cons.mp h
    obtain ⟨found, hsame, hfound⟩ := Text.exists_lines_line htext
    rw [List.flatMap_cons, List.append_assoc, List.append_assoc, List.singleton_append, hfound, List.cons_append,
      readLines, readLines]
    unfold Assembly.readLine
    rw [Statement.ofLine_eq_of_trim_eq hsame]
    exact bind_congr fun middle => ih hlater middle (line + 1)

theorem parse_source_append {lines : List (List Char)} (h : ∀ line ∈ lines, '\n' ∉ line) (more : String) :
    parse (source lines ++ more) = parseLines (lines ++ Text.lines more.toList) := by
  unfold parse parseLines source
  rw [String.toList_append, String.toList_ofList, readLines_source h]

theorem parse_source {lines : List (List Char)} (h : ∀ line ∈ lines, '\n' ∉ line) :
    parse (source lines) = parseLines lines := by
  have happend := parse_source_append h ""
  rwa [String.append_empty, String.toList_empty, Text.lines, List.append_nil] at happend

theorem unclosed_of_parseLines {lines : List (List Char)} {a : Assembly} (hread : readLines .empty 1 lines = .ok a)
    {e : ScriptError} (h : parseLines lines = .error e) :
    (openers lines).head? = some e.line ∧ e.fault = .unterminated := by
  unfold parseLines at h
  rw [hread] at h
  obtain ⟨outer, houter, hfault⟩ := Assembly.finish_eq_error h
  rw [← openers_readLines hread, houter]
  exact ⟨rfl, hfault⟩

theorem parseLines_of_readLine {before : List (List Char)} {a : Assembly} (hread : readLines .empty 1 before = .ok a)
    {text : List Char} {e : ScriptError} (h : a.readLine (1 + before.length) text = .error e)
    (more : List (List Char)) : parseLines (before ++ text :: more) = .error e := by
  unfold parseLines
  rw [readLines_append, hread]
  simp only [bind, Except.bind, readLines, h]

/-- An error is reported at the first line that cannot be right. Either the lines leave blocks open, which as
many closing lines as there are open blocks would close and no other number of them: then the innermost of these
is reported where it was opened. Or the lines before the reported one can be completed to a script by closing
lines, and whatever text follows the reported line, the error is the same. -/
theorem parse_error_at_first_fault {lines : List (List Char)} (hlines : ∀ line ∈ lines, '\n' ∉ line)
    {e : ScriptError} (h : parse (source lines) = .error e) :
    ((openers lines).head? = some e.line ∧ e.fault = .unterminated ∧
      ∀ count, (parse (source (lines ++ List.replicate count closingLine))).isOk = true ↔
        count = (openers lines).length) ∨
    ∃ before text after, lines = before ++ text :: after ∧ e.line = before.length + 1 ∧
      (∃ count, (parse (source (before ++ List.replicate count closingLine))).isOk = true) ∧
      ∀ more : String, parse (source (before ++ [text]) ++ more) = .error e := by
  have hclosing : ∀ count, ∀ line ∈ List.replicate count closingLine, '\n' ∉ line := by
    intro count line hline
    rw [List.eq_of_mem_replicate hline]
    decide
  rw [parse_source hlines] at h
  cases hread : readLines .empty 1 lines with
  | ok a =>
    left
    obtain ⟨hline, hfault⟩ := unclosed_of_parseLines hread h
    refine ⟨hline, hfault, fun count => ?_⟩
    rw [parse_source (List.forall_mem_append.mpr ⟨hlines, hclosing count⟩)]
    exact isOk_parseLines_closed hread count
  | error fault =>
    right
    have hfault : parseLines lines = .error fault := by
      unfold parseLines
      rw [hread]
      rfl
    obtain rfl := Except.error.inj (h.symm.trans hfault)
    obtain ⟨before, text, after, a, rfl, hbefore, hbad⟩ := readLines_eq_error hread
    obtain ⟨hbeforeLines, htextLines⟩ := List.forall_mem_append.mp hlines
    have htext := (List.forall_mem_cons.mp htextLines).1
    refine ⟨before, text, after, rfl, ?_, ⟨(openers before).length, ?_⟩, fun more => ?_⟩
    · rw [Assembly.line_of_readLine hbad, Nat.add_comm]
    · rw [parse_source (List.forall_mem_append.mpr ⟨hbeforeLines, hclosing _⟩)]
      exact (isOk_parseLines_closed hbefore _).mpr rfl
    · rw [parse_source_append (List.forall_mem_append.mpr ⟨hbeforeLines, by simpa using htext⟩), List.append_assoc]
      exact parseLines_of_readLine hbefore hbad _

def lateBranchSample : List (List Char) :=
  ["loop: forever\r".toList, "alt: x".toList, "a->b: hi".toList, "else".toList, "elsealt: y".toList, "end end".toList]

theorem parse_error_at_first_fault_lateBranchSample :
    (∀ line ∈ lateBranchSample, '\n' ∉ line) ∧
      parse (source lateBranchSample) = .error ⟨5, .branchAfterLast "else alt"⟩ ∧
      ∃ before text after, lateBranchSample = before ++ text :: after ∧ 5 = before.length + 1 ∧
        (∃ count, (parse (source (before ++ List.replicate count closingLine))).isOk = true) ∧
        ∀ more : String,
          parse (source (before ++ [text]) ++ more) = .error ⟨5, .branchAfterLast "else alt"⟩ := by
  have hlines : ∀ line ∈ lateBranchSample, '\n' ∉ line := by decide
  have hparse : parse (source lateBranchSample) = .error ⟨5, .branchAfterLast "else alt"⟩ := by decide +kernel
  obtain ⟨_, hfault, _⟩ | hfirst := parse_error_at_first_fault hlines hparse
  · contradiction
  · exact ⟨hlines, hparse, hfirst⟩

example : openers ["loop: a".toList, "alt: b".toList, "end".toList, "alt: c".toList, "elsealt: d".toList,
    "loop: e".toList] = [6, 4, 1] := by
  decide +kernel

end Script

end SequenceChart

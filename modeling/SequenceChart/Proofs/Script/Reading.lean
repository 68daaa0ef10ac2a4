import SequenceChart.Proofs.Script.Blocks
import SequenceChart.Proofs.Script.Tokens

/-! Reading line by line. What a script says depends on what each of its lines says and on nothing else, and its
lines may as well be taken for the rows between its line feeds. -/

namespace SequenceChart

namespace Statement

theorem ofLine_eq_of_trim_eq {text other : List Char} (h : Text.trim text = Text.trim other) :
    ofLine text = ofLine other := by
  unfold ofLine
  rw [h]

theorem ofLine_of_trim_eq_nil {line : List Char} (h : Text.trim line = []) : ofLine line = .ok none := by
  have hsetting : isSettingLine line = false := by
    unfold isSettingLine
    rw [h]
  rw [ofLine_scan hsetting, h, Token.tokenize_of_nil rfl, ofScan]

end Statement

namespace Assembly

theorem readLine_eq_of_ofLine_eq {text other : List Char} (h : Statement.ofLine text = Statement.ofLine other)
    (a : Assembly) (line : Nat) : a.readLine line text = a.readLine line other := by
  unfold readLine
  rw [h]

theorem readLine_silent {text : List Char} (h : Statement.ofLine text = .ok none) (a : Assembly) (line : Nat) :
    a.readLine line text = .ok a := by
  unfold readLine
  rw [h]
  rfl

theorem readLine_statement {text : List Char} {s : Statement} (h : Statement.ofLine text = .ok (some s))
    (a : Assembly) (line : Nat) : a.readLine line text = (a.step line s).mapError fun fault => ⟨line, fault⟩ := by
  unfold readLine
  rw [h]
  rfl

end Assembly

namespace Script

theorem readLines_append (a : Assembly) (line : Nat) (lines later : List (List Char)) :
    readLines a line (lines ++ later) =
      readLines a line lines >>= fun after => readLines after (line + lines.length) later := by
  induction lines generalizing a line with
  | nil => rfl
  | cons text lines ih =>
    rw [List.cons_append, readLines, readLines]
    cases a.readLine line text with
    | error e => rfl
    | ok middle =>
      have hcount : line + (text :: lines).length = line + 1 + lines.length := by
        rw [List.length_cons]
        omega
      rw [hcount]
      exact ih middle (line + 1)

theorem readLines_cons (a : Assembly) (line : Nat) (text : List Char) (later : List (List Char)) :
    readLines a line (text :: later) = a.readLine line text >>= fun after => readLines after (line + 1) later := rfl

theorem readLines_singleton (a : Assembly) (line : Nat) (text : List Char) :
    readLines a line [text] = a.readLine line text := by
  rw [readLines_cons]
  cases a.readLine line text <;> rfl

theorem readLines_eq_of_map_eq {lines others : List (List Char)}
    (h : lines.map Statement.ofLine = others.map Statement.ofLine) (a : Assembly) (line : Nat) :
    readLines a line lines = readLines a line others := by
  induction lines generalizing others a line with
  | nil => rw [List.map_eq_nil_iff.mp h.symm]
  | cons text later ih =>
    obtain ⟨other, rest, rfl, hother, hrest⟩ := List.map_eq_cons_iff.mp h.symm
    rw [readLines_cons, readLines_cons, Assembly.readLine_eq_of_ofLine_eq hother]
    exact bind_congr fun middle => ih hrest.symm middle (line + 1)

theorem parseLines_eq_of_map_eq {lines others : List (List Char)}
    (h : lines.map Statement.ofLine = others.map Statement.ofLine) : parseLines lines = parseLines others := by
  unfold parseLines
  rw [readLines_eq_of_map_eq h]

theorem readLines_rows (text : List Char) (a : Assembly) (line : Nat) :
    readLines a line (Text.rows text) = readLines a line (Text.lines text) := by
  induction text using Text.line_induction generalizing a line with
  | last text hfeed =>
    rw [Text.rows_of_lineFeed_not_mem hfeed]
    cases text with
    | nil => rw [readLines_singleton, Assembly.readLine_silent (Statement.ofLine_of_trim_eq_nil rfl)]; rfl
    | cons c text => rw [Text.lines_of_lineFeed_not_mem hfeed (List.cons_ne_nil c text)]
  | more text rest hfeed ih =>
    obtain ⟨found, hsame, hfound⟩ := Text.exists_lines_line hfeed
    rw [Text.rows_line hfeed, hfound, readLines_cons, readLines_cons,
      Assembly.readLine_eq_of_ofLine_eq (Statement.ofLine_eq_of_trim_eq hsame)]
    exact bind_congr fun middle => ih middle (line + 1)

theorem parseLines_rows (text : List Char) : parseLines (Text.rows text) = parseLines (Text.lines text) := by
  unfold parseLines
  rw [readLines_rows]

theorem parse_eq_parseLines_rows (text : String) : parse text = parseLines (Text.rows text.toList) :=
  (parseLines_rows text.toList).symm

/-- Lines that have been read leave settings apart, and leave shaped nodes behind. -/
theorem sound_of_readLines {lines : List (List Char)} {a : Assembly} {line : Nat}
    (h : readLines .empty line lines = .ok a) : (∀ node ∈ a.settings, node.isSetting = true) ∧ a.Sound := by
  rw [readLines_eq_ok (readable_of_readLines h), Assembly.run_filter] at h
  obtain ⟨read, hread, rfl⟩ := map_eq_ok.mp h
  obtain ⟨hsound, _⟩ := Assembly.run_sound (worded_filter line lines) Assembly.sound_empty hread
  have hnone : read.settings = [] := Assembly.settings_run (isSetting_filter _) hread
  refine ⟨?_, hsound.nodes, hsound.opened⟩
  unfold Assembly.addSettings
  rw [hnone, List.nil_append]
  exact isSetting_settingNodes _

end Script

end SequenceChart

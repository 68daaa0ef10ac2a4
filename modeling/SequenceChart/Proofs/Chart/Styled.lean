import SequenceChart.Chart.Document
import SequenceChart.Proofs.Diagram.Settings
import SequenceChart.Proofs.Script.Reading
import SequenceChart.Proofs.Script.RoundTrip

/-! Styles chosen outside of a script. A setting below the last line of a script is added to its diagram, and the
last setting of a style wins, so the style of a document can as well be written at the end of its script. -/

namespace SequenceChart

namespace Script

theorem lines_setting {setting : Instruction} (h : setting.Writable) {ending : List Char}
    (hending : ending = [] ∨ ending = ['\n']) :
    Text.lines ((Statement.leaf (.instruction setting)).write ++ ending) =
      [(Statement.leaf (.instruction setting)).write] := by
  have hsays := Statement.says_setting h
  cases hending with
  | inl hnone =>
    rw [hnone, List.append_nil]
    exact Text.lines_of_lineFeed_not_mem hsays.single (List.cons_ne_nil _ _)
  | inr hfeed =>
    rw [hfeed, Text.lines_line hsays.single hsays.trimmed.getLast?_ne, Text.lines]

theorem readLines_setting {setting : Instruction} (h : setting.Writable) {ending : List Char}
    (hending : ending = [] ∨ ending = ['\n']) (a : Assembly) (line : Nat) :
    readLines a line (Text.rows ((Statement.leaf (.instruction setting)).write ++ ending)) =
      .ok (a.addSettings [.leaf line (.instruction setting)]) := by
  rw [readLines_rows, lines_setting h hending, readLines_singleton,
    Assembly.readLine_statement (Statement.says_setting h).read]
  rfl

end Script

namespace Diagram

/-- A setting in a line below a script is the last setting of its diagram. An error of the script stays what it is,
as does its line. -/
theorem load_append_setting {setting : Instruction} (h : setting.Writable) {ending : List Char}
    (hending : ending = [] ∨ ending = ['\n']) (text : String) :
    load (text ++ "\n" ++ String.ofList ((Statement.leaf (.instruction setting)).write ++ ending)) =
      (load text).map (·.instruct setting) := by
  unfold load ofNodes
  rw [Script.parse_eq_parseLines_rows, Script.parse_eq_parseLines_rows, Script.parseLines, Script.parseLines]
  simp only [String.toList_append, String.toList_ofList, String.reduceToList, List.append_assoc, List.cons_append,
    List.nil_append, Text.rows_append, Script.readLines_append]
  cases hread : Script.readLines .empty 1 (Text.rows text.toList) with
  | error fault => rfl
  | ok a =>
    simp only [bind, Except.bind, Script.readLines_setting h hending]
    obtain ⟨hsettings, hsound⟩ := Script.sound_of_readLines hread
    obtain ⟨settings, nodes, opened⟩ := a
    cases opened with
    | cons block outer => rfl
    | nil =>
      simp only [Assembly.addSettings, Assembly.finish, List.append_assoc, List.singleton_append,
        Builder.build_setting _ _ hsettings hsound.nodes]
      cases Builder.build ⟨BuiltinIcon.set, false⟩ (settings ++ nodes) <;> rfl

theorem ownConfig_instruct {ι α : Type} [Length α] (d : Diagram ι) (setting : Instruction) :
    ((d.instruct setting).ownConfig : Config α) = d.ownConfig.instruct setting :=
  List.foldl_append

theorem placements_instruct {ι α : Type} [Length α] [Icon ι α] (l : Layout α) (d : Diagram ι) (setting : Instruction) :
    (l.placements (d.instruct setting) : List (Placed (Shape ι α))) = l.placements d := rfl

theorem picture_instruct {ι α : Type} [Length α] [Icon ι α] (d : Diagram ι) (setting : Instruction) (config : Config α)
    (font : Font α) : (d.instruct setting).picture config font = d.picture config font := by
  have hrow : (d.instruct setting).lastRow = d.lastRow := rfl
  have hcol : (d.instruct setting).lastCol = d.lastCol := rfl
  unfold picture graphic
  dsimp only
  rw [hrow, hcol, placements_instruct]

theorem svg_instruct [ColumnWidths] {ι : Type} [Icon ι Float] (d : Diagram ι) (setting : Instruction)
    (config : Config Float) :
    (d.instruct setting).svg config = d.svg config := by
  unfold svg
  rw [picture_instruct]

end Diagram

namespace Style

theorem mem_all_of_ofName? {name : String} {s : Style} (h : ofName? name = some s) : s ∈ all := by
  unfold ofName? at h
  dsimp only at h
  repeat' split at h
  all_goals first | (obtain rfl := Option.some.inj h; decide) | contradiction

theorem mem_all_getD (name : String) : (ofName? name).getD .standard ∈ all := by
  cases hfound : ofName? name with
  | none => exact List.mem_cons_self
  | some s => exact mem_all_of_ofName? hfound

theorem name_getD (name : String) :
    ((ofName? name).map (·.name)).getD "default" = ((ofName? name).getD .standard).name := by
  cases ofName? name <;> rfl

def request (name : String) : Instruction := ⟨"style", name⟩

theorem writable_request {s : Style} (h : s ∈ all) : (request s.name).Writable := by
  revert s
  decide

theorem write_request {s : Style} (h : s ∈ all) :
    (Statement.leaf (.instruction (request s.name))).write = "#!style ".toList ++ s.name.toList := by
  revert s
  decide

end Style

namespace Config

variable {α : Type} [Length α]

theorem instruct_request (c : Config α) {name : String} {s : Style} (h : Style.ofName? name = some s) :
    c.instruct (Style.request name) = { c with style := s } := by
  have hword : Text.foldCase "style" = "style" := by decide
  unfold instruct Style.request
  simp only [hword, if_true, h]

end Config

theorem Diagram.svg_request [ColumnWidths] {ι : Type} [Icon ι Float] (d : Diagram ι) {name : String} {s : Style}
    (h : Style.ofName? name = some s) :
    (d.instruct (Style.request name)).svg (d.instruct (Style.request name)).ownConfig =
      d.svg { d.ownConfig with style := s } := by
  rw [svg_instruct, ownConfig_instruct, Config.instruct_request _ h]

namespace Script

variable [ColumnWidths]

theorem map_svg_request (outcome : Except LoadError (Diagram BuiltinIcon)) {name : String} {s : Style}
    (h : Style.ofName? name = some s) :
    ((outcome.map (·.instruct (Style.request name))).map fun d => d.svg d.ownConfig) =
      outcome.map fun d => d.svg { d.ownConfig with style := s } := by
  rw [map_map]
  exact congrArg (Except.map · outcome) (funext fun d => d.svg_request h)

theorem renderStyled_eq_render_append (text styleName ending : String)
    (hending : ending.toList = [] ∨ ending.toList = ['\n']) :
    renderStyled text styleName =
      render (text ++ "\n#!style " ++ ((Style.ofName? styleName).map (·.name)).getD "default" ++ ending) := by
  have hmem := Style.mem_all_getD styleName
  have hline : text ++ "\n#!style " ++ ((Style.ofName? styleName).getD .standard).name ++ ending =
      text ++ "\n" ++ String.ofList ((Statement.leaf (.instruction
        (Style.request ((Style.ofName? styleName).getD .standard).name))).write ++ ending.toList) := by
    rw [Style.write_request hmem, ← String.toList_inj]
    simp
  rw [Style.name_getD, hline]
  unfold renderStyled render
  rw [Diagram.load_append_setting (Style.writable_request hmem) hending,
    map_svg_request _ (Style.ofName?_name _ hmem)]

/-- A script rendered in a style is the script rendered with one more line, which asks for the style by its own
name, or for the standard style if there is none of that name. Whatever the script asks for itself, and whatever
is wrong with it, is the same in both; a line feed at the end changes nothing. -/
theorem renderStyled_eq_render (text styleName : String) :
    renderStyled text styleName =
        render (text ++ "\n#!style " ++ ((Style.ofName? styleName).map (·.name)).getD "default") ∧
      renderStyled text styleName =
        render (text ++ "\n#!style " ++ ((Style.ofName? styleName).map (·.name)).getD "default" ++ "\n") := by
  have hnone := renderStyled_eq_render_append text styleName "" (.inl rfl)
  rw [String.append_empty] at hnone
  exact ⟨hnone, renderStyled_eq_render_append text styleName "\n" (.inr rfl)⟩

end Script

end SequenceChart

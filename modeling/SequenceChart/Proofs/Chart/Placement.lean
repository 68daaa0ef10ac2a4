import SequenceChart.Chart.Document
import SequenceChart.Proofs.Diagram.Acceptance
import SequenceChart.Proofs.Script.Reading
import SequenceChart.Proofs.Script.RoundTrip

/-! Where settings stand. They come first in what a script is read as, whatever blocks they stand in, so a script
without them is read as the rest, and their lines may be put anywhere else as long as they keep their order. -/

namespace SequenceChart

namespace Statement

def said? (line : List Char) : Option Statement :=
  match ofLine line with
  | .ok said => said
  | .error _ => none

theorem said?_of_trim_eq {line other : List Char} (h : Text.trim line = Text.trim other) : said? line = said? other := by
  unfold said?
  rw [ofLine_eq_of_trim_eq h]

theorem isSetting_of_said? {line : List Char} {s : Statement} (h : said? line = some s) :
    s.isSetting = isSettingLine line := by
  unfold said? at h
  split at h
  · rename_i said hsaid
    rw [isSettingLine_of_ofLine hsaid, h, Option.any_some]
  · contradiction

end Statement

namespace Script

def settingAt? (row : List Char × Nat) : Option Node :=
  match Text.trim row.1 with
  | '#' :: '!' :: rest => (Statement.instruction rest).toOption.map (.leaf row.2)
  | _ => none

def settings (text : String) : List Node := ((Text.rows text.toList).zipIdx 1).filterMap settingAt?

/-- A row whose setting is blanked out, or another row as it stands. -/
inductive Blanked : List Char → List Char → Prop
  | setting {row blank : List Char} : Statement.isSettingLine row = true → Text.trim blank = [] → Blanked row blank
  | other {row : List Char} : Statement.isSettingLine row = false → Blanked row row

theorem blanked_iff {row other : List Char} :
    Blanked row other ↔ Statement.isSettingLine row = true ∧ Text.trim other = [] ∨
      Statement.isSettingLine row = false ∧ row = other := by
  constructor
  · rintro (⟨hsetting, hblank⟩ | hother)
    · exact .inl ⟨hsetting, hblank⟩
    · exact .inr ⟨hother, rfl⟩
  · rintro (⟨hsetting, hblank⟩ | ⟨hother, rfl⟩)
    · exact .setting hsetting hblank
    · exact .other hother

instance (row other : List Char) : Decidable (Blanked row other) := decidable_of_iff _ blanked_iff.symm

/-- Two scripts with the same settings in the same order and with the same other lines in the same order. How the
settings lie among the other lines is up to each script. -/
def Moved (text other : String) : Prop :=
  ∀ kind, ((Text.lines other.toList).filter (Statement.isSettingLine · == kind)).map Text.trim =
    ((Text.lines text.toList).filter (Statement.isSettingLine · == kind)).map Text.trim

instance (text other : String) : Decidable (Moved text other) :=
  inferInstanceAs (Decidable (∀ _ : Bool, _ = _))

theorem settingAt?_of_trim {row rest : List Char} (h : Text.trim row = '#' :: '!' :: rest) (line : Nat) :
    settingAt? (row, line) = (Statement.instruction rest).toOption.map (.leaf line) := by
  unfold settingAt?
  rw [h]
  rfl

theorem settingAt?_of_setting {row : List Char} {setting : Instruction}
    (h : Statement.ofLine row = .ok (some (.leaf (.instruction setting)))) (line : Nat) :
    settingAt? (row, line) = some (.leaf line (.instruction setting)) := by
  obtain ⟨rest, hrest⟩ := Statement.exists_of_isSettingLine (Statement.isSettingLine_of_ofLine h)
  rw [Statement.ofLine_setting hrest] at h
  obtain ⟨content, hcontent, h⟩ := map_eq_ok.mp h
  obtain rfl := Statement.leaf.inj (Option.some.inj h)
  rw [settingAt?_of_trim hrest, hcontent]
  rfl

theorem settingAt?_of_isSettingLine {row : List Char} (h : Statement.isSettingLine row = false) (line : Nat) :
    settingAt? (row, line) = none := by
  unfold settingAt?
  split
  · rename_i hmark
    unfold Statement.isSettingLine at h
    rw [hmark] at h
    contradiction
  · rfl

theorem settingNodes_numbered {rows : List (List Char)} (readable : ∀ row ∈ rows, (Statement.ofLine row).isOk)
    (line : Nat) : Assembly.settingNodes (numbered line rows) = (rows.zipIdx line).filterMap settingAt? := by
  induction rows generalizing line with
  | nil => rfl
  | cons row later ih =>
    obtain ⟨hrow, hlater⟩ := List.forall_mem_cons.mp readable
    obtain ⟨said, hsaid⟩ := isOk_iff.mp hrow
    have hline := Statement.isSettingLine_of_ofLine hsaid
    rw [numbered, hsaid, List.zipIdx_cons]
    cases said with
    | none => rw [List.filterMap_cons_none (settingAt?_of_isSettingLine hline line), ih hlater]
    | some s =>
      rw [Option.any_some] at hline
      cases hs : s.isSetting with
      | false =>
        rw [Assembly.settingNodes_cons line hs, ih hlater,
          List.filterMap_cons_none (settingAt?_of_isSettingLine (hline.trans hs) line)]
      | true =>
        obtain ⟨setting, rfl⟩ := Assembly.exists_setting hs
        rw [List.filterMap_cons_some (settingAt?_of_setting hsaid line), ← ih hlater]
        rfl

theorem numbered_cons (line : Nat) (row : List Char) (later : List (List Char)) :
    numbered line (row :: later) =
      (Statement.said? row).toList.map ((line, ·)) ++ numbered (line + 1) later := by
  rw [numbered]
  unfold Statement.said?
  cases Statement.ofLine row with
  | error fault => rfl
  | ok said => cases said <;> rfl

theorem said?_blanked {row other : List Char} (h : Blanked row other) :
    (Statement.said? other).toList = (Statement.said? row).toList.filter (!·.isSetting) := by
  cases h with
  | setting hsetting hblank =>
    have hother : Statement.said? other = none := by
      unfold Statement.said?
      rw [Statement.ofLine_of_trim_eq_nil hblank]
    rw [hother, Option.toList_none, eq_comm, List.filter_eq_nil_iff]
    intro s hs
    rw [Statement.isSetting_of_said? (Option.mem_toList.mp hs), hsetting]
    exact Bool.false_ne_true
  | other hother =>
    rw [eq_comm, List.filter_eq_self]
    intro s hs
    rw [Statement.isSetting_of_said? (Option.mem_toList.mp hs), hother]
    rfl

theorem numbered_blanked {rows others : List (List Char)} (h : List.Forall₂ Blanked rows others) (line : Nat) :
    numbered line others = (numbered line rows).filter (!·.2.isSetting) := by
  induction h generalizing line with
  | nil => rfl
  | cons hrow _ ih =>
    rw [numbered_cons, numbered_cons, List.filter_append, ih, said?_blanked hrow, List.filter_map]
    rfl

theorem readable_blanked {rows others : List (List Char)} (h : List.Forall₂ Blanked rows others)
    (readable : ∀ row ∈ rows, (Statement.ofLine row).isOk) : ∀ row ∈ others, (Statement.ofLine row).isOk := by
  induction h with
  | nil => exact nofun
  | @cons row other rows others hrow _ ih =>
    obtain ⟨hread, hlater⟩ := List.forall_mem_cons.mp readable
    refine List.forall_mem_cons.mpr ⟨?_, ih hlater⟩
    cases hrow with
    | setting _ hblank => exact isOk_iff.mpr ⟨none, Statement.ofLine_of_trim_eq_nil hblank⟩
    | other _ => exact hread

/-- What a script is read as without its settings is what follows them otherwise. -/
theorem parse_blanked {text : String} {nodes : List Node} (h : parse text = .ok nodes) {blanked : String}
    (hblanked : List.Forall₂ Blanked (Text.rows text.toList) (Text.rows blanked.toList)) :
    ∃ rest, parse blanked = .ok rest ∧ nodes = settings text ++ rest := by
  rw [parse_eq_parseLines_rows] at h
  obtain ⟨_, hread, _⟩ := bind_eq_ok.mp h
  have readable := readable_of_readLines hread
  obtain ⟨a, hrun, hopened, rfl⟩ := (parseLines_eq_ok readable).mp h
  have hkept := List.filter_eq_self.mpr fun s hs =>
    (Bool.not_eq_true' _).mpr (isSetting_filter (numbered 1 (Text.rows text.toList)) s hs)
  refine ⟨a.nodes, ?_, ?_⟩
  · rw [parse_eq_parseLines_rows, parseLines_eq_ok (readable_blanked hblanked readable), numbered_blanked hblanked,
      hkept, Assembly.settingNodes_eq_nil (isSetting_filter _)]
    exact ⟨a, hrun, hopened, rfl⟩
  · rw [settingNodes_numbered readable, settings]

theorem snd_numbered_eq_filterMap (line : Nat) (rows : List (List Char)) :
    (numbered line rows).map Prod.snd = rows.filterMap Statement.said? := by
  induction rows generalizing line with
  | nil => rfl
  | cons row later ih =>
    rw [numbered_cons, List.map_append, ih, List.filterMap_cons]
    cases Statement.said? row <;> rfl

theorem filter_filterMap_said? (kind : Bool) (lines : List (List Char)) :
    (lines.filterMap Statement.said?).filter (·.isSetting == kind) =
      (lines.filter (Statement.isSettingLine · == kind)).filterMap Statement.said? := by
  induction lines with
  | nil => rfl
  | cons line later ih =>
    cases hsaid : Statement.said? line with
    | none =>
      rw [List.filterMap_cons_none hsaid, ih, List.filter_cons]
      split
      · rw [List.filterMap_cons_none hsaid]
      · rfl
    | some s =>
      rw [List.filterMap_cons_some hsaid, List.filter_cons, List.filter_cons, Statement.isSetting_of_said? hsaid, ih]
      split
      · rw [List.filterMap_cons_some hsaid]
      · rfl

theorem filterMap_said?_of_trim {lines others : List (List Char)} (h : lines.map Text.trim = others.map Text.trim) :
    lines.filterMap Statement.said? = others.filterMap Statement.said? := by
  induction lines generalizing others with
  | nil => rw [List.map_eq_nil_iff.mp h.symm]
  | cons line later ih =>
    obtain ⟨other, rest, rfl, hother, hrest⟩ := List.map_eq_cons_iff.mp h.symm
    rw [List.filterMap_cons, List.filterMap_cons, Statement.said?_of_trim_eq hother, ih hrest.symm]

theorem filterMap_settingNode? (statements : List Statement) :
    (statements.filter (·.isSetting == true)).filterMap settingNode? = statements.filterMap settingNode? := by
  rw [List.filterMap_filter]
  refine List.filterMap_congr fun s _ => ?_
  cases s with
  | leaf content => cases content <;> rfl
  | _ => rfl

namespace Moved

variable {text other : String}

theorem said (h : Moved text other) (kind : Bool) :
    ((Text.lines other.toList).filterMap Statement.said?).filter (·.isSetting == kind) =
      ((Text.lines text.toList).filterMap Statement.said?).filter (·.isSetting == kind) := by
  rw [filter_filterMap_said?, filter_filterMap_said?]
  exact filterMap_said?_of_trim (h kind)

theorem readable (h : Moved text other) (readable : ∀ line ∈ Text.lines text.toList, (Statement.ofLine line).isOk) :
    ∀ line ∈ Text.lines other.toList, (Statement.ofLine line).isOk := by
  intro line hline
  have hkind : line ∈ (Text.lines other.toList).filter (Statement.isSettingLine · == Statement.isSettingLine line) :=
    List.mem_filter.mpr ⟨hline, BEq.rfl⟩
  have htrim := List.mem_map_of_mem (f := Text.trim) hkind
  rw [h] at htrim
  obtain ⟨found, hfound, hsame⟩ := List.mem_map.mp htrim
  rw [← Statement.ofLine_eq_of_trim_eq hsame]
  exact readable found (List.mem_filter.mp hfound).1

theorem snd_blockStatements (h : Moved text other) :
    (blockStatements other).map Prod.snd = (blockStatements text).map Prod.snd := by
  have hsaid : ∀ script : String, (blockStatements script).map Prod.snd =
      ((Text.lines script.toList).filterMap Statement.said?).filter (·.isSetting == false) := by
    intro script
    rw [← snd_numbered_eq_filterMap 1, List.filter_map]
    simp only [blockStatements, Function.comp_def, beq_false]
  rw [hsaid, hsaid, h.said]

theorem unnumbered_settingNodes (h : Moved text other) :
    (Assembly.settingNodes (numbered 1 (Text.lines other.toList))).map Node.unnumbered =
      (Assembly.settingNodes (numbered 1 (Text.lines text.toList))).map Node.unnumbered := by
  rw [Script.unnumbered_settingNodes, Script.unnumbered_settingNodes, snd_numbered_eq_filterMap,
    snd_numbered_eq_filterMap, ← filterMap_settingNode?, h.said, filterMap_settingNode?]

end Moved

theorem parse_of_moved {text other : String} (hmoved : Moved text other) {nodes : List Node}
    (h : parse text = .ok nodes) :
    ∃ found, parse other = .ok found ∧ found.map Node.unnumbered = nodes.map Node.unnumbered := by
  obtain ⟨_, hread, _⟩ := bind_eq_ok.mp h
  have readable := readable_of_readLines hread
  obtain ⟨a, hrun, hopened, rfl⟩ := (parse_eq_ok readable).mp h
  obtain ⟨hshaped, houtline⟩ := shaped_of_run hrun hopened
  have hstatements : (blockStatements other).map Prod.snd = Node.statements a.nodes := by
    rw [hmoved.snd_blockStatements, Node.statements, houtline, List.map_map]
    simp only [Function.comp_def, Statement.snd_mark]
  obtain ⟨found, hfound, hsame⟩ := Assembly.replays_of_shaped hshaped .empty _ hstatements
  rw [Assembly.empty, Assembly.pushAll_closed, List.nil_append] at hfound
  refine ⟨_, (parse_eq_ok (hmoved.readable readable)).mpr ⟨_, hfound, rfl, rfl⟩, ?_⟩
  rw [List.map_append, List.map_append, hsame, hmoved.unnumbered_settingNodes]

end Script

namespace Diagram

theorem load_of_parse {text : String} {nodes : List Node} (h : Script.parse text = .ok nodes) :
    load text = (ofNodes nodes).mapError .build := by
  unfold load
  rw [h]

theorem load_eq_ok_iff_of_moved {text other : String} (hmoved : Script.Moved text other) {nodes : List Node}
    (h : Script.parse text = .ok nodes) (d : Diagram BuiltinIcon) : load text = .ok d ↔ load other = .ok d := by
  obtain ⟨found, hfound, hsame⟩ := Script.parse_of_moved hmoved h
  rw [load_of_parse h, load_of_parse hfound, mapError_eq_ok, mapError_eq_ok]
  exact ⟨(Builder.Covers.refl _).build hsame.symm, (Builder.Covers.refl _).build hsame⟩

end Diagram

namespace Script

/-- Where settings stand does not matter. A script is read as its settings, and behind them what it is read as when
their lines are blanked out. With its settings moved elsewhere among its lines it is read as the same nodes, but for
their lines, and so it has the same diagram and the same document. -/
theorem settings_anywhere [ColumnWidths] {text : String} {nodes : List Node} (h : parse text = .ok nodes) :
    (∀ blanked : String, List.Forall₂ Blanked (Text.rows text.toList) (Text.rows blanked.toList) →
      ∃ rest, parse blanked = .ok rest ∧ nodes = settings text ++ rest) ∧
    ∀ moved : String, Moved text moved →
      (∃ found, parse moved = .ok found ∧ found.map Node.unnumbered = nodes.map Node.unnumbered) ∧
        (∀ d, Diagram.load text = .ok d ↔ Diagram.load moved = .ok d) ∧
        ∀ document, render text = .ok document ↔ render moved = .ok document := by
  refine ⟨fun blanked hblanked => parse_blanked h hblanked, fun moved hmoved => ?_⟩
  have hload := Diagram.load_eq_ok_iff_of_moved hmoved h
  refine ⟨parse_of_moved hmoved h, hload, fun document => ?_⟩
  unfold render
  simp only [map_eq_ok, hload]

def scatteredSample : String :=
  "a->b: hi\n#!style rose\nalt: x\n  #! margin 5\r\nb->a\nelse\n#!style warm\nend"

def blankedSample : String := "a->b: hi\n\nalt: x\n  \r\nb->a\nelse\n\nend"

def gatheredSample : String :=
  "#!style rose\na->b: hi\nalt: x\nb->a\n#! margin 5\nelse\nend\n#!style warm\n"

theorem settings_anywhere_scatteredSample :
    ∃ nodes, parse scatteredSample = .ok nodes ∧
      List.Forall₂ Blanked (Text.rows scatteredSample.toList) (Text.rows blankedSample.toList) ∧
      (∃ rest, parse blankedSample = .ok rest ∧ nodes = settings scatteredSample ++ rest) ∧
      Moved scatteredSample gatheredSample ∧
      (∃ found, parse gatheredSample = .ok found ∧ found.map Node.unnumbered = nodes.map Node.unnumbered) ∧
      (∀ d, Diagram.load scatteredSample = .ok d ↔ Diagram.load gatheredSample = .ok d) ∧
      ∀ document, @render .ascii scatteredSample = .ok document ↔ @render .ascii gatheredSample = .ok document := by
  have hok : (parse scatteredSample).isOk := by decide +kernel
  have hblanked : List.Forall₂ Blanked (Text.rows scatteredSample.toList) (Text.rows blankedSample.toList) := by
    decide +kernel
  have hmoved : Moved scatteredSample gatheredSample := by decide +kernel
  obtain ⟨nodes, hnodes⟩ := isOk_iff.mp hok
  obtain ⟨hrest, hplaced⟩ := @settings_anywhere .ascii _ _ hnodes
  obtain ⟨hparse, hload, hrender⟩ := hplaced gatheredSample hmoved
  exact ⟨nodes, hnodes, hblanked, hrest blankedSample hblanked, hmoved, hparse, hload, hrender⟩

end Script

end SequenceChart

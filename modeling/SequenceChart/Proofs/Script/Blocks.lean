import SequenceChart.Proofs.Script.Replay
import SequenceChart.Proofs.Script.Settings
import SequenceChart.Script.Parser

/-! Scripts are read exactly as the grammar of blocks says: those whose statements are a word of it have
nodes, and the nodes are the tree of that word. -/

namespace SequenceChart

/-- What a line of tokens can say, blocks aside: settings are written otherwise, and a note names one or two
actors. -/
structure Leaf.Spoken (content : Leaf) : Prop where
  setting : content.isSetting = false
  counted : ∀ {actors alignment message}, content = .note actors alignment message → actors.length ∈ [1, 2]

namespace Statement

def Read (s : Statement) : Prop := s.Worded ∧ ∀ {content}, s = .leaf content → content.Spoken

theorem read_leaf {content : Leaf} (h : content.Spoken) : (Statement.leaf content).Read :=
  ⟨.leaf h.setting, fun hcontent => Statement.leaf.inj hcontent ▸ h⟩

theorem read_of_reader {reader : Except ScriptFault (Leaf × List Token)} {s : Statement} {rest : List Token}
    (hreader : ∀ content rest, reader = .ok (content, rest) → content.Spoken)
    (h : (do let (content, rest) ← reader; .ok (.leaf content, rest)) = Except.ok (s, rest)) : s.Read := by
  obtain ⟨⟨content, rest⟩, hread, h⟩ := bind_eq_ok.mp h
  obtain ⟨rfl, _⟩ := Prod.mk.inj (Except.ok.inj h)
  exact read_leaf (hreader content rest hread)

theorem spoken_participant {tokens rest : List Token} {content : Leaf}
    (h : participant tokens = .ok (content, rest)) : content.Spoken := by
  unfold participant at h
  split at h
  · obtain ⟨_, _, h⟩ := bind_eq_ok.mp h
    obtain ⟨rfl, _⟩ := Prod.mk.inj (Except.ok.inj h)
    exact ⟨rfl, nofun⟩
  · contradiction

theorem length_secondActor {tokens rest : List Token} {others : List ActorRef}
    (h : secondActor tokens = .ok (others, rest)) : others.length ≤ 1 := by
  unfold secondActor at h
  split at h
  · obtain ⟨_, _, h⟩ := bind_eq_ok.mp h
    obtain ⟨rfl, _⟩ := Prod.mk.inj (Except.ok.inj h)
    exact Nat.le_refl 1
  · obtain ⟨rfl, _⟩ := Prod.mk.inj (Except.ok.inj h)
    exact Nat.zero_le 1

theorem length_noteSide {tokens rest : List Token} {alignment : Alignment} {actors : List ActorRef}
    (h : noteSide tokens = .ok ((alignment, actors), rest)) : actors.length ∈ [1, 2] := by
  unfold noteSide at h
  split at h
  · obtain ⟨_, _, h⟩ := bind_eq_ok.mp h
    obtain ⟨_, _, h⟩ := bind_eq_ok.mp h
    cases h
    exact List.mem_cons_self
  · obtain ⟨_, _, h⟩ := bind_eq_ok.mp h
    obtain ⟨_, _, h⟩ := bind_eq_ok.mp h
    cases h
    exact List.mem_cons_self
  · obtain ⟨_, _, h⟩ := bind_eq_ok.mp h
    obtain ⟨⟨others, _⟩, hsecond, h⟩ := bind_eq_ok.mp h
    cases h
    have hothers := length_secondActor hsecond
    simp only [List.length_cons, List.mem_cons, List.not_mem_nil, or_false]
    omega
  · contradiction

theorem spoken_note {tokens rest : List Token} {content : Leaf}
    (h : note tokens = .ok (content, rest)) : content.Spoken := by
  obtain ⟨_, hside, h⟩ := bind_eq_ok.mp h
  obtain ⟨_, _, h⟩ := bind_eq_ok.mp h
  obtain ⟨rfl, _⟩ := Prod.mk.inj (Except.ok.inj h)
  refine ⟨rfl, ?_⟩
  rintro _ _ _ ⟨⟩
  exact length_noteSide hside

theorem spoken_action {tokens rest : List Token} {content : Leaf}
    (h : action tokens = .ok (content, rest)) : content.Spoken := by
  obtain ⟨_, _, h⟩ := bind_eq_ok.mp h
  obtain ⟨_, _, h⟩ := bind_eq_ok.mp h
  obtain ⟨_, _, h⟩ := bind_eq_ok.mp h
  obtain ⟨_, _, h⟩ := bind_eq_ok.mp h
  obtain ⟨rfl, _⟩ := Prod.mk.inj (Except.ok.inj h)
  exact ⟨rfl, nofun⟩

theorem spoken_horizontal (tokens : List Token) : (horizontal tokens).1.Spoken := by
  fun_cases horizontal tokens <;> exact ⟨rfl, nofun⟩

theorem read_start {tokens rest : List Token} {s : Statement} (h : start tokens = .ok (s, rest)) : s.Read := by
  unfold start at h
  split at h
  · contradiction
  · obtain ⟨⟨text, _⟩, _, h⟩ := bind_eq_ok.mp h
    obtain ⟨rfl, _⟩ := Prod.mk.inj (Except.ok.inj h)
    exact read_leaf ⟨rfl, nofun⟩
  · exact read_of_reader (fun _ _ => spoken_participant) h
  · exact read_of_reader (fun _ _ => spoken_note) h
  · obtain ⟨rfl, _⟩ := Prod.mk.inj (Except.ok.inj h)
    exact read_leaf (spoken_horizontal _)
  · obtain ⟨rfl, _⟩ := Prod.mk.inj (Except.ok.inj h)
    exact ⟨.alt _, nofun⟩
  · obtain ⟨rfl, _⟩ := Prod.mk.inj (Except.ok.inj h)
    exact ⟨.loop _, nofun⟩
  · obtain ⟨rfl, _⟩ := Prod.mk.inj (Except.ok.inj h)
    exact ⟨.elseAlt _, nofun⟩
  · obtain ⟨rfl, _⟩ := Prod.mk.inj (Except.ok.inj h)
    exact ⟨.otherwise _, nofun⟩
  · obtain ⟨rfl, _⟩ := Prod.mk.inj (Except.ok.inj h)
    exact ⟨.close, nofun⟩
  · exact read_of_reader (fun _ _ => spoken_action) h
  · exact read_of_reader (fun _ _ => spoken_action) h
  · split at h
    · obtain ⟨rfl, _⟩ := Prod.mk.inj (Except.ok.inj h)
      exact read_leaf ⟨rfl, nofun⟩
    · contradiction

theorem read_ofTokens {tokens : List Token} {s : Statement} (h : ofTokens tokens = .ok s) : s.Read := by
  obtain ⟨⟨_, rest⟩, hstart, h⟩ := bind_eq_ok.mp h
  cases rest with
  | nil =>
    obtain rfl := Except.ok.inj h
    exact read_start hstart
  | cons token rest => contradiction

theorem isSetting_instruction {text : List Char} {content : Leaf} (h : instruction text = .ok content) :
    content.isSetting = true := by
  unfold instruction at h
  dsimp only at h
  split at h
  · contradiction
  · obtain rfl := Except.ok.inj h
    rfl

theorem read_ofLine {text : List Char} {s : Statement} (h : ofLine text = .ok (some s)) :
    s.isSetting = true ∨ s.Read := by
  unfold ofLine at h
  split at h
  · obtain ⟨content, hcontent, h⟩ := map_eq_ok.mp h
    obtain rfl := Option.some.inj h
    exact .inl (isSetting_instruction hcontent)
  · split at h
    · contradiction
    · cases h
    · obtain ⟨_, hread, h⟩ := map_eq_ok.mp h
      obtain rfl := Option.some.inj h
      exact .inr (read_ofTokens hread)

def isSettingLine (line : List Char) : Bool :=
  match Text.trim line with
  | '#' :: '!' :: _ => true
  | _ => false

def ofScan : Except LexError (List Token) → Except ScriptFault (Option Statement)
  | .error fault => .error (.lex fault)
  | .ok [] => .ok none
  | .ok (token :: tokens) => (ofTokens (token :: tokens)).map some

theorem exists_of_isSettingLine {line : List Char} (h : isSettingLine line = true) :
    ∃ rest, Text.trim line = '#' :: '!' :: rest := by
  unfold isSettingLine at h
  split at h
  · exact ⟨_, ‹_›⟩
  · contradiction

theorem ofLine_setting {line rest : List Char} (h : Text.trim line = '#' :: '!' :: rest) :
    ofLine line = (instruction rest).map fun content => some (.leaf content) := by
  unfold ofLine
  rw [h]
  rfl

theorem ofLine_scan {line : List Char} (h : isSettingLine line = false) :
    ofLine line = ofScan (Token.tokenize (Text.trim line)) := by
  unfold isSettingLine at h
  unfold ofLine ofScan
  split
  · rename_i hmark
    rw [hmark] at h
    contradiction
  · split <;> simp only [*]

theorem isSettingLine_of_ofLine {line : List Char} {said : Option Statement} (h : ofLine line = .ok said) :
    isSettingLine line = said.any isSetting := by
  cases hline : isSettingLine line with
  | true =>
    obtain ⟨rest, hrest⟩ := exists_of_isSettingLine hline
    rw [ofLine_setting hrest] at h
    obtain ⟨content, hcontent, rfl⟩ := map_eq_ok.mp h
    exact (isSetting_instruction hcontent).symm
  | false =>
    rw [ofLine_scan hline] at h
    unfold ofScan at h
    split at h
    · contradiction
    · obtain rfl := Except.ok.inj h
      rfl
    · obtain ⟨s, hread, rfl⟩ := map_eq_ok.mp h
      exact (isSetting_of_worded (read_ofTokens hread).1).symm

end Statement

namespace Script

def numbered (line : Nat) : List (List Char) → List (Nat × Statement)
  | [] => []
  | text :: later =>
    match Statement.ofLine text with
    | .ok (some s) => (line, s) :: numbered (line + 1) later
    | _ => numbered (line + 1) later

/-- The statements of a script with their lines, settings left out. -/
def blockStatements (text : String) : List (Nat × Statement) :=
  (numbered 1 (Text.lines text.toList)).filter (!·.2.isSetting)

theorem mem_numbered {line number : Nat} {s : Statement} {lines : List (List Char)} :
    (number, s) ∈ numbered line lines ↔
      ∃ i text, number = line + i ∧ lines[i]? = some text ∧ Statement.ofLine text = .ok (some s) := by
  induction lines generalizing line with
  | nil => simp [numbered]
  | cons text later ih =>
    have hlater : (number, s) ∈ numbered (line + 1) later ↔
        ∃ i row, number = line + (i + 1) ∧ later[i]? = some row ∧ Statement.ofLine row = .ok (some s) := by
      rw [ih]
      simp only [Nat.add_assoc, Nat.add_comm 1]
    have hfirst : (number, s) ∈ numbered line (text :: later) ↔
        (number = line ∧ Statement.ofLine text = .ok (some s)) ∨ (number, s) ∈ numbered (line + 1) later := by
      rw [numbered]
      split
      · rename_i found hfound
        rw [List.mem_cons, Prod.mk.injEq, hfound, Except.ok.injEq, Option.some.injEq, eq_comm (a := s)]
      · rename_i hnone
        exact (or_iff_right fun hsaid => hnone _ hsaid.2).symm
    rw [hfirst, hlater]
    constructor
    · rintro (⟨rfl, hsaid⟩ | ⟨i, row, hrow⟩)
      · exact ⟨0, text, rfl, rfl, hsaid⟩
      · exact ⟨i + 1, row, hrow⟩
    · rintro ⟨_ | i, row, hnumber, hrow, hsaid⟩
      · exact .inl ⟨hnumber, Option.some.inj hrow ▸ hsaid⟩
      · exact .inr ⟨i, row, hnumber, hrow, hsaid⟩

theorem ascending_numbered (line : Nat) (lines : List (List Char)) :
    ((numbered line lines).map Prod.fst).Pairwise (· < ·) := by
  induction lines generalizing line with
  | nil => exact .nil
  | cons text later ih =>
    unfold numbered
    split
    · refine List.pairwise_cons.mpr ⟨fun number hnumber => ?_, ih (line + 1)⟩
      obtain ⟨⟨_, s⟩, hs, rfl⟩ := List.mem_map.mp hnumber
      obtain ⟨i, _, hplace, _⟩ := mem_numbered.mp hs
      dsimp only at hplace ⊢
      omega
    · exact ih (line + 1)

/-- Whether statements are those of a script, settings left out. Each line with tokens says the statement that its
tokens are, under its number, and nothing else is said. -/
structure Listed (text : String) (statements : List (Nat × Statement)) : Prop where
  said : ∀ {i : Nat} {line : List Char} {tokens : List Token}, (Text.lines text.toList)[i]? = some line →
    Statement.isSettingLine line = false → Token.tokenize (Text.trim line) = .ok tokens → tokens ≠ [] →
      ∃ s, Statement.ofTokens tokens = .ok s ∧ (i + 1, s) ∈ statements
  only : ∀ {number : Nat} {s : Statement}, (number, s) ∈ statements →
    ∃ i line tokens, number = i + 1 ∧ (Text.lines text.toList)[i]? = some line ∧
      Statement.isSettingLine line = false ∧ Token.tokenize (Text.trim line) = .ok tokens ∧
        Statement.ofTokens tokens = .ok s
  ascending : (statements.map Prod.fst).Pairwise (· < ·)

theorem listed_blockStatements {text : String}
    (readable : ∀ line ∈ Text.lines text.toList, (Statement.ofLine line).isOk) :
    Listed text (blockStatements text) where
  said {i line tokens} hline hsetting htokens hne := by
    obtain ⟨found, hfound⟩ := isOk_iff.mp (readable line (List.mem_of_getElem? hline))
    have hscan := Statement.ofLine_scan hsetting
    obtain ⟨token, rest, rfl⟩ := List.exists_cons_of_ne_nil hne
    rw [hfound, htokens, Statement.ofScan] at hscan
    obtain ⟨s, hread, rfl⟩ := map_eq_ok.mp hscan.symm
    refine ⟨s, hread, List.mem_filter.mpr ⟨mem_numbered.mpr ⟨i, line, Nat.add_comm i 1, hline, hfound⟩, ?_⟩⟩
    rw [Statement.isSetting_of_worded (Statement.read_ofTokens hread).1]
    rfl
  only {number s} hmem := by
    obtain ⟨hnumbered, hsetting⟩ := List.mem_filter.mp hmem
    obtain ⟨i, line, hnumber, hline, hsaid⟩ := mem_numbered.mp hnumbered
    have hline' : Statement.isSettingLine line = false :=
      (Statement.isSettingLine_of_ofLine hsaid).trans ((Bool.not_eq_true' _).mp hsetting)
    rw [Statement.ofLine_scan hline'] at hsaid
    unfold Statement.ofScan at hsaid
    split at hsaid
    · contradiction
    · exact absurd (Except.ok.inj hsaid) nofun
    · rename_i htokens
      obtain ⟨_, hread, hs⟩ := map_eq_ok.mp hsaid
      exact ⟨i, line, _, hnumber.trans (Nat.add_comm 1 i), hline, hline', htokens, Option.some.inj hs ▸ hread⟩
  ascending := (ascending_numbered 1 _).sublist (List.filter_sublist.map Prod.fst)

theorem worded_numbered (line : Nat) (lines : List (List Char)) :
    ∀ s ∈ numbered line lines, s.2.isSetting = true ∨ s.2.Worded := by
  induction lines generalizing line with
  | nil => exact nofun
  | cons text later ih =>
    unfold numbered
    split
    · exact List.forall_mem_cons.mpr ⟨(Statement.read_ofLine ‹_›).imp_right And.left, ih (line + 1)⟩
    · exact ih (line + 1)

theorem isSetting_filter (statements : List (Nat × Statement)) :
    ∀ s ∈ statements.filter (!·.2.isSetting), s.2.isSetting = false := by
  intro s hs
  exact Bool.not_eq_true' _ ▸ (List.mem_filter.mp hs).2

theorem worded_filter (line : Nat) (lines : List (List Char)) :
    ∀ s ∈ (numbered line lines).filter (!·.2.isSetting), s.2.Worded := by
  intro s hs
  cases worded_numbered line lines s (List.mem_filter.mp hs).1 with
  | inl h => exact absurd h (Bool.not_eq_true _ ▸ isSetting_filter _ s hs)
  | inr h => exact h

theorem worded_blockStatements (text : String) : ∀ s ∈ blockStatements text, s.2.Worded :=
  worded_filter 1 _

theorem readLines_eq_ok {lines : List (List Char)} (readable : ∀ line ∈ lines, (Statement.ofLine line).isOk)
    (a after : Assembly) (line : Nat) :
    readLines a line lines = .ok after ↔ a.run (numbered line lines) = .ok after := by
  induction lines generalizing a line with
  | nil => simp only [readLines, numbered, Assembly.run_nil, Except.ok.injEq]
  | cons text later ih =>
    have hall := List.forall_mem_cons.mp readable
    obtain ⟨found, hfound⟩ := isOk_iff.mp hall.1
    rw [readLines, bind_eq_ok, numbered]
    simp only [Assembly.readLine, hfound, mapError_eq_ok]
    cases found with
    | none =>
      constructor
      · rintro ⟨_, hread, hlater⟩
        obtain rfl := Except.ok.inj hread
        exact (ih hall.2 _ _).mp hlater
      · intro hrun
        exact ⟨a, rfl, (ih hall.2 _ _).mpr hrun⟩
    | some s =>
      rw [Assembly.run_cons, bind_eq_ok]
      constructor
      · rintro ⟨middle, hread, hlater⟩
        exact ⟨middle, hread, (ih hall.2 _ _).mp hlater⟩
      · rintro ⟨middle, hstep, hrun⟩
        exact ⟨middle, hstep, (ih hall.2 _ _).mpr hrun⟩

theorem readable_of_readLines {lines : List (List Char)} {a after : Assembly} {line : Nat}
    (h : readLines a line lines = .ok after) : ∀ text ∈ lines, (Statement.ofLine text).isOk := by
  induction lines generalizing a line with
  | nil => exact nofun
  | cons text later ih =>
    obtain ⟨middle, hread, hlater⟩ := bind_eq_ok.mp h
    obtain ⟨found, hfound, _⟩ := bind_eq_ok.mp (mapError_eq_ok.mp hread)
    exact List.forall_mem_cons.mpr ⟨isOk_iff.mpr ⟨found, hfound⟩, ih hlater⟩

/-- The nodes of lines that can be read: their settings, then what their other statements leave on an empty stack. -/
theorem parseLines_eq_ok {lines : List (List Char)} (readable : ∀ line ∈ lines, (Statement.ofLine line).isOk)
    {nodes : List Node} :
    parseLines lines = .ok nodes ↔
      ∃ a, Assembly.empty.run ((numbered 1 lines).filter (!·.2.isSetting)) = .ok a ∧ a.opened = [] ∧
        nodes = Assembly.settingNodes (numbered 1 lines) ++ a.nodes := by
  have hread : ∀ {a}, Assembly.empty.run ((numbered 1 lines).filter (!·.2.isSetting)) = .ok a → a.settings = [] :=
    Assembly.settings_run (isSetting_filter _)
  unfold parseLines
  simp only [bind_eq_ok, readLines_eq_ok readable, Assembly.run_filter _ (numbered _ _), map_eq_ok]
  constructor
  · rintro ⟨_, ⟨⟨settings, found, opened⟩, hrun, rfl⟩, hfinish⟩
    obtain rfl : settings = [] := hread hrun
    cases opened with
    | nil => exact ⟨_, hrun, rfl, (Except.ok.inj hfinish).symm⟩
    | cons b outer => contradiction
  · rintro ⟨⟨settings, found, opened⟩, hrun, hopened, rfl⟩
    obtain rfl : settings = [] := hread hrun
    obtain rfl : opened = [] := hopened
    exact ⟨_, ⟨_, hrun, rfl⟩, rfl⟩

theorem parse_eq_ok {text : String}
    (readable : ∀ line ∈ Text.lines text.toList, (Statement.ofLine line).isOk) {nodes : List Node} :
    parse text = .ok nodes ↔
      ∃ a, Assembly.empty.run (blockStatements text) = .ok a ∧ a.opened = [] ∧
        nodes = Assembly.settingNodes (numbered 1 (Text.lines text.toList)) ++ a.nodes :=
  parseLines_eq_ok readable

theorem isSetting_settingNodes (statements : List (Nat × Statement)) :
    ∀ node ∈ Assembly.settingNodes statements, node.isSetting = true := by
  intro node hnode
  obtain ⟨⟨line, s⟩, _, hs⟩ := List.mem_filterMap.mp hnode
  dsimp only at hs
  split at hs
  · obtain rfl := Option.some.inj hs
    rfl
  · contradiction

theorem isSetting_of_shaped {nodes : List Node} (h : Node.ShapedAll nodes) :
    ∀ node ∈ nodes, node.isSetting = false := by
  induction nodes with
  | nil => exact nofun
  | cons node later ih =>
    refine List.forall_mem_cons.mpr ⟨?_, ih h.2⟩
    cases node with
    | leaf line content => exact h.1
    | block line segments => rfl

theorem shaped_of_run {text : String} {a : Assembly} (h : Assembly.empty.run (blockStatements text) = .ok a)
    (hopened : a.opened = []) :
    Node.ShapedAll a.nodes ∧ Node.outlineAll a.nodes = (blockStatements text).map fun s => s.2.mark s.1 := by
  obtain ⟨hsound, houtline⟩ := Assembly.run_sound (worded_blockStatements text) Assembly.sound_empty h
  unfold Assembly.outline at houtline
  rw [hopened] at houtline
  exact ⟨hsound.nodes, (List.append_nil _).symm.trans houtline⟩

/-- A script whose lines can be read has nodes exactly if the statements of its lines are a word of the grammar.
Walking through the nodes then gives these statements back, each one once, with its line where nodes keep lines. -/
theorem parse_blocks (text : String)
    (readable : ∀ line ∈ Text.lines text.toList, (Statement.ofLine line).isOk) :
    Listed text (blockStatements text) ∧
    ((parse text).isOk ↔ Items ((blockStatements text).map Prod.snd)) ∧
      ∀ nodes, parse text = .ok nodes →
        Node.outlineAll (nodes.filter (!·.isSetting)) =
          (blockStatements text).map fun s => s.2.mark s.1 := by
  refine ⟨listed_blockStatements readable, ⟨?_, ?_⟩, ?_⟩
  · intro hok
    obtain ⟨nodes, hnodes⟩ := isOk_iff.mp hok
    obtain ⟨a, hrun, hopened, _⟩ := (parse_eq_ok readable).mp hnodes
    obtain ⟨hshaped, houtline⟩ := shaped_of_run hrun hopened
    have hitems := Node.items_statements hshaped
    unfold Node.statements at hitems
    rw [houtline, List.map_map] at hitems
    simpa only [Function.comp_def, Statement.snd_mark] using hitems
  · intro hitems
    obtain ⟨nodes, hshaped, hnodes⟩ := Node.exists_statements hitems
    obtain ⟨found, hrun, _⟩ := Assembly.replays_of_shaped hshaped .empty _ hnodes.symm
    rw [Assembly.empty, Assembly.pushAll_closed] at hrun
    exact isOk_iff.mpr ⟨_, (parse_eq_ok readable).mpr ⟨_, hrun, rfl, rfl⟩⟩
  · intro nodes hnodes
    obtain ⟨a, hrun, hopened, rfl⟩ := (parse_eq_ok readable).mp hnodes
    obtain ⟨hshaped, houtline⟩ := shaped_of_run hrun hopened
    rw [List.filter_append, List.filter_eq_nil_iff.mpr, List.filter_eq_self.mpr, List.nil_append, houtline]
    · intro node hnode
      rw [isSetting_of_shaped hshaped node hnode]
      rfl
    · intro node hnode
      rw [isSetting_settingNodes _ node hnode]
      exact Bool.false_ne_true

def nestedSample : String :=
  "#!style rose\nloop: forever\nalt: x\n#!margin 5\na->b: hi\nelsealt\n# again\nelse: y\nend\nb->a\nend\n"

theorem parse_blocks_nestedSample :
    (∀ line ∈ Text.lines nestedSample.toList, (Statement.ofLine line).isOk) ∧
      Listed nestedSample (blockStatements nestedSample) ∧ Items ((blockStatements nestedSample).map Prod.snd) ∧
      ∃ nodes, parse nestedSample = .ok nodes ∧
        Node.outlineAll (nodes.filter (!·.isSetting)) =
          (blockStatements nestedSample).map fun s => s.2.mark s.1 := by
  have readable : ∀ line ∈ Text.lines nestedSample.toList, (Statement.ofLine line).isOk := by
    decide +kernel
  have hok : (parse nestedSample).isOk := by decide +kernel
  obtain ⟨hlisted, hiff, hwalk⟩ := parse_blocks nestedSample readable
  obtain ⟨nodes, hnodes⟩ := isOk_iff.mp hok
  exact ⟨readable, hlisted, hiff.mp hok, nodes, hnodes, hwalk nodes hnodes⟩

end Script

end SequenceChart

import SequenceChart.Proofs.Script.Blocks
import SequenceChart.Proofs.Script.Sentences

/-! Every well-formed script can be written, and reading it gives its nodes back. -/

namespace SequenceChart

namespace Statement

def write : Statement → List Char
  | leaf (.instruction setting) =>
    ['#', '!'] ++ (setting.name.toList ++ Text.spaced setting.value.toList)
  | s => Token.writeAll s.tokens

theorem write_of_worded {s : Statement} (h : s.Worded) : s.write = Token.writeAll s.tokens := by
  cases h with
  | @leaf content hsetting =>
    cases content with
    | instruction => contradiction
    | _ => rfl
  | _ => rfl

theorem trimmed_setting {setting : Instruction} (h : setting.Writable) :
    Text.Trimmed (setting.name.toList ++ Text.spaced setting.value.toList) :=
  Text.trimmed_append_spaced (Text.trimmed_of_forall h.name) h.value (mt String.toList_eq_nil_iff.mp h.nonempty)

theorem instruction_setting {setting : Instruction} (h : setting.Writable) :
    instruction (setting.name.toList ++ Text.spaced setting.value.toList) = .ok (.instruction setting) := by
  have hname : ∀ c ∈ setting.name.toList, (!Text.isBlank c) = true := by
    intro c hc
    rw [h.name c hc]
    rfl
  have hspaced : ∀ c ∈ (Text.spaced setting.value.toList).head?, (!Text.isBlank c) = false := by
    intro c hc
    cases hvalue : setting.value.toList with
    | nil =>
      rw [hvalue] at hc
      contradiction
    | cons d rest =>
      rw [hvalue] at hc
      obtain rfl := Option.some.inj hc
      rfl
  have hdrop : (setting.name.toList ++ Text.spaced setting.value.toList).dropWhile (!Text.isBlank ·) =
      Text.spaced setting.value.toList := by
    rw [List.dropWhile_append_of_pos hname, Text.dropWhile_of_head hspaced]
  have htake : (setting.name.toList ++ Text.spaced setting.value.toList).takeWhile (!Text.isBlank ·) =
      setting.name.toList := by
    have hsplit := List.takeWhile_append_dropWhile (p := (!Text.isBlank ·))
      (l := setting.name.toList ++ Text.spaced setting.value.toList)
    rw [hdrop] at hsplit
    exact List.append_cancel_right hsplit
  unfold instruction
  dsimp only
  rw [(trimmed_setting h).trim_eq, htake, hdrop, if_neg (mt String.toList_eq_nil_iff.mp h.nonempty), Text.trim_spaced,
    h.value.trim_eq, String.ofList_toList, String.ofList_toList]

/-- A line that says something: it has no end of its own, and reading it gives the statement. -/
structure Says (line : List Char) (s : Statement) : Prop where
  trimmed : Text.Trimmed line
  single : '\n' ∉ line
  read : ofLine line = .ok (some s)

theorem says_setting {setting : Instruction} (h : setting.Writable) :
    Says (write (.leaf (.instruction setting))) (.leaf (.instruction setting)) := by
  have hmark : Text.Trimmed ['#', '!'] := Text.trimmed_of_forall (by decide)
  have hne : setting.name.toList ++ Text.spaced setting.value.toList ≠ [] :=
    List.append_ne_nil_of_left_ne_nil (mt String.toList_eq_nil_iff.mp h.nonempty) _
  have htrimmed : Text.Trimmed (write (.leaf (.instruction setting))) :=
    hmark.append (trimmed_setting h) (List.cons_ne_nil _ _) hne []
  refine ⟨htrimmed, ?_, ?_⟩
  · have hname : '\n' ∉ setting.name.toList := by
      intro hmem
      have hblank := h.name '\n' hmem
      rw [Text.isBlank_lineFeed] at hblank
      exact Bool.noConfusion hblank
    have hvalue := Text.lineFeed_not_mem_spaced h.line
    simp [write, hname, hvalue]
  · unfold ofLine
    rw [htrimmed.trim_eq]
    exact map_eq_ok.mpr ⟨_, instruction_setting h, rfl⟩

theorem says_worded {s : Statement} (hworded : s.Worded) (h : s.Writable) : Says s.write s := by
  have hline := line_tokens hworded h
  have htrimmed := Token.trimmed_writeAll hline
  rw [write_of_worded hworded]
  refine ⟨htrimmed, Token.lineFeed_not_mem_writeAll hline, ?_⟩
  have htokens := Token.tokenize_of_trimStart hline (Text.trimStart_of_head htrimmed.first)
  unfold ofLine
  rw [htrimmed.trim_eq]
  split
  · rename_i hmark
    exact absurd rfl (Token.head?_writeAll hline '#' (hmark ▸ rfl))
  · rw [htokens]
    obtain ⟨t, later, hcons⟩ := List.exists_cons_of_ne_nil (tokens_ne_nil hworded)
    have hread := ofTokens_tokens hworded h
    rw [hcons] at hread ⊢
    exact map_eq_ok.mpr ⟨_, hread, rfl⟩

theorem says_write {s : Statement} (hs : s.isSetting = true ∨ s.Worded) (h : s.Writable) : Says s.write s := by
  cases hs with
  | inl hsetting =>
    cases s with
    | leaf content =>
      cases content with
      | instruction setting => exact says_setting h
      | _ => contradiction
    | _ => contradiction
  | inr hworded => exact says_worded hworded h

end Statement

namespace Script

mutual

theorem worded_items : ∀ {word : List Statement}, Items word → ∀ s ∈ word, s.Worded
  | _, .nil => nofun
  | _, .leaf setting later => List.forall_mem_cons.mpr ⟨.leaf setting, worded_items later⟩
  | _, .block block later => List.forall_mem_append.mpr ⟨worded_block block, worded_items later⟩

theorem worded_block : ∀ {word : List Statement}, Block word → ∀ s ∈ word, s.Worded
  | _, .alt message items branches => by
    have hrest := List.forall_mem_append.mpr ⟨worded_items items, worded_branches branches⟩
    exact List.forall_mem_cons.mpr ⟨.alt message, hrest⟩
  | _, .loop message items => by
    have hrest := List.forall_mem_append.mpr ⟨worded_items items, List.forall_mem_singleton.mpr .close⟩
    exact List.forall_mem_cons.mpr ⟨.loop message, hrest⟩

theorem worded_branches : ∀ {word : List Statement}, Branches word → ∀ s ∈ word, s.Worded
  | _, .close => List.forall_mem_singleton.mpr .close
  | _, .elseAlt message items branches => by
    have hrest := List.forall_mem_append.mpr ⟨worded_items items, worded_branches branches⟩
    exact List.forall_mem_cons.mpr ⟨.elseAlt message, hrest⟩
  | _, .otherwise message items => by
    have hrest := List.forall_mem_append.mpr ⟨worded_items items, List.forall_mem_singleton.mpr .close⟩
    exact List.forall_mem_cons.mpr ⟨.otherwise message, hrest⟩

end

def write (nodes : List Node) : String :=
  String.ofList (((Node.statements nodes).map Statement.write).flatMap (· ++ ['\n']))

theorem snd_numbered {statements : List Statement}
    (h : ∀ s ∈ statements, Statement.ofLine s.write = .ok (some s)) (line : Nat) :
    (numbered line (statements.map Statement.write)).map Prod.snd = statements := by
  induction statements generalizing line with
  | nil => rfl
  | cons s later ih =>
    obtain ⟨hs, hlater⟩ := List.forall_mem_cons.mp h
    rw [List.map_cons, numbered, hs, List.map_cons, ih hlater]

def settingNode? : Statement → Option Node
  | .leaf (.instruction setting) => some (.leaf 0 (.instruction setting))
  | _ => none

theorem settingNode?_of_worded {s : Statement} (h : s.Worded) : settingNode? s = none := by
  cases h with
  | @leaf content hsetting => cases content <;> first | rfl | contradiction
  | _ => rfl

theorem unnumbered_settingNodes (read : List (Nat × Statement)) :
    (Assembly.settingNodes read).map Node.unnumbered = (read.map Prod.snd).filterMap settingNode? := by
  unfold Assembly.settingNodes
  rw [List.map_filterMap, List.filterMap_map]
  congr 1
  funext ⟨line, s⟩
  dsimp only [Function.comp_def]
  cases s with
  | leaf content => cases content <;> rfl
  | _ => rfl

theorem statements_append (nodes later : List Node) :
    Node.statements (nodes ++ later) = Node.statements nodes ++ Node.statements later := by
  unfold Node.statements
  rw [Node.outlineAll_append, List.map_append]

theorem statements_settings {settings : List Node} (h : ∀ node ∈ settings, node.isSetting = true) :
    (∀ s ∈ Node.statements settings, s.isSetting = true) ∧
      (Node.statements settings).filterMap settingNode? = settings.map Node.unnumbered := by
  induction settings with
  | nil => exact ⟨nofun, rfl⟩
  | cons node settings ih =>
    obtain ⟨hnode, hsettings⟩ := List.forall_mem_cons.mp h
    obtain ⟨hall, hfilter⟩ := ih hsettings
    obtain ⟨line, setting, rfl⟩ := Node.exists_of_isSetting hnode
    exact ⟨List.forall_mem_cons.mpr ⟨rfl, hall⟩, congrArg (_ :: ·) hfilter⟩

theorem lines_write {nodes : List Node} (h : ∀ s ∈ Node.statements nodes, Statement.Says s.write s) :
    Text.lines (write nodes).toList = (Node.statements nodes).map Statement.write := by
  rw [write, String.toList_ofList]
  apply Text.lines_flatMap
  intro line hline
  obtain ⟨s, hs, rfl⟩ := List.mem_map.mp hline
  exact ⟨(h s hs).single, (h s hs).trimmed⟩

theorem readable_write {nodes : List Node} (h : ∀ s ∈ Node.statements nodes, Statement.Says s.write s) :
    ∀ line ∈ Text.lines (write nodes).toList, (Statement.ofLine line).isOk := by
  intro line hline
  rw [lines_write h] at hline
  obtain ⟨s, hs, rfl⟩ := List.mem_map.mp hline
  exact isOk_iff.mpr ⟨_, (h s hs).read⟩

theorem numbered_write {nodes : List Node} (h : ∀ s ∈ Node.statements nodes, Statement.Says s.write s) :
    (numbered 1 (Text.lines (write nodes).toList)).map Prod.snd = Node.statements nodes := by
  rw [lines_write h, snd_numbered fun s hs => (h s hs).read]

theorem blockStatements_write {settings body : List Node}
    (h : ∀ s ∈ Node.statements (settings ++ body), Statement.Says s.write s)
    (hsetting : ∀ s ∈ Node.statements settings, s.isSetting = true)
    (hworded : ∀ s ∈ Node.statements body, s.Worded) :
    (blockStatements (write (settings ++ body))).map Prod.snd = Node.statements body := by
  have hmap := List.filter_map (f := Prod.snd) (p := fun s : Statement => !s.isSetting)
    (l := numbered 1 (Text.lines (write (settings ++ body)).toList))
  have hdropped : (Node.statements settings).filter (!·.isSetting) = [] := by
    apply List.filter_eq_nil_iff.mpr
    intro s hs
    simp [hsetting s hs]
  have hkept : (Node.statements body).filter (!·.isSetting) = Node.statements body := by
    apply List.filter_eq_self.mpr
    intro s hs
    simp [Statement.isSetting_of_worded (hworded s hs)]
  rw [numbered_write h, statements_append, List.filter_append, hdropped, hkept, List.nil_append] at hmap
  exact hmap.symm

/-- Every well-formed forest can be written, settings first, and the script that says it is read as that
forest: at any depth of nesting, and whatever its texts and names are. -/
theorem parse_write {settings body : List Node} (hsettings : ∀ node ∈ settings, node.isSetting = true)
    (hbody : Node.ShapedAll body) (hwritable : ∀ s ∈ Node.statements (settings ++ body), s.Writable) :
    ∃ nodes, parse (write (settings ++ body)) = .ok nodes ∧
      nodes.map Node.unnumbered = (settings ++ body).map Node.unnumbered := by
  obtain ⟨hsetting, hfilter⟩ := statements_settings hsettings
  have hworded : ∀ s ∈ Node.statements body, s.Worded := worded_items (Node.items_statements hbody)
  have hsays : ∀ s ∈ Node.statements (settings ++ body), Statement.Says s.write s := by
    intro s hs
    refine Statement.says_write ?_ (hwritable s hs)
    rw [statements_append, List.mem_append] at hs
    exact hs.imp (hsetting s) (hworded s)
  have hblocks := blockStatements_write hsays hsetting hworded
  obtain ⟨found, hrun, hfound⟩ := Assembly.replays_of_shaped hbody .empty _ hblocks
  rw [Assembly.empty, Assembly.pushAll_closed, List.nil_append] at hrun
  refine ⟨_, (parse_eq_ok (readable_write hsays)).mpr ⟨_, hrun, rfl, rfl⟩, ?_⟩
  have hnone : (Node.statements body).filterMap settingNode? = [] :=
    List.filterMap_eq_nil_iff.mpr fun s hs => settingNode?_of_worded (hworded s hs)
  rw [List.map_append, unnumbered_settingNodes, numbered_write hsays, statements_append,
    List.filterMap_append, hfilter, hnone, List.append_nil, hfound, List.map_append]

def writtenSample : List Node × List Node :=
  ([.leaf 0 (.instruction ⟨"style", "rose red"⟩), .leaf 0 (.instruction ⟨"margin", ""⟩)],
    [.leaf 0 (.title "#1: a\\b\n"),
      .leaf 0 (.actor "señor_1" [⟨"icon", "human"⟩] (some "")),
      .block 0 [⟨.loop "", [
        .block 0 [
          ⟨.alt "x", [.leaf 0 (.action (.named "a") (.pseudo "left") ⟨.dashed, .lowerBarbed⟩ "")]⟩,
          ⟨.elseAlt "", []⟩,
          ⟨.otherwise "y", [.leaf 0 (.note [.named "a", .pseudo "b"] .over "")]⟩],
        .leaf 0 (.gap .line (some ""))]⟩]])

theorem parse_write_writtenSample :
    (∀ node ∈ writtenSample.1, node.isSetting = true) ∧ Node.ShapedAll writtenSample.2 ∧
      (∀ s ∈ Node.statements (writtenSample.1 ++ writtenSample.2), s.Writable) ∧
      ∃ nodes, parse (write (writtenSample.1 ++ writtenSample.2)) = .ok nodes ∧
        nodes.map Node.unnumbered = (writtenSample.1 ++ writtenSample.2).map Node.unnumbered := by
  have hsettings : ∀ node ∈ writtenSample.1, node.isSetting = true := by decide
  have hwritable : ∀ s ∈ Node.statements (writtenSample.1 ++ writtenSample.2), s.Writable := by
    decide +kernel
  have hchoice : Heading.Sequence true [.alt "x", .elseAlt "", .otherwise "y"] :=
    .alt "x" (.elseAlt "" (.otherwise "y"))
  have hbody : Node.ShapedAll writtenSample.2 := by
    simp only [writtenSample, Node.ShapedAll, Node.Shaped, Node.ShapedSegments, Leaf.isSetting, List.map_cons,
      List.map_nil, and_true, true_and]
    exact ⟨⟨false, .loop ""⟩, true, hchoice⟩
  exact ⟨hsettings, hbody, hwritable, parse_write hsettings hbody hwritable⟩

example : write (writtenSample.1 ++ writtenSample.2) =
    "#!style rose red\n#!margin\ntitle: #1: a\\\\b\\n\nparticipant señor_1 icon=human:\nloop\nalt: x\n" ++
      "a--\\>.left\nelsealt\nelse: y\nnote over a,.b:\nend\nline:\nend\n" := by
  decide +kernel

end Script

end SequenceChart

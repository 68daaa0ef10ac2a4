import SequenceChart.Proofs.Chart.Marks
import SequenceChart.Proofs.Svg.Shown

/-! Documents of diagrams. A sheet on which a picture was drawn is a well-formed document with one element for the
background and one for every mark, in the order of drawing. -/

namespace SequenceChart

namespace Sheet

def rootAttributes (size : Size Float) : List Xml.Attribute :=
  [⟨"xmlns", "http://www.w3.org/2000/svg".toList⟩,
    ⟨"viewBox", "0 0 ".toList ++ num size.width ++ ' ' :: num size.height⟩,
    ⟨"width", num size.width⟩, ⟨"height", num size.height⟩]

theorem bare_rootAttributes (size : Size Float) : ∀ a ∈ rootAttributes size, Xml.Bare a.value := by
  have hspace : Xml.Bare ("http://www.w3.org/2000/svg".toList) := by decide
  have hview : Xml.Bare ("0 0 ".toList ++ num size.width ++ ' ' :: num size.height) := by
    rw [Xml.bare_append, Xml.bare_append, Xml.bare_cons]
    exact ⟨⟨by decide, bare_num _⟩, by decide, bare_num _⟩
  simp only [rootAttributes, List.forall_mem_cons]
  exact ⟨hspace, hview, bare_num _, bare_num _, nofun⟩

theorem sound_root (size : Size Float) : Xml.Element.Sound ⟨"svg", rootAttributes size, none⟩ :=
  Xml.Element.sound_of_sublist ["xmlns", "viewBox", "width", "height"] (show Xml.isName "svg" = true by decide)
    (by decide) (by decide) (List.Sublist.refl _)

theorem legal_rootAttributes (size : Size Float) :
    ((rootAttributes size).map fun a => (⟨a.name, Xml.legal a.value⟩ : Xml.Attribute)) = rootAttributes size := by
  refine (List.map_congr_left fun a ha => ?_).trans (List.map_id _)
  rw [Xml.legal_of_bare (bare_rootAttributes size a ha)]
  rfl

theorem exists_element {call : Call Float} (h : call.isMark = true) : ∃ e, element? call = some e := by
  cases call <;> first | contradiction | exact ⟨_, rfl⟩

theorem write_of_element? {call : Call Float} {e : Xml.Element} (h : element? call = some e) (s : Sheet) :
    s.write call = { s with text := s.text ++ String.ofList e.write } := by
  unfold write
  cases call with
  | setSize size => contradiction
  | close => contradiction
  | _ =>
    rw [added, h]
    · rfl
    all_goals nofun

theorem writeAll_marks {marks : List (Call Float)} {elements : List Xml.Element}
    (h : marks.map element? = elements.map some) (s : Sheet) :
    s.writeAll marks = { s with text := s.text ++ String.ofList (elements.flatMap Xml.Element.write) } := by
  induction marks generalizing elements s with
  | nil =>
    obtain rfl := List.map_eq_nil_iff.mp h.symm
    simp
  | cons call marks ih =>
    cases elements with
    | nil => contradiction
    | cons e elements =>
      obtain ⟨hcall, hmarks⟩ := List.cons_eq_cons.mp h
      rw [writeAll_cons, write_of_element? hcall, ih hmarks, List.flatMap_cons, String.ofList_append,
        String.append_assoc]

theorem proper_elements {marks : List (Call Float)} {elements : List Xml.Element}
    (h : marks.map element? = elements.map some) (size : Size Float) (background : Color) :
    ∀ e ∈ backgroundElement size background :: elements, Proper e := by
  refine List.forall_mem_cons.mpr ⟨proper_backgroundElement size background, fun e he => ?_⟩
  have hsome : some e ∈ marks.map element? := h ▸ List.mem_map_of_mem he
  obtain ⟨call, _, hcall⟩ := List.mem_map.mp hsome
  exact proper_element hcall

theorem shows_elements {marks : List (Call Float)} {elements : List Xml.Element}
    (h : marks.map element? = elements.map some) : List.Forall₂ Shows marks (elements.map Xml.Element.tree) := by
  induction marks generalizing elements with
  | nil =>
    obtain rfl := List.map_eq_nil_iff.mp h.symm
    exact .nil
  | cons call marks ih =>
    cases elements with
    | nil => contradiction
    | cons e elements =>
      obtain ⟨hcall, hmarks⟩ := List.cons_eq_cons.mp h
      exact .cons (shows_element hcall) (ih hmarks)

def page (size : Size Float) (children : List Xml.Tree) : Xml.Tree :=
  .node "svg" (rootAttributes size) ['\n'] (children.map fun t => (t, ['\n']))

theorem document_writeAll {marks : List (Call Float)} {elements : List Xml.Element}
    (h : marks.map element? = elements.map some) (size : Size Float) (background : Color) :
    Xml.Document (page size ((backgroundElement size background :: elements).map Xml.Element.tree))
      ((blank (some background)).writeAll (.setSize size :: (marks ++ [.close]))).text.toList := by
  have hdocument := Xml.document_tags (sound_root size) fun e he => (proper_elements h size background e he).toSound
  have htext : ((blank (some background)).writeAll (.setSize size :: (marks ++ [.close]))).text.toList =
      Xml.openTag "svg" (rootAttributes size) ++
        ((backgroundElement size background :: elements).flatMap Xml.Element.write ++ Xml.closeTag "svg") := by
    rw [writeAll_cons, writeAll_append, writeAll_marks h]
    simp [write, added, blank, rootTag, rootAttributes]
  rw [htext, page, List.map_map]
  rwa [legal_rootAttributes] at hdocument

theorem exists_elements {marks : List (Call Float)} (h : AllMarks marks) :
    ∃ elements : List Xml.Element, marks.map element? = elements.map some := by
  induction marks with
  | nil => exact ⟨[], rfl⟩
  | cons call marks ih =>
    obtain ⟨hcall, hmarks⟩ := allMarks_cons.mp h
    obtain ⟨e, he⟩ := exists_element hcall
    obtain ⟨elements, helements⟩ := ih hmarks
    exact ⟨e :: elements, by rw [List.map_cons, List.map_cons, he, helements]⟩

theorem exists_append (s : Sheet) (calls : List (Call Float)) :
    ∃ more, (s.writeAll calls).text.toList = s.text.toList ++ more := by
  induction calls generalizing s with
  | nil => exact ⟨[], (List.append_nil _).symm⟩
  | cons call calls ih =>
    obtain ⟨more, hmore⟩ := ih (s.write call)
    refine ⟨s.added call ++ more, ?_⟩
    rw [writeAll_cons, hmore]
    simp [write]

theorem exists_text_line {s : Sheet} (h : s.closed = true) (start stop : Point Float) (stroke : Stroke Float) :
    ∃ more, (s.writeAll [.line start stop stroke, .close]).text.toList =
      s.text.toList ++ more ++ ['/', '>', '\n'] := by
  obtain ⟨e, he⟩ : ∃ e, element? (.line start stop stroke) = some e := ⟨_, rfl⟩
  have hcontent : e.content = none := by
    obtain rfl := Option.some.inj he
    rfl
  refine ⟨'<' :: (e.name.toList ++ Xml.writeAttributes e.attributes), ?_⟩
  rw [writeAll_cons, writeAll_cons, writeAll_nil, write_of_element? he]
  simp [write, added, h, Xml.Element.write, hcontent]

theorem not_document_of_closed {size : Size Float} {background : Color} (calls : List (Call Float))
    (h : (((blank (some background)).write (.setSize size)).writeAll calls).closed = true) (start stop : Point Float)
    (stroke : Stroke Float) (root : Xml.Tree) :
    ¬ Xml.Document root
      ((blank (some background)).writeAll (.setSize size :: (calls ++ [.line start stop stroke, .close]))).text.toList := by
  intro hdocument
  obtain ⟨more, hmore⟩ := ((blank (some background)).write (.setSize size)).exists_append calls
  obtain ⟨later, hlater⟩ := exists_text_line h start stop stroke
  rw [writeAll_cons, writeAll_append, hlater] at hdocument
  have hcount := hdocument.count_lt
  have htag : 0 < (rootTag size).count '<' := List.count_pos_iff.mpr List.mem_cons_self
  have hbackground : 0 < (backgroundElement size background).write.count '<' :=
    List.count_pos_iff.mpr List.mem_cons_self
  have htext : ((blank (some background)).write (.setSize size)).text.toList =
      rootTag size ++ (backgroundElement size background).write := by
    simp [write, added, blank]
  rw [hmore, htext] at hcount
  simp only [List.count_append] at hcount
  omega

end Sheet

/-- The document of a diagram is well-formed. Its root holds the background and then one element for every mark of
the picture, which shows it, in the order of drawing. Nothing but contents and font families needs escapes. -/
theorem Diagram.document_svg [ColumnWidths] {ι : Type} [Icon ι Float] [Icon.DrawsMarks ι Float] (d : Diagram ι)
    (config : Config Float) :
    ∃ (size : Size Float) (marks : List (Call Float)) (background : Xml.Tree) (children : List Xml.Tree),
      (d.picture config (.estimated config.style.fontFamily)).calls = .setSize size :: (marks ++ [.close]) ∧
      Xml.Document (Sheet.page size (background :: children)) (d.svg config).toList ∧
      Sheet.Covers size config.style.background background ∧ List.Forall₂ Sheet.Shows marks children ∧
      (∀ a ∈ Sheet.rootAttributes size, Xml.escape a.value = a.value) ∧
      ∀ t ∈ background :: children, ∀ a ∈ t.attributes, a.name ≠ "font-family" → Xml.escape a.value = a.value := by
  obtain ⟨marks, hcalls, hmarks⟩ := d.exists_marks config (.estimated config.style.fontFamily)
  obtain ⟨elements, helements⟩ := Sheet.exists_elements hmarks
  refine ⟨_, marks, _, elements.map Xml.Element.tree, hcalls, ?_, Sheet.covers_backgroundElement _ _,
    Sheet.shows_elements helements, fun a ha => ?_, fun t ht a ha hname => ?_⟩
  · rw [svg, hcalls]
    exact Sheet.document_writeAll helements _ _
  · exact Xml.escape_of_bare (Sheet.bare_rootAttributes _ a ha)
  · obtain ⟨e, he, rfl⟩ := List.mem_map.mp ((List.map_cons (f := Xml.Element.tree)).symm ▸ ht)
    obtain ⟨written, hwritten, rfl⟩ := List.mem_map.mp ha
    have hbare := (Sheet.proper_elements helements _ _ e he).bare written hwritten hname
    rw [Xml.legal_of_bare hbare, Xml.escape_of_bare hbare]

def Diagram.markupSample : Diagram BuiltinIcon where
  title := some "<svg> & \"more\""
  actors := [⟨"a", "]]>\u0000", 0, some ⟨"drum", .drum⟩, true, true⟩]
  items := [.action ⟨.actor 0, .actor 0, ⟨.solid, .filled⟩, "a < b"⟩]
  instructions := []

theorem Diagram.document_svg_markupSample :
    Icon.DrawsMarks BuiltinIcon Float ∧ ∃ size marks background children,
      Xml.Document (Sheet.page size (background :: children)) (@svg _ .ascii _ markupSample .standard).toList ∧
      Sheet.Covers size .white background ∧ List.Forall₂ Sheet.Shows marks children := by
  obtain ⟨size, marks, background, children, _, hdocument, hcovers, hshows, _⟩ :=
    @document_svg .ascii _ _ _ markupSample .standard
  exact ⟨inferInstance, size, marks, background, children, hdocument, hcovers, hshows⟩

/-- An icon that ends the picture in which it is drawn. -/
inductive EndingIcon where
  | ending
deriving DecidableEq

instance : Icon EndingIcon Float where
  size _ := .zero
  draw _ _ _ _ := [.close]

def Diagram.endingSample : Diagram EndingIcon where
  title := none
  actors := [⟨"a", "a", 0, some ⟨"end", .ending⟩, true, false⟩]
  items := []
  instructions := []

theorem Diagram.calls_endingSample (font : Font Float) :
    ∃ size corner extent stroke fill place style start stop edge,
      (endingSample.picture .standard font).calls =
        [.setSize size, .rect corner extent stroke fill, .close, .text place "a" style, .line start stop edge, .close] :=
  ⟨_, _, _, _, _, _, _, _, _, _, rfl⟩

/-- Behind the root of the document stand the label and the lifeline of the actor. -/
theorem Diagram.not_document_endingSample :
    ¬ ∃ root, Xml.Document root (@svg _ .ascii _ endingSample .standard).toList := by
  rintro ⟨root, hdocument⟩
  obtain ⟨size, corner, extent, stroke, fill, place, style, start, stop, edge, hcalls⟩ :=
    calls_endingSample (@Font.estimated _ _ .ascii (Config.standard : Config Float).style.fontFamily)
  unfold svg at hdocument
  dsimp only at hdocument
  rw [hcalls] at hdocument
  exact Sheet.not_document_of_closed [.rect corner extent stroke fill, .close, .text place "a" style] rfl start stop edge
    root hdocument

end SequenceChart

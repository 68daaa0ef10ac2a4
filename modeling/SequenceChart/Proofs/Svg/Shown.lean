import SequenceChart.Proofs.Svg.Elements

/-! What shows a mark. Every mark has a kind of element, and there is a value in the element for everything that the
mark is drawn by, whichever way elements are written. -/

namespace SequenceChart

namespace Xml

def value? (attributes : List Attribute) (name : String) : Option (List Char) :=
  (attributes.find? fun a => a.name == name).map Attribute.value

theorem value?_append (attributes later : List Attribute) (name : String) :
    value? (attributes ++ later) name = (value? attributes name).or (value? later name) := by
  simp [value?, List.find?_append, Option.map_or]

theorem value?_eq_none {attributes : List Attribute} {name : String} (h : name ∉ attributes.map Attribute.name) :
    value? attributes name = none := by
  unfold value?
  rw [List.find?_eq_none.mpr, Option.map_none]
  intro a ha heq
  exact h (List.mem_map.mpr ⟨a, ha, by simpa using heq⟩)

theorem legal_of_bare {text : List Char} (h : Bare text) : legal text = text := by
  refine List.filter_eq_self.mpr fun c hc => decide_eq_true (by_contra fun hillegal => ?_)
  have hkept := h c hc
  rw [escapeChar_of_not_legal hillegal] at hkept
  exact List.cons_ne_nil _ _ hkept.symm

namespace Tree

def attributes : Tree → List Attribute
  | node _ attributes _ _ => attributes

inductive Leaf (kind : String) (text : List Char) (names : List String) : Tree → Prop
  | intro {attributes : List Attribute} :
      (∀ a ∈ attributes, a.name ∈ names) → Leaf kind text names (node kind attributes text [])

def value? (t : Tree) (name : String) : Option (List Char) := Xml.value? t.attributes name

end Tree

theorem Element.value?_tree (e : Element) (name : String) :
    e.tree.value? name = (Xml.value? e.attributes name).map legal := by
  simp only [Tree.value?, Tree.attributes, tree, Xml.value?, List.find?_map, Option.map_map, Function.comp_def]

end Xml

namespace Sheet

def strokeNames : List String := ["stroke", "stroke-width", "stroke-opacity", "stroke-dasharray"]

def fillNames : List String := ["fill", "fill-opacity"]

/-- Numbers that an element has under some names. -/
def Places (t : Xml.Tree) (numbers : List (String × Float)) : Prop :=
  ∀ entry ∈ numbers, t.value? entry.1 = some (num entry.2)

structure Stroked (t : Xml.Tree) (stroke : Option (Stroke Float)) : Prop where
  color : t.value? "stroke" = some (stroke.elim "none".toList fun s => s.color.hex)
  width : t.value? "stroke-width" = stroke.map fun s => num s.width
  opacity : t.value? "stroke-opacity" = (stroke.filter fun s => s.color.a != 255).map fun s => num s.color.opacity
  dash : t.value? "stroke-dasharray" =
    (stroke.filter fun s => !s.dash.isEmpty).map fun s => [','].intercalate (s.dash.map num)

structure Filled (t : Xml.Tree) (fill : Option Color) : Prop where
  color : t.value? "fill" = some (fill.elim "none".toList Color.hex)
  opacity : t.value? "fill-opacity" = (fill.filter fun c => c.a != 255).map fun c => num c.opacity

def stepWords : PathStep Float → List (List Char)
  | .move target => [['M'], num target.x, num target.y]
  | .line target => [['L'], num target.x, num target.y]
  | .quadratic control target => [['Q'], num control.x, num control.y, num target.x, num target.y]
  | .close => [['Z']]

/-- Whether an element shows a mark. The corner of a text is the upper end of its row, its place in a document is on
the baseline. -/
def Shows (call : Call Float) (t : Xml.Tree) : Prop :=
  match call with
  | .line start stop stroke =>
    t.Leaf "line" [] (["x1", "y1", "x2", "y2"] ++ strokeNames) ∧
      Places t [("x1", start.x), ("y1", start.y), ("x2", stop.x), ("y2", stop.y)] ∧ Stroked t (some stroke)
  | .rect corner size stroke fill =>
    t.Leaf "rect" [] (["x", "y", "width", "height"] ++ (strokeNames ++ fillNames)) ∧
      Places t [("x", corner.x), ("y", corner.y), ("width", size.width), ("height", size.height)] ∧
      Stroked t stroke ∧ Filled t fill
  | .circle center radius stroke fill =>
    t.Leaf "circle" [] (["cx", "cy", "r"] ++ (strokeNames ++ fillNames)) ∧
      Places t [("cx", center.x), ("cy", center.y), ("r", radius)] ∧ Stroked t stroke ∧ Filled t fill
  | .text corner content style =>
    t.Leaf "text" (Xml.legal content.toList) ["x", "y", "font-family", "font-size", "fill", "font-weight"] ∧
      Places t [("x", corner.x), ("y", corner.y + style.size * 0.8), ("font-size", style.size)] ∧
      t.value? "font-family" = some (Xml.legal style.font.toList) ∧ t.value? "fill" = some style.color.hex ∧
      t.value? "font-weight" = if style.bold then some "bold".toList else none
  | .polygon points stroke fill =>
    t.Leaf "polygon" [] (["points"] ++ (strokeNames ++ fillNames)) ∧
      t.value? "points" = some ([' '].intercalate (points.map fun p => [','].intercalate [num p.x, num p.y])) ∧
      Stroked t stroke ∧ Filled t fill
  | .polyline points stroke =>
    t.Leaf "polyline" [] (["points"] ++ (strokeNames ++ fillNames)) ∧
      t.value? "points" = some ([' '].intercalate (points.map fun p => [','].intercalate [num p.x, num p.y])) ∧
      Stroked t (some stroke) ∧ Filled t none
  | .path steps stroke fill =>
    t.Leaf "path" [] (["d"] ++ (strokeNames ++ fillNames)) ∧
      t.value? "d" = some ([' '].intercalate (steps.flatMap stepWords)) ∧ Stroked t stroke ∧ Filled t fill
  | .setSize _ => False
  | .close => False

/-- Whether an element is a rectangle over a whole picture, in one colour and without an edge. -/
structure Covers (size : Size Float) (color : Color) (t : Xml.Tree) : Prop where
  leaf : t.Leaf "rect" [] ["x", "y", "width", "height", "fill"]
  places : Places t [("x", 0.0), ("y", 0.0), ("width", size.width), ("height", size.height)]
  fill : t.value? "fill" = some color.hex

namespace Proper

variable {e : Xml.Element}

theorem value?_tree (h : Proper e) {name : String} (hname : name ≠ "font-family") :
    e.tree.value? name = Xml.value? e.attributes name := by
  rw [e.value?_tree]
  unfold Xml.value?
  cases hfound : e.attributes.find? fun a => a.name == name with
  | none => rfl
  | some a =>
    have heq : a.name = name := by simpa using List.find?_some hfound
    exact congrArg some (Xml.legal_of_bare (h.bare a (List.mem_of_find?_eq_some hfound) (heq ▸ hname)))

end Proper

section Painted

variable {kind : String} {own : List Xml.Attribute} {content : Option (List Char)} {stroke : Option (Stroke Float)}

theorem stroked_tree {later : List Xml.Attribute} (h : Proper ⟨kind, own ++ (strokeAttributes stroke ++ later), content⟩)
    (hown : ∀ name ∈ strokeNames, name ∉ own.map Xml.Attribute.name)
    (hlater : ∀ name ∈ strokeNames, name ∉ later.map Xml.Attribute.name) :
    Stroked (Xml.Element.tree ⟨kind, own ++ (strokeAttributes stroke ++ later), content⟩) stroke := by
  have hvalue : ∀ name ∈ strokeNames,
      (Xml.Element.tree ⟨kind, own ++ (strokeAttributes stroke ++ later), content⟩).value? name =
        Xml.value? (strokeAttributes stroke) name := by
    intro name hname
    have hfamily : name ≠ "font-family" := by
      rintro rfl
      exact absurd hname (by decide)
    rw [h.value?_tree hfamily, Xml.value?_append, Xml.value?_append, Xml.value?_eq_none (hown name hname),
      Xml.value?_eq_none (hlater name hname), Option.none_or, Option.or_none]
  simp only [strokeNames, List.forall_mem_cons] at hvalue
  obtain ⟨hcolor, hwidth, hopacity, hdash, _⟩ := hvalue
  refine ⟨hcolor.trans ?_, hwidth.trans ?_, hopacity.trans ?_, hdash.trans ?_⟩
  all_goals
    cases stroke with
    | none => rfl
    | some s =>
      rw [strokeAttributes]
      split_ifs <;> simp_all [Xml.value?, Color.isOpaque, Stroke.isDashed, Option.filter]

theorem filled_tree {fill : Option Color} (h : Proper ⟨kind, own ++ fillAttributes fill, content⟩)
    (hown : ∀ name ∈ fillNames, name ∉ own.map Xml.Attribute.name) :
    Filled (Xml.Element.tree ⟨kind, own ++ fillAttributes fill, content⟩) fill := by
  have hvalue : ∀ name ∈ fillNames,
      (Xml.Element.tree ⟨kind, own ++ fillAttributes fill, content⟩).value? name =
        Xml.value? (fillAttributes fill) name := by
    intro name hname
    have hfamily : name ≠ "font-family" := by
      rintro rfl
      exact absurd hname (by decide)
    rw [h.value?_tree hfamily, Xml.value?_append, Xml.value?_eq_none (hown name hname), Option.none_or]
  simp only [fillNames, List.forall_mem_cons] at hvalue
  obtain ⟨hcolor, hopacity, _⟩ := hvalue
  refine ⟨hcolor.trans ?_, hopacity.trans ?_⟩
  all_goals
    cases fill with
    | none => rfl
    | some c =>
      rw [fillAttributes]
      split_ifs <;> simp_all [Xml.value?, Color.isOpaque, Option.filter]

theorem leaf_tree {attributes : List Xml.Attribute} {text : List Char} {names : List String}
    (htext : Xml.legal (content.getD []) = text) (h : attributes.map Xml.Attribute.name ⊆ names) :
    (Xml.Element.tree ⟨kind, attributes, content⟩).Leaf kind text names := by
  subst htext
  refine .intro fun a ha => ?_
  obtain ⟨written, hwritten, rfl⟩ := List.mem_map.mp ha
  exact h (List.mem_map.mpr ⟨written, hwritten, rfl⟩)

theorem painted_tree {fill : Option Color} (names : List String) (hnames : own.map Xml.Attribute.name = names)
    (hown : ∀ name ∈ strokeNames ++ fillNames, name ∉ names)
    (h : Proper ⟨kind, own ++ paintAttributes stroke fill, none⟩) :
    (Xml.Element.tree ⟨kind, own ++ paintAttributes stroke fill, none⟩).Leaf kind []
        (names ++ (strokeNames ++ fillNames)) ∧
      Stroked (Xml.Element.tree ⟨kind, own ++ paintAttributes stroke fill, none⟩) stroke ∧
      Filled (Xml.Element.tree ⟨kind, own ++ paintAttributes stroke fill, none⟩) fill := by
  subst hnames
  obtain ⟨hstroke, hfill⟩ := List.forall_mem_append.mp hown
  have hapart : ∀ name ∈ strokeNames, name ∉ fillNames := by decide
  refine ⟨leaf_tree rfl ?_, stroked_tree h hstroke fun name hname hmem => ?_, ?_⟩
  · rw [List.map_append]
    exact ((List.Sublist.refl _).append (names_paintAttributes stroke fill)).subset
  · exact hapart name hname ((names_fillAttributes fill).subset hmem)
  · rw [paintAttributes, ← List.append_assoc] at h ⊢
    refine filled_tree h fun name hname hmem => ?_
    rw [List.map_append, List.mem_append] at hmem
    obtain hmem | hmem := hmem
    · exact hfill name hname hmem
    · exact hapart name ((names_strokeAttributes stroke).subset hmem) hname

end Painted

theorem places_tree {e : Xml.Element} (h : Proper e) {numbers : List (String × Float)}
    (hvalue : ∀ entry ∈ numbers, entry.1 ≠ "font-family" ∧ Xml.value? e.attributes entry.1 = some (num entry.2)) :
    Places e.tree numbers := by
  intro entry hentry
  obtain ⟨hname, hentry⟩ := hvalue entry hentry
  rw [h.value?_tree hname, hentry]

theorem intercalate_append {α : Type} (separator : List α) {parts later : List (List α)} (h : parts ≠ [])
    (hlater : later ≠ []) : separator.intercalate (parts ++ later) =
      separator.intercalate parts ++ (separator ++ separator.intercalate later) := by
  obtain ⟨next, later, rfl⟩ := List.exists_cons_of_ne_nil hlater
  induction parts with
  | nil => contradiction
  | cons part parts ih =>
    cases parts with
    | nil => simp [List.intercalate_cons_cons]
    | cons second parts =>
      rw [List.cons_append, List.cons_append, List.intercalate_cons_cons, List.intercalate_cons_cons,
        ← List.cons_append, ih (List.cons_ne_nil _ _)]
      simp only [List.append_assoc]

theorem pathStep_eq (step : PathStep Float) : pathStep step = [' '].intercalate (stepWords step) := by
  cases step <;> simp [pathStep, stepWords, pair, List.intercalate_cons_cons]

theorem intercalate_pathStep (steps : List (PathStep Float)) :
    [' '].intercalate (steps.map pathStep) = [' '].intercalate (steps.flatMap stepWords) := by
  induction steps with
  | nil => rfl
  | cons step steps ih =>
    cases steps with
    | nil => simp [pathStep_eq]
    | cons next steps =>
      have hwords : stepWords step ≠ [] := by cases step <;> exact List.cons_ne_nil _ _
      have hlater : (next :: steps).flatMap stepWords ≠ [] := by cases next <;> exact List.cons_ne_nil _ _
      rw [List.flatMap_cons, intercalate_append _ hwords hlater, ← ih, ← pathStep_eq]
      rfl

theorem pointList_eq (points : List (Point Float)) :
    pointList points = [' '].intercalate (points.map fun p => [','].intercalate [num p.x, num p.y]) := by
  simp [pointList, List.intercalate_cons_cons]

theorem shows_element {call : Call Float} {e : Xml.Element} (h : element? call = some e) : Shows call e.tree := by
  have hproper := proper_element h
  cases call with
  | setSize size => contradiction
  | close => contradiction
  | line start stop stroke =>
    obtain rfl := Option.some.inj h
    refine ⟨leaf_tree rfl ?_, places_tree hproper (by simp [Xml.value?]), ?_⟩
    · rw [List.map_append]
      exact ((List.Sublist.refl _).append (names_strokeAttributes _)).subset
    · rw [← List.append_nil (strokeAttributes _)] at hproper ⊢
      exact stroked_tree hproper (by simp [strokeNames]) (by simp)
  | rect corner size stroke fill =>
    obtain rfl := Option.some.inj h
    obtain ⟨hleaf, hpaint⟩ := painted_tree ["x", "y", "width", "height"] rfl (by decide) hproper
    exact ⟨hleaf, places_tree hproper (by simp [Xml.value?, rectElement]), hpaint⟩
  | circle center radius stroke fill =>
    obtain rfl := Option.some.inj h
    obtain ⟨hleaf, hpaint⟩ := painted_tree ["cx", "cy", "r"] rfl (by decide) hproper
    exact ⟨hleaf, places_tree hproper (by simp [Xml.value?]), hpaint⟩
  | text corner content style =>
    obtain rfl := Option.some.inj h
    refine ⟨leaf_tree rfl ?_, places_tree hproper ?_, ?_, ?_, ?_⟩
    · split_ifs <;> simp
    · simp [Xml.value?, baseline]
    · rw [Xml.Element.value?_tree]
      simp [Xml.value?]
    · rw [hproper.value?_tree (by decide)]
      simp [Xml.value?]
    · rw [hproper.value?_tree (by decide)]
      split_ifs <;> simp [Xml.value?]
  | polygon points stroke fill =>
    obtain rfl := Option.some.inj h
    obtain ⟨hleaf, hpaint⟩ := @painted_tree _ [⟨"points", pointList points⟩] _ _ ["points"] rfl (by decide) hproper
    refine ⟨hleaf, ?_, hpaint⟩
    rw [hproper.value?_tree (by decide), ← pointList_eq]
    rfl
  | polyline points stroke =>
    obtain rfl := Option.some.inj h
    obtain ⟨hleaf, hpaint⟩ := @painted_tree _ [⟨"points", pointList points⟩] _ _ ["points"] rfl (by decide) hproper
    refine ⟨hleaf, ?_, hpaint⟩
    rw [hproper.value?_tree (by decide), ← pointList_eq]
    rfl
  | path steps stroke fill =>
    obtain rfl := Option.some.inj h
    obtain ⟨hleaf, hpaint⟩ := @painted_tree _ [⟨"d", _⟩] _ _ ["d"] rfl (by decide) hproper
    refine ⟨hleaf, ?_, hpaint⟩
    rw [hproper.value?_tree (by decide), ← intercalate_pathStep]
    rfl

theorem covers_backgroundElement (size : Size Float) (color : Color) :
    Covers size color (backgroundElement size color).tree where
  leaf := leaf_tree rfl (by simp)
  places := places_tree (proper_backgroundElement size color) (by simp [backgroundElement, rectElement, Xml.value?])
  fill := by
    rw [(proper_backgroundElement size color).value?_tree (by decide)]
    simp [backgroundElement, rectElement, Xml.value?]

end Sheet

end SequenceChart

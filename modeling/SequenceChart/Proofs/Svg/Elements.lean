import SequenceChart.Proofs.Svg.Markup
import SequenceChart.Svg.Sheet

/-! Elements of sheets. Their names and attributes are such that they are written well, and escapes make no difference
to their numbers, colours and paths. -/

namespace SequenceChart

namespace Xml

theorem bare_append {text later : List Char} : Bare (text ++ later) ↔ Bare text ∧ Bare later :=
  List.forall_mem_append

theorem bare_cons {c : Char} {text : List Char} : Bare (c :: text) ↔ escapeChar c = [c] ∧ Bare text :=
  List.forall_mem_cons

theorem bare_ite {p : Prop} [Decidable p] {text other : List Char} (h : Bare text) (hother : Bare other) :
    Bare (if p then text else other) := by
  split
  · exact h
  · exact hother

theorem bare_intercalate {c : Char} (hc : escapeChar c = [c]) {parts : List (List Char)}
    (h : ∀ part ∈ parts, Bare part) : Bare ([c].intercalate parts) := by
  induction parts with
  | nil => exact nofun
  | cons part parts ih =>
    obtain ⟨hpart, hparts⟩ := List.forall_mem_cons.mp h
    cases parts with
    | nil => simpa using hpart
    | cons next parts =>
      rw [List.intercalate_cons_cons, bare_append, bare_append]
      exact ⟨⟨hpart, bare_cons.mpr ⟨hc, nofun⟩⟩, ih hparts⟩

theorem exists_digitChar {b n : Nat} (hb : 1 < b) {c : Char} (hc : c ∈ Nat.toDigits b n) :
    ∃ k < b, c = k.digitChar := by
  induction n using Nat.strongRecOn with
  | ind n ih =>
    rw [Nat.toDigits_eq_if hb] at hc
    split at hc
    · exact ⟨n, ‹_›, List.mem_singleton.mp hc⟩
    · obtain hfront | hlast := List.mem_append.mp hc
      · exact ih (n / b) (Nat.div_lt_self (by omega) hb) hfront
      · exact ⟨n % b, Nat.mod_lt n (by omega), List.mem_singleton.mp hlast⟩

theorem bare_toDigits {b : Nat} (hb : 1 < b) (hlarge : b ≤ 16) (n : Nat) : Bare (Nat.toDigits b n) := by
  have hdigits : ∀ k < 16, escapeChar k.digitChar = [k.digitChar] := by decide
  intro c hc
  obtain ⟨k, hk, rfl⟩ := exists_digitChar hb hc
  exact hdigits k (by omega)

theorem bare_zeros (n : Nat) : Bare (List.replicate n '0') := by
  intro c hc
  obtain ⟨_, rfl⟩ := List.mem_replicate.mp hc
  decide

end Xml

namespace Decimal

theorem bare_lastDigits (count n : Nat) : Xml.Bare (lastDigits count n) := by
  have hdigits : ∀ k < 10, Xml.escapeChar k.digitChar = [k.digitChar] := by decide
  induction count generalizing n with
  | zero => exact nofun
  | succ count ih =>
    exact Xml.bare_append.mpr ⟨ih (n / 10), Xml.bare_cons.mpr ⟨hdigits _ (Nat.mod_lt n (by decide)), nofun⟩⟩

theorem bare_fixed (places n : Nat) : Xml.Bare (fixed places n) :=
  Xml.bare_append.mpr ⟨Xml.bare_toDigits (by decide) (by decide) _, Xml.bare_cons.mpr ⟨by decide, bare_lastDigits _ _⟩⟩

theorem bare_dropEnd {text : List Char} (h : Xml.Bare text) (c : Char) : Xml.Bare (dropEnd c text) := by
  intro d hd
  exact h d (List.mem_reverse.mp ((List.dropWhile_sublist _).subset (List.mem_reverse.mp hd)))

theorem bare_trim {text : List Char} (h : Xml.Bare text) : Xml.Bare (trim text) :=
  Xml.bare_ite (by decide) (bare_dropEnd (bare_dropEnd h '0') '.')

theorem bare_ofValue (places : Nat) (v : Binary64.Value) : Xml.Bare (ofValue places v) := by
  have hsign : ∀ {p : Prop} [Decidable p], Xml.Bare (if p then ['-'] else []) :=
    Xml.bare_ite (by decide) nofun
  cases v with
  | nan => exact show Xml.Bare ['N', 'a', 'N'] by decide
  | infinite negative => exact Xml.bare_append.mpr ⟨hsign, by decide⟩
  | finite negative significand exponent => exact Xml.bare_append.mpr ⟨hsign, bare_fixed _ _⟩

end Decimal

namespace Color

theorem bare_channelDigits (channel : UInt8) : Xml.Bare (channelDigits channel) :=
  Xml.bare_append.mpr ⟨Xml.bare_zeros _, Xml.bare_toDigits (by decide) (by decide) _⟩

theorem bare_hex (c : Color) : Xml.Bare c.hex := by
  simp only [hex, Xml.bare_cons, Xml.bare_append, bare_channelDigits, and_true]
  decide

end Color

namespace Sheet

theorem bare_num (x : Float) : Xml.Bare (num x) := Decimal.bare_trim (Decimal.bare_ofValue 2 _)

theorem bare_pointList (points : List (Point Float)) : Xml.Bare (pointList points) := by
  refine Xml.bare_intercalate (by decide) fun part hpart => ?_
  obtain ⟨p, _, rfl⟩ := List.mem_map.mp hpart
  exact Xml.bare_append.mpr ⟨bare_num _, Xml.bare_cons.mpr ⟨by decide, bare_num _⟩⟩

theorem bare_pair (p : Point Float) : Xml.Bare (pair p) :=
  Xml.bare_append.mpr ⟨bare_num _, Xml.bare_cons.mpr ⟨by decide, bare_num _⟩⟩

theorem bare_pathStep (step : PathStep Float) : Xml.Bare (pathStep step) := by
  have hblank : Xml.escapeChar ' ' = [' '] := by decide
  cases step with
  | close => exact show Xml.Bare ['Z'] by decide
  | move target => exact Xml.bare_cons.mpr ⟨by decide, Xml.bare_cons.mpr ⟨hblank, bare_pair target⟩⟩
  | line target => exact Xml.bare_cons.mpr ⟨by decide, Xml.bare_cons.mpr ⟨hblank, bare_pair target⟩⟩
  | quadratic control target =>
    refine Xml.bare_cons.mpr ⟨by decide, Xml.bare_cons.mpr ⟨hblank, Xml.bare_append.mpr ⟨bare_pair control, ?_⟩⟩⟩
    exact Xml.bare_cons.mpr ⟨hblank, bare_pair target⟩

theorem names_strokeAttributes (stroke : Option (Stroke Float)) :
    ((strokeAttributes stroke).map Xml.Attribute.name).Sublist
      ["stroke", "stroke-width", "stroke-opacity", "stroke-dasharray"] := by
  cases stroke with
  | none => exact show ["stroke"].Sublist _ by decide
  | some stroke =>
    rw [strokeAttributes]
    split_ifs <;> simp

theorem names_fillAttributes (fill : Option Color) :
    ((fillAttributes fill).map Xml.Attribute.name).Sublist ["fill", "fill-opacity"] := by
  cases fill with
  | none => exact show ["fill"].Sublist _ by decide
  | some fill =>
    rw [fillAttributes]
    split_ifs <;> simp

theorem names_paintAttributes (stroke : Option (Stroke Float)) (fill : Option Color) :
    ((paintAttributes stroke fill).map Xml.Attribute.name).Sublist
      (["stroke", "stroke-width", "stroke-opacity", "stroke-dasharray"] ++ ["fill", "fill-opacity"]) := by
  rw [paintAttributes, List.map_append]
  exact (names_strokeAttributes stroke).append (names_fillAttributes fill)

theorem bare_strokeAttributes (stroke : Option (Stroke Float)) :
    ∀ a ∈ strokeAttributes stroke, Xml.Bare a.value := by
  cases stroke with
  | none => decide
  | some stroke =>
    have hdash : Xml.Bare ([','].intercalate (stroke.dash.map num)) := by
      refine Xml.bare_intercalate (by decide) fun part hpart => ?_
      obtain ⟨x, _, rfl⟩ := List.mem_map.mp hpart
      exact bare_num x
    rw [strokeAttributes]
    split_ifs <;> simp [Color.bare_hex, bare_num, hdash]

theorem bare_fillAttributes (fill : Option Color) : ∀ a ∈ fillAttributes fill, Xml.Bare a.value := by
  cases fill with
  | none => decide
  | some fill =>
    rw [fillAttributes]
    split_ifs <;> simp [Color.bare_hex, bare_num]

theorem bare_paintAttributes (stroke : Option (Stroke Float)) (fill : Option Color) :
    ∀ a ∈ paintAttributes stroke fill, Xml.Bare a.value :=
  List.forall_mem_append.mpr ⟨bare_strokeAttributes stroke, bare_fillAttributes fill⟩

/-- An element that is written well, and in which escapes make no difference but to a font family and a content. -/
structure Proper (e : Xml.Element) : Prop extends e.Sound where
  bare : ∀ a ∈ e.attributes, a.name ≠ "font-family" → Xml.Bare a.value

theorem proper_painted {kind : String} {own paint : List Xml.Attribute} {content : Option (List Char)}
    (names paintNames : List String) (hkind : Xml.isName kind = true) (hnames : own.map Xml.Attribute.name = names)
    (hname : ∀ name ∈ names ++ paintNames, Xml.isName name = true) (hdistinct : (names ++ paintNames).Nodup)
    (hown : ∀ a ∈ own, a.name ≠ "font-family" → Xml.Bare a.value)
    (hpaint : (paint.map Xml.Attribute.name).Sublist paintNames) (hbare : ∀ a ∈ paint, Xml.Bare a.value) :
    Proper ⟨kind, own ++ paint, content⟩ where
  toSound := by
    refine Xml.Element.sound_of_sublist _ hkind hname hdistinct ?_
    rw [List.map_append, hnames]
    exact (List.Sublist.refl _).append hpaint
  bare := List.forall_mem_append.mpr ⟨hown, fun a ha _ => hbare a ha⟩

theorem proper_rectElement (corner : Point Float) (size : Size Float) {paint : List Xml.Attribute}
    (hpaint : (paint.map Xml.Attribute.name).Sublist
      (["stroke", "stroke-width", "stroke-opacity", "stroke-dasharray"] ++ ["fill", "fill-opacity"]))
    (hbare : ∀ a ∈ paint, Xml.Bare a.value) : Proper (rectElement corner size paint) :=
  proper_painted ["x", "y", "width", "height"] _ (by decide) rfl (by decide) (by decide) (by simp [bare_num])
    hpaint hbare

theorem proper_pointsElement {kind : String} (hkind : Xml.isName kind = true) (points : List (Point Float))
    (stroke : Option (Stroke Float)) (fill : Option Color) :
    Proper ⟨kind, [⟨"points", pointList points⟩] ++ paintAttributes stroke fill, none⟩ :=
  proper_painted ["points"] _ hkind rfl (by decide) (by decide) (by simp [bare_pointList])
    (names_paintAttributes stroke fill) (bare_paintAttributes stroke fill)

theorem proper_element {call : Call Float} {e : Xml.Element} (h : element? call = some e) : Proper e := by
  cases call with
  | setSize size => contradiction
  | close => contradiction
  | line start stop stroke =>
    obtain rfl := Option.some.inj h
    exact proper_painted ["x1", "y1", "x2", "y2"] _ (by decide) rfl (by decide) (by decide) (by simp [bare_num])
      (names_strokeAttributes _) (bare_strokeAttributes _)
  | rect corner size stroke fill =>
    obtain rfl := Option.some.inj h
    exact proper_rectElement corner size (names_paintAttributes _ _) (bare_paintAttributes _ _)
  | circle center radius stroke fill =>
    obtain rfl := Option.some.inj h
    exact proper_painted ["cx", "cy", "r"] _ (by decide) rfl (by decide) (by decide) (by simp [bare_num])
      (names_paintAttributes _ _) (bare_paintAttributes _ _)
  | text corner content style =>
    obtain rfl := Option.some.inj h
    refine proper_painted ["x", "y", "font-family", "font-size", "fill"] ["font-weight"] (by decide) rfl (by decide)
      (by decide) (by simp [bare_num, Color.bare_hex]) ?_ ?_
    · split_ifs <;> simp
    · split_ifs <;> decide
  | polygon points stroke fill =>
    obtain rfl := Option.some.inj h
    exact proper_pointsElement (by decide) points _ _
  | polyline points stroke =>
    obtain rfl := Option.some.inj h
    exact proper_pointsElement (by decide) points _ _
  | path steps stroke fill =>
    obtain rfl := Option.some.inj h
    have hsteps : Xml.Bare ([' '].intercalate (steps.map pathStep)) := by
      refine Xml.bare_intercalate (by decide) fun part hpart => ?_
      obtain ⟨step, _, rfl⟩ := List.mem_map.mp hpart
      exact bare_pathStep step
    change Proper ⟨"path", [⟨"d", _⟩] ++ paintAttributes stroke fill, none⟩
    exact proper_painted ["d"] _ (by decide) rfl (by decide) (by decide) (by simp [hsteps])
      (names_paintAttributes _ _) (bare_paintAttributes _ _)

theorem proper_backgroundElement (size : Size Float) (color : Color) : Proper (backgroundElement size color) :=
  proper_rectElement _ size (by simp) (by simp [Color.bare_hex])

end Sheet

end SequenceChart

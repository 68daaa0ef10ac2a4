import Mathlib.Data.List.Basic
import SequenceChart.Chart.Config

/-! What instructions make of a configuration. Each sets one of three fields, if it gives a value that fits there, and
for each field the last one to do so wins. -/

namespace SequenceChart

/-- Whether a value is the one that the last of some elements to give one gives, or the one that there was if none
gives any. -/
inductive LastGiven {ι β : Type} (given? : ι → Option β) (kept : β) : List ι → β → Prop
  | none {elements : List ι} : (∀ x ∈ elements, given? x = none) → LastGiven given? kept elements kept
  | some {earlier later : List ι} {x : ι} {value : β} :
      given? x = some value → (∀ y ∈ later, given? y = none) → LastGiven given? kept (earlier ++ x :: later) value

section Latest

variable {ι β : Type} {given? : ι → Option β}

def latest (given? : ι → Option β) (kept : β) (elements : List ι) : β :=
  elements.foldl (fun value x => (given? x).getD value) kept

theorem lastGiven_latest (kept : β) (elements : List ι) :
    LastGiven given? kept elements (latest given? kept elements) := by
  induction elements generalizing kept with
  | nil => exact .none nofun
  | cons x elements ih =>
    have hlater := ih ((given? x).getD kept)
    change LastGiven given? kept (x :: elements) (latest given? ((given? x).getD kept) elements)
    generalize latest given? ((given? x).getD kept) elements = value at hlater ⊢
    cases hlater with
    | some hvalue hnone => exact @LastGiven.some _ _ given? kept (x :: _) _ _ _ hvalue hnone
    | none hnone =>
      -- What the later ones keep is what the first one gave, if it gave anything.
      cases hx : given? x with
      | none => exact .none (List.forall_mem_cons.mpr ⟨hx, hnone⟩)
      | some value => exact @LastGiven.some _ _ given? kept [] _ _ _ hx hnone

theorem latest_filter {p : ι → Bool} (h : ∀ x, p x = false → given? x = none) (kept : β) (elements : List ι) :
    latest given? kept (elements.filter p) = latest given? kept elements := by
  unfold latest
  rw [List.foldl_filter]
  congr 1
  funext value x
  cases hx : p x with
  | false => rw [h x hx]; rfl
  | true => rfl

end Latest

namespace Config

variable {α : Type} [Length α]

/-- The length that a value is read as. Great ones may be infinite; by a name no infinity is a length. -/
def parsed? (value : String) : Option α :=
  match Numeral.read? value.toList with
  | some (.decimal negative digits exponent) => some (Length.ofDecimal negative digits exponent)
  | _ => none

def fontSize? (setting : Instruction) : Option α :=
  if Text.foldCase setting.name = "font-size" then
    (parsed? setting.value).filter fun size => Length.isFinite size = true ∧ (0.0 : α) < size
  else none

def margin? (setting : Instruction) : Option α :=
  if Text.foldCase setting.name = "margin" then
    (parsed? setting.value).filter fun margin => Length.isFinite margin = true ∧ (0.0 : α) ≤ margin
  else none

def style? (setting : Instruction) : Option Style :=
  if Text.foldCase setting.name = "style" then Style.ofName? setting.value else none

theorem pos_of_fontSize? {setting : Instruction} {size : α} (h : fontSize? setting = some size) : (0.0 : α) < size := by
  unfold fontSize? at h
  split_ifs at h
  exact (of_decide_eq_true (Option.filter_eq_some_iff.mp h).2).2

theorem nonneg_of_margin? {setting : Instruction} {margin : α} (h : margin? setting = some margin) :
    (0.0 : α) ≤ margin := by
  unfold margin? at h
  split_ifs at h
  exact (of_decide_eq_true (Option.filter_eq_some_iff.mp h).2).2

theorem length?_eq (value : String) : (length? value : Option α) = (parsed? value).filter Length.isFinite := by
  unfold length? parsed?
  cases Numeral.read? value.toList with
  | none => rfl
  | some numeral => cases numeral <;> rfl

theorem filter_length? (value : String) (p : α → Prop) [DecidablePred p] :
    (length? value).filter p = (parsed? value).filter fun x => Length.isFinite x = true ∧ p x := by
  rw [length?_eq, Option.filter_filter]
  simp [Bool.and_comm]

theorem instruct_eq (c : Config α) (setting : Instruction) :
    c.instruct setting = { c with
      fontSize := (fontSize? setting).getD c.fontSize
      margin := (margin? setting).getD c.margin
      style := (style? setting).getD c.style } := by
  unfold instruct fontSize? margin? style?
  simp only [← filter_length?]
  generalize Text.foldCase setting.name = word
  by_cases hstyle : word = "style"
  · subst hstyle
    cases Style.ofName? setting.value <;> simp
  by_cases hsize : word = "font-size"
  · subst hsize
    cases hlength : (length? setting.value : Option α) with
    | none => simp
    | some size => by_cases hpos : (0.0 : α) < size <;> simp [Option.filter, hpos]
  by_cases hmargin : word = "margin"
  · subst hmargin
    cases hlength : (length? setting.value : Option α) with
    | none => simp
    | some margin => by_cases hnonneg : (0.0 : α) ≤ margin <;> simp [Option.filter, hnonneg]
  · simp [hstyle, hsize, hmargin]

theorem withInstructions_eq (c : Config α) (settings : List Instruction) :
    c.withInstructions settings = { c with
      fontSize := latest fontSize? c.fontSize settings
      margin := latest margin? c.margin settings
      style := latest style? c.style settings } := by
  induction settings generalizing c with
  | nil => rfl
  | cons setting later ih =>
    change (c.instruct setting).withInstructions later = _
    rw [ih, instruct_eq]
    rfl

end Config

/-- Whether instructions stand in another order, while those of one name, in any letter case, keep theirs. -/
def Reordered (settings reordered : List Instruction) : Prop :=
  ∀ word, reordered.filter (fun setting => Text.foldCase setting.name = word) =
    settings.filter fun setting => Text.foldCase setting.name = word

namespace Reordered

variable {settings reordered : List Instruction}

theorem swap {a b : Instruction} (h : Text.foldCase a.name ≠ Text.foldCase b.name) (earlier later : List Instruction) :
    Reordered (earlier ++ a :: b :: later) (earlier ++ b :: a :: later) := by
  intro word
  simp only [List.filter_append, List.filter_cons, decide_eq_true_eq]
  congr 1
  split_ifs with hb ha <;> first | rfl | exact absurd (ha.trans hb.symm) h

theorem latest_eq (h : Reordered settings reordered) {β : Type} {given? : Instruction → Option β} {word : String}
    (hword : ∀ setting, Text.foldCase setting.name ≠ word → given? setting = none) (kept : β) :
    latest given? kept reordered = latest given? kept settings := by
  have hother : ∀ setting : Instruction, decide (Text.foldCase setting.name = word) = false → given? setting = none :=
    fun setting hsetting => hword setting (of_decide_eq_false hsetting)
  rw [← latest_filter hother, h word, latest_filter hother]

end Reordered

namespace Config

variable {α : Type} [Length α]

/-- Instructions set three fields, each to the last value that fits there, and leave all others as they were; how
instructions of different names are mixed has no part in that. -/
theorem withInstructions_lastGiven (c : Config α) (settings : List Instruction) :
    (∃ fontSize margin style, c.withInstructions settings = { c with fontSize, margin, style } ∧
      LastGiven fontSize? c.fontSize settings fontSize ∧ LastGiven margin? c.margin settings margin ∧
      LastGiven style? c.style settings style) ∧
    ∀ reordered, Reordered settings reordered → c.withInstructions reordered = c.withInstructions settings := by
  refine ⟨⟨_, _, _, withInstructions_eq c settings, lastGiven_latest .., lastGiven_latest .., lastGiven_latest ..⟩,
    fun reordered hreordered => ?_⟩
  have hsize : latest fontSize? c.fontSize reordered = latest fontSize? c.fontSize settings :=
    hreordered.latest_eq (fun _ h => if_neg h) _
  have hmargin : latest margin? c.margin reordered = latest margin? c.margin settings :=
    hreordered.latest_eq (fun _ h => if_neg h) _
  have hstyle : latest style? c.style reordered = latest style? c.style settings :=
    hreordered.latest_eq (fun _ h => if_neg h) _
  rw [withInstructions_eq, withInstructions_eq, hsize, hmargin, hstyle]

def mixedSample : List Instruction := [⟨"margin", "5"⟩, ⟨"Font-Size", "14"⟩, ⟨"MARGIN", "-1"⟩]

/-- The last margin is a numeral, but too great for a finite number. -/
def hugeSample : List Instruction := [⟨"margin", "5"⟩, ⟨"margin", "1e999"⟩]

theorem withInstructions_lastGiven_mixedSample :
    Reordered mixedSample [⟨"Font-Size", "14"⟩, ⟨"margin", "5"⟩, ⟨"MARGIN", "-1"⟩] ∧
    (standard.withInstructions mixedSample : Config Rat) = { standard with margin := 5, fontSize := 14 } ∧
    (standard.withInstructions [⟨"Font-Size", "14"⟩, ⟨"margin", "5"⟩, ⟨"MARGIN", "-1"⟩] : Config Rat) =
      { standard with margin := 5, fontSize := 14 } ∧
    (parsed? "1e999" : Option Float).isSome = true ∧
    ∃ margin, margin? ⟨"margin", "5"⟩ = some margin ∧
      (standard.withInstructions hugeSample : Config Float) = { standard with margin } := by
  have hreordered := @Reordered.swap ⟨"margin", "5"⟩ ⟨"Font-Size", "14"⟩ (by decide) [] [⟨"MARGIN", "-1"⟩]
  have hvalue : (standard.withInstructions mixedSample : Config Rat) =
      { standard with margin := 5, fontSize := 14 } := by
    have hmargin : latest margin? 10.0 mixedSample = (5 : Rat) := by decide +kernel
    have hsize : latest fontSize? 12.0 mixedSample = (14 : Rat) := by decide +kernel
    rw [withInstructions_eq, ← hmargin, ← hsize]
    congr 1
  have hhuge : (margin? ⟨"margin", "1e999"⟩ : Option Float).isNone = true := by decide +kernel
  have hgiven : (margin? ⟨"margin", "5"⟩ : Option Float).isSome = true := by decide +kernel
  obtain ⟨margin, hmargin⟩ := Option.isSome_iff_exists.mp hgiven
  refine ⟨hreordered, hvalue, ((withInstructions_lastGiven standard _).2 _ hreordered).trans hvalue, by decide +kernel,
    margin, hmargin, ?_⟩
  rw [withInstructions_eq]
  simp only [latest, hugeSample, List.foldl_cons, List.foldl_nil, hmargin, Option.isNone_iff_eq_none.mp hhuge,
    Option.getD_some, Option.getD_none]
  congr 1

end Config

end SequenceChart

import SequenceChart.Proofs.Grid.Satisfied

/-! Spans on a grid. A span widens all gaps between its places by the same share of what is missing, along each axis
for itself; it does not matter which of the places it starts from, and a second time it finds nothing missing. -/

namespace SequenceChart

namespace Gaps

/-- What a span between two numbers makes of the gaps of an axis: the numbers come to be so far apart if they were
closer, all gaps between them take the same share of it, and other gaps none. -/
structure Widened (gaps wider : Gaps Rat) (start stop : Nat) (length : Rat) : Prop where
  distance : start ≠ stop → ∀ origin, |position origin wider start - position origin wider stop| =
    max |position origin gaps start - position origin gaps stop| length
  even : ∃ share, 0 ≤ share ∧ ∀ i, min start stop < i ∧ i ≤ max start stop → wider i = gaps i + share
  rest : ∀ i, ¬(min start stop < i ∧ i ≤ max start stop) → wider i = gaps i

theorem widened_apply_span {gaps : Gaps Rat} (hgaps : ∀ i, 0 ≤ gaps i) {last start stop : Nat}
    (hwithin : start ≤ last ∧ stop ≤ last) (length : Rat) :
    gaps.Widened (apply last gaps (.span start stop length)) start stop length := by
  have hspan := apply_span hgaps hwithin length
  constructor
  case distance =>
    intro hapart origin
    have hwider : ∀ i, 0 ≤ apply last gaps (.span start stop length) i := fun i =>
      (hgaps i).trans (le_apply hgaps (c := .span start stop length) hwithin trivial i)
    rw [abs_position_sub origin hwider, abs_position_sub origin hgaps]
    exact sum_spread hgaps (nodup_between start stop) (le_of_mem_between hwithin) (between_ne_nil hapart) length
  case even =>
    refine ⟨deficit gaps (Grid.between start stop) length, deficit_nonneg _ _ _, fun i hi => ?_⟩
    rw [hspan]
    exact if_pos (mem_between.mpr hi)
  case rest =>
    intro i hi
    rw [hspan]
    exact if_neg (mt mem_between.mp hi)

theorem share?_eq_none_of_holds {gaps : Gaps Rat} {start stop : Nat} {length : Rat}
    (h : (AxisConstraint.span start stop length).Holds gaps) :
    Grid.share? ((Grid.between start stop).map gaps) length = none := by
  rw [share?_eq, if_neg]
  rintro ⟨hne, hshort⟩
  have hapart : start ≠ stop := by
    rintro rfl
    rw [between_self] at hne
    exact hne rfl
  exact not_le_of_gt hshort (h (.inl hapart))

end Gaps

namespace Grid

theorem between_comm (a b : Nat) : between a b = between b a := by
  rw [between, between, Nat.min_comm, Nat.max_comm]

section Zero

variable {α : Type} [Length α] (hzero : ((0.0 : α) == 0.0) = true)

include hzero

theorem floor_horizontal (g : Grid α) (row other col : Nat) (left : α) :
    g.floor ⟨row, col⟩ (.horizontal left 0.0) = g.floor ⟨other, col⟩ (.horizontal left 0.0) := by
  simp only [floor, updateSides, Sides.horizontal, hzero, if_true]

theorem floor_vertical (g : Grid α) (row col other : Nat) (top : α) :
    g.floor ⟨row, col⟩ (.vertical top 0.0) = g.floor ⟨row, other⟩ (.vertical top 0.0) := by
  simp only [floor, updateSides, Sides.vertical, hzero, if_true]

theorem spanCols_comm (g : Grid α) (start stop : GridPos) (width : α) :
    g.spanCols start stop width = g.spanCols stop start width := by
  unfold spanCols
  simp only [between_comm start.col, floor_horizontal hzero _ start.row stop.row]

theorem spanRows_comm (g : Grid α) (start stop : GridPos) (height : α) :
    g.spanRows start stop height = g.spanRows stop start height := by
  unfold spanRows
  simp only [between_comm start.row, floor_vertical hzero _ _ start.col stop.col]

theorem apply_span_comm (g : Grid α) (start stop : GridPos) (size : Size α) :
    g.apply (.span start stop size) = g.apply (.span stop start size) := by
  rw [apply, apply, spanCols_comm hzero, spanRows_comm hzero]

end Zero

theorem apply_span_eq_self {g : Grid Rat} {start stop : GridPos} {size : Size Rat}
    (hcols : (AxisConstraint.span start.col stop.col size.width).Holds g.colGap)
    (hrows : (AxisConstraint.span start.row stop.row size.height).Holds g.rowGap) :
    g.apply (.span start stop size) = g := by
  have hwidth : g.spanCols start stop size.width = g := by
    unfold spanCols
    simp only [Gaps.share?_eq_none_of_holds hcols]
  have hheight : g.spanRows start stop size.height = g := by
    unfold spanRows
    simp only [Gaps.share?_eq_none_of_holds hrows]
  rw [apply, hwidth, hheight]

theorem nonneg_constrained {rows cols : Nat} {constraints : List (Constraint Rat)}
    (hgrid : ∀ c ∈ constraints, c.InGrid rows cols) (hwidens : ∀ c ∈ constraints, c.Widens) :
    (∀ i, 0 ≤ (constrained rows cols constraints).colGap i) ∧
      ∀ i, 0 ≤ (constrained rows cols constraints).rowGap i := by
  have hzero : ((0.0 : Rat) == 0.0) = true := beq_self_eq_true _
  have hcols : Gaps.Reach cols _ (constraints.map Constraint.horizontal) :=
    Gaps.reach_run (List.forall_mem_map.mpr fun c hc => Constraint.within_horizontal (hgrid c hc))
      (List.forall_mem_map.mpr fun c hc => Constraint.widens_horizontal (hwidens c hc))
  have hrows : Gaps.Reach rows _ (constraints.map Constraint.vertical) :=
    Gaps.reach_run (List.forall_mem_map.mpr fun c hc => Constraint.within_vertical (hgrid c hc))
      (List.forall_mem_map.mpr fun c hc => Constraint.widens_vertical (hwidens c hc))
  rw [constrained, colGap_foldl_apply hzero, rowGap_foldl_apply hzero, colGap_empty, rowGap_empty, Gaps.zero_eq]
  exact ⟨hcols.nonneg, hrows.nonneg⟩

/-- A span between two places of a grid whose gaps are not negative is exact, even and idempotent. Along each axis
the places come to be as far apart as it asks if they were closer, by the same share for every gap between them; all
other gaps stay, those behind the last column and row among them. From the other end it does the same, and once more
it does nothing. -/
theorem apply_span_exact (g : Grid Rat) (hcols : ∀ i, 0 ≤ g.colGap i) (hrows : ∀ i, 0 ≤ g.rowGap i)
    {start stop : GridPos} (hstart : g.Contains start) (hstop : g.Contains stop) (size : Size Rat) :
    let after := g.apply (.span start stop size)
    (Gaps.Widened g.colGap after.colGap start.col stop.col size.width ∧
      Gaps.Widened g.rowGap after.rowGap start.row stop.row size.height) ∧
    ((after.rows = g.rows ∧ after.cols = g.cols) ∧ after.trailing = g.trailing) ∧
    g.apply (.span stop start size) = after ∧ after.apply (.span start stop size) = after := by
  intro after
  have hzero : ((0.0 : Rat) == 0.0) = true := beq_self_eq_true _
  have hcolWithin : start.col ≤ g.cols ∧ stop.col ≤ g.cols := ⟨hstart.2, hstop.2⟩
  have hrowWithin : start.row ≤ g.rows ∧ stop.row ≤ g.rows := ⟨hstart.1, hstop.1⟩
  have hcolGap : after.colGap = Gaps.apply g.cols g.colGap (.span start.col stop.col size.width) :=
    colGap_apply hzero g _
  have hrowGap : after.rowGap = Gaps.apply g.rows g.rowGap (.span start.row stop.row size.height) :=
    rowGap_apply hzero g _
  have hcolumns : Gaps.Widened g.colGap after.colGap start.col stop.col size.width :=
    hcolGap ▸ Gaps.widened_apply_span hcols hcolWithin size.width
  have hlines : Gaps.Widened g.rowGap after.rowGap start.row stop.row size.height :=
    hrowGap ▸ Gaps.widened_apply_span hrows hrowWithin size.height
  have hsize : after.rows = g.rows ∧ after.cols = g.cols := size_apply g _
  have hdx : after.trailing.dx = g.trailing.dx := by
    rw [← colGap_of_lt after (by omega : after.cols < g.cols + 1), ← colGap_of_lt g (Nat.lt_succ_self g.cols)]
    exact hcolumns.rest _ (by omega)
  have hdy : after.trailing.dy = g.trailing.dy := by
    rw [← rowGap_of_lt after (by omega : after.rows < g.rows + 1), ← rowGap_of_lt g (Nat.lt_succ_self g.rows)]
    exact hlines.rest _ (by omega)
  refine ⟨⟨hcolumns, hlines⟩, ⟨hsize, ?_⟩, apply_span_comm hzero g stop start size, ?_⟩
  · exact congrArg₂ Delta.mk hdx hdy
  · refine apply_span_eq_self ?_ ?_
    · rw [hcolGap]
      exact Gaps.holds_apply hcols (c := .span start.col stop.col size.width) hcolWithin
    · rw [hrowGap]
      exact Gaps.holds_apply hrows (c := .span start.row stop.row size.height) hrowWithin

def gappedSample : List (Constraint Rat) := [.floor ⟨1, 1⟩ ⟨4, 7, 2, 0⟩, .add ⟨2, 3⟩ ⟨1, 5, 0, 6⟩]

theorem apply_span_exact_gappedSample :
    let g := constrained 2 3 gappedSample
    let after := g.apply (.span ⟨2, 3⟩ ⟨0, 1⟩ ⟨20, 1⟩)
    ((∀ i, 0 ≤ g.colGap i) ∧ (∀ i, 0 ≤ g.rowGap i) ∧ g.Contains ⟨2, 3⟩ ∧ g.Contains ⟨0, 1⟩) ∧
    (|Gaps.position 0 after.colGap 3 - Gaps.position 0 after.colGap 1| = 20 ∧
      after.colGap 1 = 4 ∧ after.trailing = ⟨5, 6⟩) ∧
    g.apply (.span ⟨0, 1⟩ ⟨2, 3⟩ ⟨20, 1⟩) = after ∧ after.apply (.span ⟨2, 3⟩ ⟨0, 1⟩ ⟨20, 1⟩) = after := by
  intro g after
  have hgrid : ∀ c ∈ gappedSample, c.InGrid 2 3 := by decide +kernel
  have hwidens : ∀ c ∈ gappedSample, c.Widens := by decide +kernel
  obtain ⟨hcols, hrows⟩ := nonneg_constrained hgrid hwidens
  have hstart : g.Contains ⟨2, 3⟩ := by decide +kernel
  have hstop : g.Contains ⟨0, 1⟩ := by decide +kernel
  obtain ⟨⟨hcolumns, -⟩, ⟨-, htrailing⟩, hcomm, hagain⟩ := apply_span_exact g hcols hrows hstart hstop ⟨20, 1⟩
  have hbefore : |Gaps.position 0 g.colGap 3 - Gaps.position 0 g.colGap 1| = 8 := by decide +kernel
  have hfirst : g.colGap 1 = 4 := by decide +kernel
  have hbehind : g.trailing = ⟨5, 6⟩ := by decide +kernel
  refine ⟨⟨hcols, hrows, hstart, hstop⟩, ⟨?_, ?_, htrailing.trans hbehind⟩, hcomm, hagain⟩
  · rw [hcolumns.distance (by decide), hbefore]
    norm_num
  · rw [hcolumns.rest 1 (by decide), hfirst]

end Grid

end SequenceChart

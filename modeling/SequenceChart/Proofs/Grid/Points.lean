import SequenceChart.Grid.Graphic
import SequenceChart.Proofs.Grid.Sweeps

/-! Points of a resolved grid. Every point lies where the gaps before its column and before its row add up
to, from the margin on; the gaps behind the last ones and the margin complete the size of the picture. -/

namespace SequenceChart

namespace Gaps

variable {α : Type} [Length α]

def position (start : α) (gaps : Gaps α) : Nat → α
  | 0 => start + gaps 0
  | i + 1 => position start gaps i + gaps (i + 1)

theorem reached_succ (start : α) (gaps : Gaps α) (i : Nat) : reached start gaps (i + 1) = position start gaps i := by
  induction i with
  | zero => rfl
  | succ i ih => rw [reached, ih, position]

theorem position_congr {start : α} {gaps other : Gaps α} {i : Nat} (h : ∀ j ≤ i, gaps j = other j) :
    position start gaps i = position start other i := by
  rw [← reached_succ, ← reached_succ, reached_congr fun j hj => h j (Nat.le_of_lt_succ hj)]

theorem reached_eq_position {start : α} {gaps other : Gaps α} {i : Nat} (h : ∀ j ≤ i, gaps j = other j) :
    reached start gaps (i + 1) = position start other i := by
  rw [reached_succ, position_congr h]

end Gaps

namespace Grid

variable {α : Type} [Length α]

theorem colGap_of_le (g : Grid α) {col : Nat} (h : col ≤ g.cols) : g.colGap col = (g.cell 0 col).delta.dx := by
  rw [colGap, colSlot, if_neg (Nat.not_lt.mpr h)]
  rfl

theorem colGap_of_lt (g : Grid α) {col : Nat} (h : g.cols < col) : g.colGap col = g.trailing.dx := by
  rw [colGap, colSlot, if_pos h]
  rfl

theorem rowGap_of_le (g : Grid α) {row : Nat} (h : row ≤ g.rows) : g.rowGap row = (g.cell row 0).delta.dy := by
  rw [rowGap, rowSlot, if_neg (Nat.not_lt.mpr h)]
  rfl

theorem rowGap_of_lt (g : Grid α) {row : Nat} (h : g.rows < row) : g.rowGap row = g.trailing.dy := by
  rw [rowGap, rowSlot, if_pos h]
  rfl

theorem cell_broadcast (g : Grid α) {row col : Nat} (hrow : row ≤ g.rows) (hcol : col ≤ g.cols) :
    g.broadcast.cell row col = ⟨(g.cell row col).point, g.colGap col, g.rowGap row⟩ := by
  rw [g.swept_broadcast.cell hrow hcol, colGap_of_le g hcol, rowGap_of_le g hrow]

theorem placedCell_broadcast (g : Grid α) (margin : α) {row col : Nat} (hrow : row ≤ g.rows) (hcol : col ≤ g.cols) :
    g.broadcast.placedCell margin row col =
      ⟨⟨Gaps.position margin g.colGap col, Gaps.position margin g.rowGap row⟩, g.colGap col, g.rowGap row⟩ := by
  have hx : Gaps.reached margin (fun c => (g.broadcast.cell row c).delta.dx) (col + 1) =
      Gaps.position margin g.colGap col :=
    Gaps.reached_eq_position fun c hc => by rw [cell_broadcast g hrow (Nat.le_trans hc hcol)]
  have hy : Gaps.reached margin (fun r => (g.broadcast.cell r 0).delta.dy) (row + 1) =
      Gaps.position margin g.rowGap row :=
    Gaps.reached_eq_position fun r hr => by rw [cell_broadcast g (Nat.le_trans hr hrow) (Nat.zero_le _)]
  rw [placedCell, hx, hy, cell_broadcast g hrow hcol]

theorem reach_broadcast (g : Grid α) (margin : α) {row : Nat} (hrow : row ≤ g.rows) :
    g.broadcast.reach margin (row + 1) = max margin (Gaps.position margin g.colGap g.cols) := by
  have hlast : ∀ r ≤ g.rows, Gaps.reached margin (fun c => (g.broadcast.cell r c).delta.dx) (g.broadcast.cols + 1) =
      Gaps.position margin g.colGap g.cols := by
    intro r hr
    rw [g.swept_broadcast.cols]
    exact Gaps.reached_eq_position fun c hc => by rw [cell_broadcast g hr hc]
  induction row with
  | zero =>
    rw [reach_succ, hlast 0 hrow]
    rfl
  | succ row ih => rw [reach_succ, ih (Nat.le_of_succ_le hrow), hlast _ hrow, Length.max_max_right]

/-- A grid whose gaps are copied and then added up has a point for every column and every row. -/
theorem swept_place_broadcast (g : Grid α) (margin : α) : g.Swept (g.broadcast.place margin).1 fun row col =>
    ⟨⟨Gaps.position margin g.colGap col, Gaps.position margin g.rowGap row⟩, g.colGap col, g.rowGap row⟩ := by
  have hplace := (swept_place g.broadcast margin).1
  have hrows := g.swept_broadcast.rows
  have hcols := g.swept_broadcast.cols
  refine ⟨hplace.rows.trans hrows, hplace.cols.trans hcols, hplace.trailing.trans g.swept_broadcast.trailing,
    fun hrow hcol => ?_⟩
  rw [hplace.cell (hrows ▸ hrow) (hcols ▸ hcol), placedCell_broadcast g margin hrow hcol]

theorem size_place_broadcast (g : Grid α) (margin : α) : (g.broadcast.place margin).2 =
    ⟨max margin (Gaps.position margin g.colGap g.cols) + g.trailing.dx + margin,
      Gaps.position margin g.rowGap g.rows + g.trailing.dy + margin⟩ := by
  have hbottom : Gaps.reached margin (fun r => (g.broadcast.cell r 0).delta.dy) (g.rows + 1) =
      Gaps.position margin g.rowGap g.rows :=
    Gaps.reached_eq_position fun r hr => by rw [cell_broadcast g hr (Nat.zero_le _)]
  rw [(swept_place g.broadcast margin).2, g.swept_broadcast.rows, g.swept_broadcast.trailing,
    reach_broadcast g margin (Nat.le_refl _), hbottom]

def constrained (rows cols : Nat) (constraints : List (Constraint α)) : Grid α :=
  constraints.foldl apply (empty rows cols)

theorem rows_constrained (rows cols : Nat) (constraints : List (Constraint α)) :
    (constrained rows cols constraints).rows = rows :=
  (size_foldl_apply (empty rows cols) constraints).1

theorem cols_constrained (rows cols : Nat) (constraints : List (Constraint α)) :
    (constrained rows cols constraints).cols = cols :=
  (size_foldl_apply (empty rows cols) constraints).2

theorem clear_eq (g : Grid α) : g.clear = empty g.rows g.cols := by
  unfold clear empty
  congr 1
  rw [Array.map_const', g.size_cells]

theorem resolve_eq (g : Grid α) (margin : α) (constraints : List (Constraint α)) :
    g.resolve margin constraints = (constrained g.rows g.cols constraints).broadcast.place margin := by
  unfold resolve
  rw [clear_eq]
  rfl

theorem rows_resolve (g : Grid α) (margin : α) (constraints : List (Constraint α)) :
    (g.resolve margin constraints).1.rows = g.rows := by
  rw [resolve_eq, (swept_place_broadcast _ margin).rows, rows_constrained]

theorem cols_resolve (g : Grid α) (margin : α) (constraints : List (Constraint α)) :
    (g.resolve margin constraints).1.cols = g.cols := by
  rw [resolve_eq, (swept_place_broadcast _ margin).cols, cols_constrained]

/-- Every cell of a resolved grid has the point and the distances of its own column and row. -/
theorem cell_resolve (g : Grid α) (margin : α) (constraints : List (Constraint α)) (row col : Nat) :
    (g.resolve margin constraints).1.cell (min row g.rows) (min col g.cols) =
      ⟨⟨Gaps.position margin (constrained g.rows g.cols constraints).colGap (min col g.cols),
        Gaps.position margin (constrained g.rows g.cols constraints).rowGap (min row g.rows)⟩,
        (constrained g.rows g.cols constraints).colGap (min col g.cols),
        (constrained g.rows g.cols constraints).rowGap (min row g.rows)⟩ := by
  have hrows := Nat.le_of_eq (rows_constrained g.rows g.cols constraints).symm
  have hcols := Nat.le_of_eq (cols_constrained g.rows g.cols constraints).symm
  rw [resolve_eq, (swept_place_broadcast _ margin).cell (Nat.le_trans (Nat.min_le_right row g.rows) hrows)
    (Nat.le_trans (Nat.min_le_right col g.cols) hcols)]

theorem point_resolve (g : Grid α) (margin : α) (constraints : List (Constraint α)) (row col : Nat) :
    (g.resolve margin constraints).1.point row col =
      ⟨Gaps.position margin (constrained g.rows g.cols constraints).colGap (min col g.cols),
        Gaps.position margin (constrained g.rows g.cols constraints).rowGap (min row g.rows)⟩ := by
  rw [point, rows_resolve, cols_resolve, cell_resolve]

theorem delta_resolve (g : Grid α) (margin : α) (constraints : List (Constraint α)) (row col : Nat) :
    (g.resolve margin constraints).1.delta row col =
      ⟨(constrained g.rows g.cols constraints).colGap (min col g.cols),
        (constrained g.rows g.cols constraints).rowGap (min row g.rows)⟩ := by
  rw [delta, rows_resolve, cols_resolve, cell_resolve]

theorem trailing_constrained (rows cols : Nat) (constraints : List (Constraint α)) :
    (constrained rows cols constraints).trailing =
      ⟨(constrained rows cols constraints).colGap (cols + 1),
        (constrained rows cols constraints).rowGap (rows + 1)⟩ := by
  have hcols := cols_constrained rows cols constraints
  have hrows := rows_constrained rows cols constraints
  rw [colGap_of_lt _ (by omega), rowGap_of_lt _ (by omega)]

theorem trailing_resolve (g : Grid α) (margin : α) (constraints : List (Constraint α)) :
    (g.resolve margin constraints).1.trailing =
      ⟨(constrained g.rows g.cols constraints).colGap (g.cols + 1),
        (constrained g.rows g.cols constraints).rowGap (g.rows + 1)⟩ := by
  rw [resolve_eq, (swept_place_broadcast _ margin).trailing, trailing_constrained]

theorem size_resolve (g : Grid α) (margin : α) (constraints : List (Constraint α)) :
    (g.resolve margin constraints).2 =
      ⟨max margin (Gaps.position margin (constrained g.rows g.cols constraints).colGap g.cols) +
          (constrained g.rows g.cols constraints).colGap (g.cols + 1) + margin,
        Gaps.position margin (constrained g.rows g.cols constraints).rowGap g.rows +
          (constrained g.rows g.cols constraints).rowGap (g.rows + 1) + margin⟩ := by
  rw [resolve_eq, size_place_broadcast, rows_constrained, cols_constrained, trailing_constrained]

end Grid

namespace Graphic

variable {σ α : Type} [Length α] [GridItem σ α]

/-- The grid under all that the items ask for, before any of its cells has a point. -/
def packed (g : Graphic σ α) : Grid α := g.constraints.foldl Grid.apply g.grid.clear

def packedCols (g : Graphic σ α) : Gaps α := fun col => (g.packed.cell 0 col).delta.dx

def packedRows (g : Graphic σ α) : Gaps α := fun row => (g.packed.cell row 0).delta.dy

theorem rows_packed (g : Graphic σ α) : g.packed.rows = g.grid.rows := (Grid.size_foldl_apply g.grid.clear _).1

theorem cols_packed (g : Graphic σ α) : g.packed.cols = g.grid.cols := (Grid.size_foldl_apply g.grid.clear _).2

theorem packedCols_eq (g : Graphic σ α) {col : Nat} (h : col ≤ g.grid.cols) : g.packed.colGap col = g.packedCols col :=
  Grid.colGap_of_le _ (g.cols_packed ▸ h)

theorem packedRows_eq (g : Graphic σ α) {row : Nat} (h : row ≤ g.grid.rows) : g.packed.rowGap row = g.packedRows row :=
  Grid.rowGap_of_le _ (g.rows_packed ▸ h)

theorem position_packedCols (g : Graphic σ α) {col : Nat} (h : col ≤ g.grid.cols) :
    Gaps.position g.margin g.packed.colGap col = Gaps.position g.margin g.packedCols col :=
  Gaps.position_congr fun _ hle => g.packedCols_eq (Nat.le_trans hle h)

theorem position_packedRows (g : Graphic σ α) {row : Nat} (h : row ≤ g.grid.rows) :
    Gaps.position g.margin g.packed.rowGap row = Gaps.position g.margin g.packedRows row :=
  Gaps.position_congr fun _ hle => g.packedRows_eq (Nat.le_trans hle h)

/-- Resolved, a graphic of any size has in every cell the gap of its column and the gap of its row, and the point where
these and the ones before them end when they are added one by one from the margin on. The gaps behind the last cell and
the margin complete the picture, in which no last column counts as being on the left of the margin. -/
theorem resolve_separates (g : Graphic σ α) :
    (g.resolve.1.grid.rows = g.grid.rows ∧ g.resolve.1.grid.cols = g.grid.cols) ∧
    (∀ (row : Fin (g.grid.rows + 1)) (col : Fin (g.grid.cols + 1)), g.resolve.1.grid.cell row col =
      ⟨⟨Gaps.position g.margin g.packedCols col, Gaps.position g.margin g.packedRows row⟩,
        ⟨g.packedCols col, g.packedRows row⟩⟩) ∧
    g.resolve.1.grid.trailing = g.packed.trailing ∧
    g.resolve.2 =
      ⟨max g.margin (Gaps.position g.margin g.packedCols g.grid.cols) + g.packed.trailing.dx + g.margin,
        Gaps.position g.margin g.packedRows g.grid.rows + g.packed.trailing.dy + g.margin⟩ := by
  have hswept : g.packed.Swept g.resolve.1.grid _ := g.packed.swept_place_broadcast g.margin
  have hsize : g.resolve.2 = _ := g.packed.size_place_broadcast g.margin
  refine ⟨⟨hswept.rows.trans g.rows_packed, hswept.cols.trans g.cols_packed⟩, ?_, hswept.trailing, ?_⟩
  · rintro ⟨row, hlt⟩ ⟨col, hbefore⟩
    have hrow := Nat.le_of_lt_succ hlt
    have hcol := Nat.le_of_lt_succ hbefore
    have hcell := hswept.cell (Nat.le_trans hrow (Nat.le_of_eq g.rows_packed.symm))
      (Nat.le_trans hcol (Nat.le_of_eq g.cols_packed.symm))
    rw [hcell, position_packedCols g hcol, position_packedRows g hrow, packedCols_eq g hcol, packedRows_eq g hrow]
  · rw [hsize, rows_packed, cols_packed, position_packedCols g (Nat.le_refl _), position_packedRows g (Nat.le_refl _)]

end Graphic

end SequenceChart

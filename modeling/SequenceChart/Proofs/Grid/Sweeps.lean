import SequenceChart.Proofs.Grid.Gaps

/-! Sweeps over the cells of a grid. The gaps are copied, and the points are placed, row by row in the very cells that
they are read from. What is still to be read is never among what has been changed, so in the end each cell has what
it would have if all cells had been read before the first one was written. -/

namespace SequenceChart

namespace Gaps

variable {α : Type} [Length α]

def reached (start : α) (gaps : Gaps α) : Nat → α
  | 0 => start
  | n + 1 => reached start gaps n + gaps n

theorem reached_congr {start : α} {gaps other : Gaps α} {n : Nat} (h : ∀ i < n, gaps i = other i) :
    reached start gaps n = reached start other n := by
  induction n with
  | zero => rfl
  | succ n ih => rw [reached, reached, ih fun i hi => h i (Nat.lt_succ_of_lt hi), h n (Nat.lt_succ_self n)]

end Gaps

namespace Grid

variable {α : Type}

theorem index_mod (g : Grid α) (row : Nat) {col : Nat} (h : col ≤ g.cols) :
    g.index row col % (g.cols + 1) = col := by
  unfold index
  rw [Nat.mul_add_mod_self_right, Nat.mod_eq_of_lt (Nat.lt_succ_of_le h)]

theorem index_div (g : Grid α) (row : Nat) {col : Nat} (h : col ≤ g.cols) :
    g.index row col / (g.cols + 1) = row := by
  unfold index
  rw [Nat.mul_comm, Nat.mul_add_div (Nat.succ_pos _), Nat.div_eq_of_lt (Nat.lt_succ_of_le h), Nat.add_zero]

theorem index_inj {g : Grid α} {row col other beside : Nat} (hcol : col ≤ g.cols) (hbeside : beside ≤ g.cols) :
    g.index row col = g.index other beside ↔ row = other ∧ col = beside := by
  constructor
  · intro hindex
    have hrow := congrArg (· / (g.cols + 1)) hindex
    have hmod := congrArg (· % (g.cols + 1)) hindex
    simp only [index_div g _ hcol, index_div g _ hbeside] at hrow
    simp only [index_mod g _ hcol, index_mod g _ hbeside] at hmod
    exact ⟨hrow, hmod⟩
  · rintro ⟨rfl, rfl⟩
    rfl

variable [Length α]

theorem cell_modify (g made : Grid α) (hcols : made.cols = g.cols) {row col : Nat} {f : Cell α → Cell α}
    (hcells : made.cells = g.cells.modify (g.index row col) f) (hcol : col ≤ g.cols) {r c : Nat} (hr : r ≤ g.rows)
    (hc : c ≤ g.cols) : made.cell r c = if row = r ∧ col = c then f (g.cell r c) else g.cell r c := by
  have hindex : made.index r c = g.index r c := by
    unfold index
    rw [hcols]
  have hget := Array.getElem?_eq_getElem (index_lt_size hr hc)
  unfold cell
  rw [hindex, hcells]
  simp only [Array.getD_eq_getD_getElem?, Array.getElem?_modify, index_inj hcol hc, hget]
  split <;> rfl

/-- What holds before the first turn of a loop over the first numbers, and is passed on by every turn, holds after the
last one. -/
theorem foldl_range {σ : Type} {step : σ → Nat → σ} (Reached : Nat → σ → Prop) {n : Nat} {s : σ} (hstart : Reached 0 s)
    (hstep : ∀ i < n, ∀ s, Reached i s → Reached (i + 1) (step s i)) : Reached n ((List.range n).foldl step s) := by
  induction n with
  | zero => exact hstart
  | succ n ih =>
    rw [List.range_succ, List.foldl_append]
    exact hstep n (Nat.lt_succ_self n) _ (ih fun i hi => hstep i (Nat.lt_succ_of_lt hi))

/-- A grid is what a sweep has made of another one, cell by cell; all else is as it was. -/
structure Swept (g made : Grid α) (cells : Nat → Nat → Cell α) : Prop where
  rows : made.rows = g.rows
  cols : made.cols = g.cols
  trailing : made.trailing = g.trailing
  cell : ∀ {row col}, row ≤ g.rows → col ≤ g.cols → made.cell row col = cells row col

namespace Swept

variable {g made : Grid α} {cells : Nat → Nat → Cell α}

theorem refl (g : Grid α) : g.Swept g g.cell := ⟨rfl, rfl, rfl, fun _ _ => rfl⟩

theorem congr (h : g.Swept made cells) {other : Nat → Nat → Cell α}
    (hsame : ∀ {row col}, row ≤ g.rows → col ≤ g.cols → cells row col = other row col) : g.Swept made other :=
  ⟨h.rows, h.cols, h.trailing, fun hrow hcol => (h.cell hrow hcol).trans (hsame hrow hcol)⟩

variable (h : g.Swept made cells) {row col : Nat}

include h

theorem update (hcol : col ≤ g.cols) (f : Delta α → Delta α) :
    g.Swept (made.update (.cell (made.index row col)) f) fun r c =>
      if row = r ∧ col = c then ⟨(cells r c).point, f (cells r c).delta⟩ else cells r c := by
  refine ⟨h.rows, h.cols, h.trailing, fun {r c} hr hc => ?_⟩
  have hcells : (made.update (.cell (made.index row col)) f).cells =
    made.cells.modify (made.index row col) fun c => { c with delta := f c.delta } := rfl
  rw [cell_modify made (made.update _ f) rfl hcells (h.cols ▸ hcol) (h.rows ▸ hr) (h.cols ▸ hc), h.cell hr hc]

theorem setPoint (hcol : col ≤ g.cols) (point : Point α) :
    g.Swept (made.setPoint row col point) fun r c =>
      if row = r ∧ col = c then ⟨point, (cells r c).delta⟩ else cells r c := by
  refine ⟨h.rows, h.cols, h.trailing, fun {r c} hr hc => ?_⟩
  have hcells : (made.setPoint row col point).cells =
    made.cells.modify (made.index row col) fun c => { c with point } := rfl
  rw [cell_modify made (made.setPoint row col point) rfl hcells (h.cols ▸ hcol) (h.rows ▸ hr) (h.cols ▸ hc),
    h.cell hr hc]

/-- Along a row the gaps are those that row 0 had before, also if the row is row 0 itself. -/
theorem broadcastRow (hrow : row ≤ g.rows) :
    g.Swept (made.broadcastRow row) fun r c =>
      if row = r then ⟨(cells r c).point, (cells 0 c).delta.dx, (cells row 0).delta.dy⟩ else cells r c := by
  -- The cells on the left of a column have their gaps, those from it on are still to be read.
  have hrun : g.Swept (made.broadcastRow row) fun r c =>
      if row = r ∧ c < g.cols + 1 then ⟨(cells r c).point, (cells 0 c).delta.dx, (cells row 0).delta.dy⟩
      else cells r c := by
    unfold Grid.broadcastRow
    rw [h.cell hrow (Nat.zero_le _), h.cols]
    refine foldl_range (fun n s => g.Swept s fun r c =>
      if row = r ∧ c < n then ⟨(cells r c).point, (cells 0 c).delta.dx, (cells row 0).delta.dy⟩ else cells r c)
      (h.congr fun _ _ => by simp) fun n hn left hleft => ?_
    have hcol : n ≤ g.cols := Nat.le_of_lt_succ hn
    have hread : left.cell 0 n = cells 0 n := by
      rw [hleft.cell (Nat.zero_le _) hcol, if_neg fun hbefore => Nat.lt_irrefl n hbefore.2]
    rw [hread]
    exact (hleft.update hcol _).congr fun _ _ => by grind
  exact hrun.congr fun _ hcol => by simp [Nat.lt_succ_of_le hcol]

theorem placeRow (margin y : α) (hrow : row ≤ g.rows) :
    g.Swept (made.placeRow margin y row).1 (fun r c =>
      if row = r then ⟨⟨Gaps.reached margin (fun c => (cells row c).delta.dx) (c + 1), y⟩, (cells r c).delta⟩
      else cells r c) ∧
    (made.placeRow margin y row).2 = Gaps.reached margin (fun c => (cells row c).delta.dx) (g.cols + 1) := by
  have hrun : g.Swept (made.placeRow margin y row).1 (fun r c =>
        if row = r ∧ c < g.cols + 1 then
          ⟨⟨Gaps.reached margin (fun c => (cells row c).delta.dx) (c + 1), y⟩, (cells r c).delta⟩
        else cells r c) ∧
      (made.placeRow margin y row).2 = Gaps.reached margin (fun c => (cells row c).delta.dx) (g.cols + 1) := by
    unfold Grid.placeRow
    rw [h.cols]
    refine foldl_range (fun n (s : Grid α × α) =>
      g.Swept s.1 (fun r c =>
        if row = r ∧ c < n then
          ⟨⟨Gaps.reached margin (fun c => (cells row c).delta.dx) (c + 1), y⟩, (cells r c).delta⟩
        else cells r c) ∧ s.2 = Gaps.reached margin (fun c => (cells row c).delta.dx) n)
      ⟨h.congr fun _ _ => by simp, rfl⟩ fun n hn s hs => ?_
    obtain ⟨left, x⟩ := s
    obtain ⟨hleft, rfl⟩ : g.Swept left _ ∧ x = _ := hs
    have hcol : n ≤ g.cols := Nat.le_of_lt_succ hn
    have hread : left.cell row n = cells row n := by
      rw [hleft.cell hrow hcol, if_neg fun hbefore => Nat.lt_irrefl n hbefore.2]
    dsimp only
    rw [hread]
    exact ⟨(hleft.setPoint hcol _).congr fun _ _ => by grind [Gaps.reached], rfl⟩
  exact ⟨hrun.1.congr fun _ hcol => by simp [Nat.lt_succ_of_le hcol], hrun.2⟩

end Swept

theorem swept_broadcast (g : Grid α) : g.Swept g.broadcast fun row col =>
    ⟨(g.cell row col).point, (g.cell 0 col).delta.dx, (g.cell row 0).delta.dy⟩ := by
  have hrun : g.Swept g.broadcast fun row col =>
      if row < g.rows + 1 then ⟨(g.cell row col).point, (g.cell 0 col).delta.dx, (g.cell row 0).delta.dy⟩
      else g.cell row col := by
    refine foldl_range (fun n s => g.Swept s fun row col =>
      if row < n then ⟨(g.cell row col).point, (g.cell 0 col).delta.dx, (g.cell row 0).delta.dy⟩
      else g.cell row col) ((Swept.refl g).congr fun _ _ => by simp) fun n hn above habove => ?_
    refine (habove.broadcastRow (Nat.le_of_lt_succ hn)).congr fun {row col} _ _ => ?_
    -- Row 0 shows its own gaps, whether it has been swept or not.
    have hfirst : (if 0 < n then (⟨(g.cell 0 col).point, (g.cell 0 col).delta.dx, (g.cell 0 0).delta.dy⟩ : Cell α)
        else g.cell 0 col).delta.dx = (g.cell 0 col).delta.dx := by
      split <;> rfl
    grind
  exact hrun.congr fun hrow _ => by simp [Nat.lt_succ_of_le hrow]

def placedCell (g : Grid α) (margin : α) (row col : Nat) : Cell α :=
  ⟨⟨Gaps.reached margin (fun c => (g.cell row c).delta.dx) (col + 1),
    Gaps.reached margin (fun r => (g.cell r 0).delta.dy) (row + 1)⟩, (g.cell row col).delta⟩

def reach (g : Grid α) (margin : α) (rows : Nat) : α :=
  (List.range rows).foldl
    (fun right row => max right (Gaps.reached margin (fun c => (g.cell row c).delta.dx) (g.cols + 1))) margin

theorem reach_succ (g : Grid α) (margin : α) (row : Nat) :
    g.reach margin (row + 1) =
      max (g.reach margin row) (Gaps.reached margin (fun c => (g.cell row c).delta.dx) (g.cols + 1)) := by
  unfold reach
  rw [List.range_succ, List.foldl_append]
  rfl

/-- Every row is placed along its own gaps, at the height that the gaps of column 0 lead to; the picture reaches as
far as the widest row. -/
theorem swept_place (g : Grid α) (margin : α) :
    g.Swept (g.place margin).1 (g.placedCell margin) ∧
    (g.place margin).2 =
      ⟨g.reach margin (g.rows + 1) + g.trailing.dx + margin,
        Gaps.reached margin (fun r => (g.cell r 0).delta.dy) (g.rows + 1) + g.trailing.dy + margin⟩ := by
  unfold place
  generalize hrun : (List.range (g.rows + 1)).foldl _ (g, margin, margin) = run
  have hswept : g.Swept run.1 (fun row col =>
        if row < g.rows + 1 then g.placedCell margin row col else g.cell row col) ∧
      run.2 = (g.reach margin (g.rows + 1), Gaps.reached margin (fun r => (g.cell r 0).delta.dy) (g.rows + 1)) := by
    rw [← hrun]
    -- The rows above have their points, those from the next one on are still to be read.
    refine foldl_range (fun n (run : Grid α × α × α) =>
      g.Swept run.1 (fun row col => if row < n then g.placedCell margin row col else g.cell row col) ∧
      run.2 = (g.reach margin n, Gaps.reached margin (fun r => (g.cell r 0).delta.dy) n))
      ⟨(Swept.refl g).congr fun _ _ => by simp, rfl⟩ fun n hn above habove => ?_
    obtain ⟨made, right, y⟩ := above
    obtain ⟨hmade, hreached⟩ : g.Swept made _ ∧ (right, y) = _ := habove
    obtain ⟨rfl, rfl⟩ := Prod.mk.inj hreached
    have hrow : n ≤ g.rows := Nat.le_of_lt_succ hn
    have hread : made.cell n 0 = g.cell n 0 := by
      rw [hmade.cell hrow (Nat.zero_le _), if_neg (Nat.lt_irrefl n)]
    obtain ⟨hcells, hx⟩ :=
      hmade.placeRow margin (Gaps.reached margin (fun r => (g.cell r 0).delta.dy) n + (g.cell n 0).delta.dy) hrow
    simp only [Nat.lt_irrefl, if_false] at hcells hx
    dsimp only
    rw [hread, reach_succ, hx]
    exact ⟨hcells.congr fun _ _ => by grind [placedCell, Gaps.reached], rfl⟩
  obtain ⟨hcells, hreached⟩ := hswept
  dsimp only
  rw [hreached]
  exact ⟨hcells.congr fun hrow _ => by simp [Nat.lt_succ_of_le hrow], rfl⟩

end Grid

end SequenceChart

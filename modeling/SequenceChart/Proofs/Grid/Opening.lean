import SequenceChart.Proofs.Grid.Columns

/-! Gaps that open. All gaps are closed at first, and none is ever closed again, so a gap is open in the end exactly if
some constraint met it closed and asked for room there. Where two columns meet on one line, none did. -/

namespace SequenceChart

/-- Whether the constraint widens a gap, given how wide the gaps are when it comes. A side asks for its own gap only; a
span asks for all gaps between its places, unless they are wide enough together. -/
def AxisConstraint.Opens (gaps : Gaps Rat) (gap : Nat) : AxisConstraint Rat → Prop
  | .floor place before after => (place = gap ∧ 0 < before) ∨ (place + 1 = gap ∧ 0 < after)
  | .add place before after => (place = gap ∧ 0 < before) ∨ (place + 1 = gap ∧ 0 < after)
  | .span start stop length =>
    gap ∈ Grid.between start stop ∧ ((Grid.between start stop).map gaps).sum < length

namespace Gaps

variable {last : Nat} {gaps : Gaps Rat}

theorem deficit_pos_iff {between : List Nat} (hne : between ≠ []) (length : Rat) :
    0 < deficit gaps between length ↔ (between.map gaps).sum < length := by
  rw [deficit, lt_div_iff₀ (length_pos_of_ne_nil hne), zero_mul, lt_max_iff, or_iff_left (lt_irrefl 0), sub_pos]

theorem ite_pos_iff {here : Prop} [Decidable here] {side : Rat} :
    0 < (if here then side else 0) ↔ here ∧ 0 < side := by
  by_cases h : here <;> simp [h]

theorem add_pos_iff_of_nonneg {first second : Rat} (hfirst : 0 ≤ first) (hsecond : 0 ≤ second) :
    0 < first + second ↔ 0 < first ∨ 0 < second := by
  constructor
  · intro hsum
    by_contra hnone
    obtain ⟨hno, hneither⟩ := not_or.mp hnone
    linarith
  · rintro (hpos | hpos) <;> linarith

theorem apply_pos_iff (hgaps : ∀ i, 0 ≤ gaps i) {c : AxisConstraint Rat} (hwithin : c.Within last) (hwidens : c.Widens)
    {gap : Nat} (hgap : gap ≤ last + 1) : 0 < apply last gaps c gap ↔ 0 < gaps gap ∨ c.Opens gaps gap := by
  have hopen := hgaps gap
  cases c with
  | floor place before after =>
    have hplace : place ≤ last := hwithin
    have hsides : apply last gaps (.floor place before after) = _ := sides_max hgaps last place before after
    rw [hsides]
    simp only [Grid.behind_of_le hplace, same_iff (Nat.le_succ_of_le hplace) hgap,
      same_iff (Nat.succ_le_succ hplace) hgap, lt_max_iff,
      ite_pos_iff, or_assoc, AxisConstraint.Opens]
  | add place before after =>
    have hplace : place ≤ last := hwithin
    obtain ⟨hbefore, hafter⟩ := hwidens
    have hsides : apply last gaps (.add place before after) = _ := sides_add gaps last place before after
    have hfirst : 0 ≤ if place = gap then before else 0 := by split <;> linarith
    have hsecond : 0 ≤ if place + 1 = gap then after else 0 := by split <;> linarith
    rw [hsides]
    simp only [Grid.behind_of_le hplace, same_iff (Nat.le_succ_of_le hplace) hgap,
      same_iff (Nat.succ_le_succ hplace) hgap]
    rw [add_pos_iff_of_nonneg (add_nonneg hopen hfirst) hsecond, add_pos_iff_of_nonneg hopen hfirst, ite_pos_iff,
      ite_pos_iff, or_assoc]
    rfl
  | span start stop length =>
    have hspread := congrFun (apply_span hgaps hwithin length) gap
    rw [hspread, AxisConstraint.Opens]
    by_cases hmem : gap ∈ Grid.between start stop
    · rw [if_pos hmem, add_pos_iff_of_nonneg hopen (deficit_nonneg _ _ _), deficit_pos_iff (List.ne_nil_of_mem hmem),
        and_iff_right hmem]
    · rw [if_neg hmem, or_iff_left fun h => hmem h.1]

/-- A gap is open after a run exactly if it was open before, or a constraint opened it on the way. -/
theorem run_pos_iff {constraints : List (AxisConstraint Rat)} (hwithin : ∀ c ∈ constraints, c.Within last)
    (hwidens : ∀ c ∈ constraints, c.Widens) (hgaps : ∀ i, 0 ≤ gaps i) {gap : Nat} (hgap : gap ≤ last + 1) :
    0 < run last gaps constraints gap ↔
      0 < gaps gap ∨ ∃ before c after, constraints = before ++ c :: after ∧ c.Opens (run last gaps before) gap := by
  induction constraints generalizing gaps with
  | nil => simp [run]
  | cons first later ih =>
    obtain ⟨hfirst, hlater⟩ := List.forall_mem_cons.mp hwithin
    obtain ⟨hwide, hlaterWide⟩ := List.forall_mem_cons.mp hwidens
    have hafter : ∀ i, 0 ≤ apply last gaps first i := fun i => (hgaps i).trans (le_apply hgaps hfirst hwide i)
    have hstep : run last gaps (first :: later) = run last (apply last gaps first) later := rfl
    rw [hstep, ih hlater hlaterWide hafter, apply_pos_iff hgaps hfirst hwide hgap, or_assoc]
    refine or_congr_right ⟨?_, ?_⟩
    · rintro (hopens | ⟨before, c, after, rfl, hopens⟩)
      · exact ⟨[], first, later, rfl, hopens⟩
      · exact ⟨first :: before, c, after, rfl, hopens⟩
    · rintro ⟨before, c, after, hsplit, hopens⟩
      cases before with
      | nil =>
        obtain ⟨rfl, rfl⟩ := List.cons.inj hsplit
        exact .inl hopens
      | cons head before =>
        obtain ⟨rfl, rfl⟩ := List.cons.inj hsplit
        exact .inr ⟨before, c, after, rfl, hopens⟩

end Gaps

namespace Graphic

variable {σ : Type} [GridItem σ Rat] {g : Graphic σ Rat}

/-- Whether some constraint opens the gap before a column when its turn comes. -/
def OpensCol (g : Graphic σ Rat) (col : Nat) : Prop :=
  ∃ before c after, g.constraints = before ++ c :: after ∧
    c.horizontal.Opens (Gaps.run g.grid.cols (fun _ => 0) (before.map Constraint.horizontal)) col

theorem colGaps_pos_iff (h : ∀ c ∈ g.constraints, c.Fits g.grid.rows g.grid.cols) {col : Nat}
    (hcol : col ≤ g.grid.cols + 1) : 0 < g.colGaps col ↔ g.OpensCol col := by
  have hwithin : ∀ c ∈ g.constraints.map Constraint.horizontal, c.Within g.grid.cols :=
    List.forall_mem_map.mpr fun c hc => Constraint.within_horizontal (h c hc).inGrid
  have hwidens : ∀ c ∈ g.constraints.map Constraint.horizontal, c.Widens :=
    List.forall_mem_map.mpr fun c hc => Constraint.widens_horizontal (h c hc).widens
  unfold colGaps
  rw [Gaps.run_pos_iff hwithin hwidens (fun _ => le_refl 0) hcol, or_iff_right (lt_irrefl 0)]
  constructor
  · rintro ⟨before, c, after, hsplit, hopens⟩
    obtain ⟨first, later, hconstraints, rfl, hlater⟩ := List.map_eq_append_iff.mp hsplit
    obtain ⟨c, rest, rfl, rfl, rfl⟩ := List.map_eq_cons_iff.mp hlater
    exact ⟨first, c, rest, hconstraints, hopens⟩
  · rintro ⟨before, c, after, hsplit, hopens⟩
    refine ⟨before.map Constraint.horizontal, c.horizontal, after.map Constraint.horizontal, ?_, hopens⟩
    rw [hsplit, List.map_append, List.map_cons]

/-- Neighbouring columns lie apart exactly if a constraint opens the gap between them. -/
theorem colX_lt_succ_iff (h : ∀ c ∈ g.constraints, c.Fits g.grid.rows g.grid.cols) {col : Nat}
    (hcol : col + 1 ≤ g.grid.cols) :
    g.resolve.1.grid.colX col < g.resolve.1.grid.colX (col + 1) ↔ g.OpensCol (col + 1) := by
  rw [← colGaps_pos_iff h (Nat.le_succ_of_le hcol), colX_resolve (Nat.le_of_succ_le hcol), colX_resolve hcol,
    Gaps.position, lt_add_iff_pos_right]

end Graphic

end SequenceChart

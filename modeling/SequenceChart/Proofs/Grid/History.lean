import SequenceChart.Proofs.Grid.Points

/-! What a graphic remembers of its past: the items that it took and how many it turned away. Resolving and
drawing work on the cells as they were left, and leave no trace that a later one could find. -/

namespace SequenceChart

namespace Graphic

inductive Event (σ : Type) where
  | put (pos : GridPos) (item : σ)
  | resolve
  | draw

namespace Event

variable {σ : Type}

def accepted (rows cols : Nat) : Event σ → Bool
  | .put pos _ => pos.row ≤ rows ∧ pos.col ≤ cols
  | _ => false

def refused (rows cols : Nat) : Event σ → Bool
  | .put pos _ => ¬ (pos.row ≤ rows ∧ pos.col ≤ cols)
  | _ => false

def placed (rows cols : Nat) : Event σ → List (Placed σ)
  | .put pos item => if pos.row ≤ rows ∧ pos.col ≤ cols then [⟨pos, item⟩] else []
  | _ => []

theorem placed_of_not_accepted {rows cols : Nat} {event : Event σ} (h : ¬ event.accepted rows cols = true) :
    event.placed rows cols = [] := by
  cases event with
  | put pos item => exact if_neg fun hinside => h (decide_eq_true hinside)
  | resolve => rfl
  | draw => rfl

theorem placed_accepted (rows cols : Nat) (history : List (Event σ)) :
    (history.filter (·.accepted rows cols)).flatMap (·.placed rows cols) =
      history.flatMap (·.placed rows cols) := by
  induction history with
  | nil => rfl
  | cons event later ih =>
    by_cases haccepted : event.accepted rows cols = true
    · rw [List.filter_cons_of_pos haccepted, List.flatMap_cons, List.flatMap_cons, ih]
    · rw [List.filter_cons_of_neg haccepted, List.flatMap_cons, placed_of_not_accepted haccepted, ih,
        List.nil_append]

end Event

variable {σ α : Type} [Length α] [GridItem σ α]

def after (g : Graphic σ α) : Event σ → Graphic σ α
  | .put pos item => (g.put pos item).2
  | .resolve => g.resolve.1
  | .draw => g.draw.1

def lived (rows cols : Nat) (margin : α) (history : List (Event σ)) : Graphic σ α :=
  history.foldl after (empty rows cols margin)

/-- All that is kept of what happened to a graphic, the cells of its grid aside. -/
structure Keeps (g : Graphic σ α) (rows cols : Nat) (margin : α) (items : List (Placed σ)) (rejected : Nat) :
    Prop where
  rows : g.grid.rows = rows
  cols : g.grid.cols = cols
  margin : g.margin = margin
  items : g.items = items
  rejected : g.rejected = rejected

variable {g : Graphic σ α} {rows cols rejected : Nat} {margin : α} {items : List (Placed σ)}

omit [GridItem σ α] in
theorem keeps_empty (rows cols : Nat) (margin : α) :
    (empty rows cols margin : Graphic σ α).Keeps rows cols margin [] 0 :=
  ⟨rfl, rfl, rfl, rfl, rfl⟩

omit [Length α] [GridItem σ α] in
theorem Keeps.put_eq (h : g.Keeps rows cols margin items rejected) (pos : GridPos) (item : σ) :
    g.put pos item =
      if pos.row ≤ rows ∧ pos.col ≤ cols then (.ok (), { g with items := g.items ++ [⟨pos, item⟩] })
      else (.error ⟨pos, rows, cols⟩, { g with rejected := g.rejected + 1 }) := by
  obtain ⟨rfl, rfl, _, _, _⟩ := h
  rfl

omit [Length α] [GridItem σ α] in
theorem Keeps.put (h : g.Keeps rows cols margin items rejected) (pos : GridPos) (item : σ) :
    (g.put pos item).2.Keeps rows cols margin (items ++ (Event.put pos item).placed rows cols)
      (rejected + if (Event.put pos item).refused rows cols = true then 1 else 0) := by
  rw [h.put_eq]
  by_cases hinside : pos.row ≤ rows ∧ pos.col ≤ cols
  · simp only [hinside, Event.placed, Event.refused, and_self, if_true, not_true, decide_false, Bool.false_eq_true,
      if_false]
    exact ⟨h.rows, h.cols, h.margin, congrArg (· ++ _) h.items, h.rejected⟩
  · simp only [Event.placed, Event.refused, hinside, if_false, not_false_eq_true, decide_true, if_true,
      List.append_nil]
    exact ⟨h.rows, h.cols, h.margin, h.items, congrArg (· + 1) h.rejected⟩

theorem Keeps.resolve (h : g.Keeps rows cols margin items rejected) :
    g.resolve.1.Keeps rows cols margin items rejected where
  rows := (g.grid.rows_resolve g.margin g.constraints).trans h.rows
  cols := (g.grid.cols_resolve g.margin g.constraints).trans h.cols
  margin := h.margin
  items := h.items
  rejected := h.rejected

theorem Keeps.after (h : g.Keeps rows cols margin items rejected) (event : Event σ) :
    (g.after event).Keeps rows cols margin (items ++ event.placed rows cols)
      (rejected + if event.refused rows cols = true then 1 else 0) := by
  cases event with
  | put pos item => exact h.put pos item
  | resolve =>
    rw [Event.placed, List.append_nil]
    · exact h.resolve
    · nofun
  | draw =>
    rw [Event.placed, List.append_nil]
    · exact h.resolve
    · nofun

theorem Keeps.foldl_after (h : g.Keeps rows cols margin items rejected) (history : List (Event σ)) :
    (history.foldl Graphic.after g).Keeps rows cols margin (items ++ history.flatMap (·.placed rows cols))
      (rejected + history.countP (·.refused rows cols)) := by
  induction history generalizing g items rejected with
  | nil =>
    rw [List.flatMap_nil, List.append_nil]
    exact h
  | cons event later ih =>
    have hlater := ih (h.after event)
    rw [List.append_assoc, Nat.add_assoc, Nat.add_comm (ite _ _ _)] at hlater
    rw [List.flatMap_cons, List.countP_cons]
    exact hlater

theorem keeps_lived (rows cols : Nat) (margin : α) (history : List (Event σ)) :
    (lived rows cols margin history : Graphic σ α).Keeps rows cols margin
      (history.flatMap (·.placed rows cols)) (history.countP (·.refused rows cols)) := by
  have hkeeps := (keeps_empty (σ := σ) rows cols margin).foldl_after history
  rwa [List.nil_append, Nat.zero_add] at hkeeps

/-- Resolving sees no more of a graphic than what it keeps, so none of the points and gaps that were there. -/
theorem Keeps.resolve_congr {other : Graphic σ α} {turned : Nat} (h : g.Keeps rows cols margin items rejected)
    (hother : other.Keeps rows cols margin items turned) :
    g.resolve.1.grid = other.resolve.1.grid ∧ g.resolve.2 = other.resolve.2 := by
  have hgrid : g.grid.resolve g.margin g.constraints = other.grid.resolve other.margin other.constraints := by
    rw [Grid.resolve_eq, Grid.resolve_eq, Graphic.constraints, Graphic.constraints, h.rows, h.cols, h.margin, h.items,
      hother.rows, hother.cols, hother.margin, hother.items]
  exact ⟨(congrArg Prod.fst hgrid :), (congrArg Prod.snd hgrid :)⟩

theorem Keeps.draw_congr {other : Graphic σ α} {turned : Nat} (h : g.Keeps rows cols margin items rejected)
    (hother : other.Keeps rows cols margin items turned) : g.draw.2 = other.draw.2 := by
  obtain ⟨hgrid, hsize⟩ := h.resolve_congr hother
  have hitems : g.resolve.1.items = other.resolve.1.items := h.items.trans hother.items.symm
  have hmarks : g.resolve.1.marks = other.resolve.1.marks := by
    unfold marks
    rw [hitems, hgrid]
  change Picture.mk g.resolve.2 (.setSize g.resolve.2 :: (g.resolve.1.marks ++ [.close])) = _
  rw [hsize, hmarks]
  rfl

/-- However a graphic was used, resolving it gives the grid and the size, and drawing it the picture, of a new
one that was only given the items that this one took. An item is turned away exactly if it was to stand outside
of the grid; that changes nothing but the count of such items, which is always theirs. -/
theorem resolve_forgets_history (rows cols : Nat) (margin : α) (history : List (Event σ)) :
    ((lived rows cols margin history).resolve.1.grid =
        (lived rows cols margin (history.filter (·.accepted rows cols))).resolve.1.grid ∧
      (lived rows cols margin history).resolve.2 =
        (lived rows cols margin (history.filter (·.accepted rows cols))).resolve.2 ∧
      (lived rows cols margin history).draw.2 =
        (lived rows cols margin (history.filter (·.accepted rows cols))).draw.2) ∧
    (lived rows cols margin history).rejected = history.countP (·.refused rows cols) ∧
    ∀ pos item, (lived rows cols margin history).put pos item =
      if pos.row ≤ rows ∧ pos.col ≤ cols then
        (.ok (), { lived rows cols margin history with
          items := (lived rows cols margin history).items ++ [⟨pos, item⟩] })
      else
        (.error ⟨pos, rows, cols⟩, { lived rows cols margin history with
          rejected := (lived rows cols margin history).rejected + 1 }) := by
  have hkeeps := keeps_lived rows cols margin history
  have hfresh := keeps_lived rows cols margin (history.filter (·.accepted rows cols))
  rw [Event.placed_accepted] at hfresh
  obtain ⟨hgrid, hsize⟩ := hkeeps.resolve_congr hfresh
  exact ⟨⟨hgrid, hsize, hkeeps.draw_congr hfresh⟩, hkeeps.rejected, hkeeps.put_eq⟩

end Graphic

end SequenceChart

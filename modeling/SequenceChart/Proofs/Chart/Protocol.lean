import SequenceChart.Proofs.Chart.Marks
import SequenceChart.Proofs.Grid.History

/-! What a canvas is told. Drawing a graphic sizes the canvas, lets every item make its marks where the grid has just
been resolved, and closes the canvas; it does so the same way each time. -/

namespace SequenceChart

theorem AllMarks.filter_not {α : Type} {calls : List (Call α)} (h : AllMarks calls) :
    calls.filter (!·.isMark) = [] := by
  refine List.filter_eq_nil_iff.mpr fun call hcall => ?_
  rw [h call hcall]
  exact Bool.false_ne_true

namespace Graphic

section

variable {σ α : Type}

def Event.isPut : Event σ → Bool
  | .put _ _ => true
  | _ => false

variable [Length α] [GridItem σ α]

theorem resolve_resolve (g : Graphic σ α) : g.resolve.1.resolve = g.resolve := by
  have hkeeps : g.Keeps g.grid.rows g.grid.cols g.margin g.items g.rejected := ⟨rfl, rfl, rfl, rfl, rfl⟩
  obtain ⟨hgrid, hsize⟩ := hkeeps.resolve.resolve_congr hkeeps
  exact Prod.ext (congrArg (fun grid => { g with grid }) hgrid) hsize

theorem draw_resolve (g : Graphic σ α) : g.resolve.1.draw = g.draw := by
  unfold draw
  rw [resolve_resolve]

theorem draw_after {event : Event σ} (h : event.isPut = false) (g : Graphic σ α) : (g.after event).draw = g.draw := by
  cases event with
  | put pos item => contradiction
  | resolve => exact g.draw_resolve
  | draw => exact g.draw_resolve

theorem draw_foldl_after {history : List (Event σ)} (h : ∀ event ∈ history, event.isPut = false) (g : Graphic σ α) :
    (history.foldl after g).draw = g.draw := by
  induction history generalizing g with
  | nil => rfl
  | cons event later ih =>
    obtain ⟨hevent, hlater⟩ := List.forall_mem_cons.mp h
    rw [List.foldl_cons, ih hlater, draw_after hevent]

theorem resolve_eq_empty (g : Graphic σ α) :
    (g.resolve.1.grid, g.resolve.2) =
      (Grid.empty g.grid.rows g.grid.cols).resolve g.margin g.constraints := by
  change g.grid.resolve g.margin g.constraints = _
  rw [Grid.resolve_eq, Grid.resolve_eq]
  rfl

end

variable {ι α : Type} [Length α] [Icon ι α] [Icon.DrawsMarks ι α]

/-- Where icons only make marks, drawing any shapes sizes the canvas once, at first, then draws each shape by itself
on the grid as it was just resolved, and closes the canvas once, at last. No shape does either on any grid; and
however often the graphic was resolved or drawn before, the calls, the size and what is left of it are the same. -/
theorem draw_protocol (g : Graphic (Shape ι α) α) :
    let resolved := (Grid.empty g.grid.rows g.grid.cols).resolve g.margin g.constraints
    (g.draw.2.size = resolved.2 ∧
      g.draw.2.calls = .setSize g.draw.2.size ::
        (g.items.flatMap (fun placed =>
          placed.item.draw resolved.1 (resolved.1.point placed.pos.row placed.pos.col)) ++ [.close])) ∧
    g.draw.2.calls.filter (!·.isMark) = [.setSize g.draw.2.size, .close] ∧
    (∀ placed ∈ g.items, ∀ grid point, ∀ call ∈ placed.item.draw grid point, call.isMark = true) ∧
    ∀ history : List (Event (Shape ι α)), (∀ event ∈ history, event.isPut = false) →
      (history.foldl after g).draw = g.draw := by
  intro resolved
  have hresolved : (g.resolve.1.grid, g.resolve.2) = resolved := g.resolve_eq_empty
  have hcalls : g.draw.2.calls = .setSize g.draw.2.size ::
      (g.items.flatMap (fun placed =>
        placed.item.draw resolved.1 (resolved.1.point placed.pos.row placed.pos.col)) ++ [.close]) := by
    rw [← hresolved]
    rfl
  have hmarks : AllMarks (g.items.flatMap fun placed =>
      placed.item.draw resolved.1 (resolved.1.point placed.pos.row placed.pos.col)) :=
    allMarks_flatMap fun placed _ => placed.item.allMarks_draw _ _
  refine ⟨⟨congrArg Prod.snd hresolved, hcalls⟩, ?_, ?_, fun history h => draw_foldl_after h g⟩
  · rw [hcalls, List.filter_cons_of_pos rfl, List.filter_append, hmarks.filter_not]
    rfl
  · exact fun placed _ grid point => placed.item.allMarks_draw grid point

def protocolSample : Graphic (Shape BuiltinIcon Rat) Rat :=
  let l : Layout Rat := ⟨.standard, .plain, 3, 3⟩
  let boxed := (empty 3 3 10 : Graphic (Shape BuiltinIcon Rat) Rat).put ⟨1, 1⟩
    (.actorBox (l.actorBox ⟨"a", "A", 0, some ⟨"human", .stickFigure⟩, true, true⟩ false))
  let looped := boxed.2.put ⟨2, 1⟩ (.message (l.message ⟨.actor 0, .actor 0, .sync, "again"⟩))
  (looped.2.put ⟨2, 4⟩ (.message (l.message ⟨.actor 0, .actor 1, .sync, "out"⟩))).2

theorem draw_protocol_protocolSample :
    protocolSample.items.length = 2 ∧
      protocolSample.draw.2.calls.filter (!·.isMark) = [.setSize protocolSample.draw.2.size, .close] ∧
      ([.draw, .resolve, .draw].foldl after protocolSample).draw = protocolSample.draw := by
  obtain ⟨_, hends, _, hsame⟩ := draw_protocol protocolSample
  exact ⟨rfl, hends, hsame [.draw, .resolve, .draw] (by decide)⟩

end Graphic

end SequenceChart

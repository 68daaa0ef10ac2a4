import SequenceChart.Proofs.Chart.Width

/-! Contents of blocks. The first frame makes room at both margins for the frames of all levels, and nothing comes
after it that would take this room, so what happens between actors stays inside of every frame around it. -/

namespace SequenceChart

/-- Whether an entry is an action or a note, and takes place among actors only. -/
def Entry.AmongActors : Entry → Prop
  | .action a => ∀ p ∈ [a.sender, a.receiver], ∃ rank, p = .actor rank
  | .note n => ∀ p ∈ n.first :: n.second.toList, ∃ rank, p = .actor rank
  | _ => False

theorem Entry.AmongActors.participants {e : Entry} (h : e.AmongActors) :
    ∀ p ∈ e.participants, ∃ rank, p = .actor rank := by
  cases e with
  | action a => exact h
  | note n => exact h
  | divider => exact h.elim
  | header => exact h.elim

def BlockSite.entries (s : BlockSite) : List (Entry × Nat) :=
  s.parts.flatMap fun part => (Item.entriesAll part.2.body).zipIdx (part.1 + 1)

namespace Shape

variable {pos : GridPos} {P : Nat → Prop}

theorem Message.cols_constraints {m : Message Rat} (hpos : P pos.col) (hto : P m.toCol) :
    ∀ c ∈ m.constraints pos, ∀ col ∈ c.cols, P col := by
  unfold constraints
  dsimp only
  split
  · simpa [Constraint.cols] using hpos
  · simp [Constraint.cols, hpos, hto]

theorem NoteBox.cols_constraints {n : NoteBox Rat} (hpos : P pos.col) (hother : ∀ col ∈ n.otherCol, P col) :
    ∀ c ∈ n.constraints pos, ∀ col ∈ c.cols, P col := by
  unfold constraints sideConstraints
  dsimp only
  split
  · simpa [Constraint.cols] using hpos
  · simpa [Constraint.cols] using hpos
  · simpa [Constraint.cols] using hpos
  · rename_i other _ hsecond
    have hmin : P (min pos.col other) := by
      rcases min_choice pos.col other with hmin | hmin <;> rw [hmin]
      · exact hpos
      · exact hother other hsecond
    have hmax : P (max pos.col other) := by
      rcases max_choice pos.col other with hmax | hmax <;> rw [hmax]
      · exact hpos
      · exact hother other hsecond
    simp [Constraint.cols, hpos, hmin, hmax]

end Shape

namespace Layout

theorem exists_reserved {frames : List (Placed (Shape.Frame Rat))} (h : frames ≠ []) :
    ∃ first ∈ frames, ∃ levels, ⟨first.pos, { first.item with marginLevels := levels }⟩ ∈ reserveMargins frames ∧
      ∀ f ∈ frames, f.item.depth < levels := by
  cases frames with
  | nil => contradiction
  | cons first later =>
    refine ⟨first, List.mem_cons_self, _, List.mem_cons_self, ?_⟩
    have hgrows : ∀ f ∈ later, ∀ levels, levels ≤ max levels (f.item.depth + 1) := fun _ _ _ => le_max_left _ _
    refine List.forall_mem_cons.mpr ⟨le_foldl hgrows _, fun f hf => ?_⟩
    exact le_foldl_of_mem hgrows hf (fun _ => le_max_right _ _) _

def frameConstraints (l : Layout Rat) (sites : List BlockSite) (cols : Nat) : List (Constraint Rat) :=
  (reserveMargins (sites.map l.placedFrame)).flatMap fun placed => placed.item.constraints placed.pos cols

theorem exists_margin (l : Layout Rat) (hinset : 0 < l.config.blockInset) {sites : List BlockSite}
    (hsites : sites ≠ []) (cols : Nat) :
    ∃ room row, (∀ s ∈ sites, s.depth * l.config.blockInset < room) ∧
      .add ⟨row, 0⟩ (.horizontal 0.0 room) ∈ l.frameConstraints sites cols ∧
      .add ⟨row, cols⟩ (.horizontal room 0.0) ∈ l.frameConstraints sites cols := by
  have hframes : sites.map l.placedFrame ≠ [] := by simpa using hsites
  obtain ⟨first, hfirst, levels, hreserved, hlevels⟩ := exists_reserved hframes
  obtain ⟨s, hs, rfl⟩ := List.mem_map.mp hfirst
  have hdeep : ∀ s ∈ sites, s.depth < levels := fun s hs => hlevels _ (List.mem_map_of_mem hs)
  have hmem : ∀ c ∈ ({ l.frameAt s with marginLevels := levels } : Shape.Frame Rat).marginConstraints ⟨s.row, 0⟩ cols,
      c ∈ l.frameConstraints sites cols := fun c hc =>
    List.mem_flatMap.mpr ⟨_, hreserved, List.mem_append_left _ (List.mem_append_left _ hc)⟩
  unfold Shape.Frame.marginConstraints at hmem
  rw [if_neg (Nat.ne_of_gt ((Nat.zero_le _).trans_lt (hdeep s hs)))] at hmem
  refine ⟨levels * l.config.blockInset, s.row, fun s hs => ?_, hmem _ List.mem_cons_self,
    hmem _ (List.mem_cons_of_mem _ List.mem_cons_self)⟩
  exact mul_lt_mul_of_pos_right (Nat.cast_lt.mpr (hdeep s hs)) hinset

end Layout

namespace Diagram

variable {ι : Type}

theorem mem_entriesAll_of_mem_entries {d : Diagram ι} {s : BlockSite} (hs : s ∈ d.blocks) {entry : Entry × Nat}
    (h : entry ∈ s.entries) : entry ∈ (Item.entriesAll d.items).zipIdx 2 := by
  obtain ⟨part, hpart, hentry⟩ := List.mem_flatMap.mp h
  obtain ⟨before, after, hentries, hstart⟩ := Item.runAt_items d.items 2 0 s hs part hpart
  rw [hentries, List.zipIdx_append, List.zipIdx_append, hstart, List.zipIdx_cons]
  exact List.mem_append_left _ (List.mem_append_right _ (List.mem_cons_of_mem _ hentry))

/-- What is drawn for an entry on its row. -/
def entryCalls [Icon ι Rat] (d : Diagram ι) (config : Config Rat) (font : Font Rat) (entry : Entry × Nat) :
    List (Call Rat) :=
  ((d.layout config font).placedEntry entry).toList.flatMap fun placed : Placed (Shape ι Rat) =>
    placed.item.draw (d.graphic config font).resolve.1.grid
      ((d.graphic config font).resolve.1.grid.point placed.pos.row placed.pos.col)

variable [Icon ι Rat] {d : Diagram ι} (h : d.Sound) {config : Config Rat} (font : Font Rat)

include h

theorem constraints_eq : (d.graphic config font).constraints =
    (((d.layout config font).unframed d).flatMap fun placed => placed.item.constraints placed.pos d.lastCol) ++
      (d.layout config font).frameConstraints d.blocks d.lastCol := by
  rw [graphic_eq h.ranked config font, Layout.placements_eq]
  unfold Graphic.constraints
  dsimp only
  rw [List.flatMap_append, List.flatMap_map]
  rfl

omit [Icon ι Rat] in
theorem col_inside {e : Entry} {row : Nat} (he : (e, row) ∈ (Item.entriesAll d.items).zipIdx 2)
    (hactors : e.AmongActors) : ∀ p ∈ e.participants, 0 < (d.layout config font).col p ∧
      (d.layout config font).col p + 1 < d.lastCol := by
  intro p hp
  obtain ⟨_, _, hentry⟩ := List.mem_zipIdx he
  have hwithin := h.ranked.within e (hentry ▸ List.getElem_mem _) p hp
  obtain ⟨rank, rfl⟩ := hactors.participants p hp
  have hrank : rank < d.actors.length := hwithin
  unfold Layout.col actorCol lastCol SequenceChart.lastCol
  dsimp only
  omega

theorem exists_placedEntry {e : Entry} {row : Nat} (he : (e, row) ∈ (Item.entriesAll d.items).zipIdx 2)
    (hactors : e.AmongActors) :
    ∃ placed : Placed (Shape ι Rat), (d.layout config font).placedEntry (e, row) = some placed ∧
      (d.layout config font).Stands d placed ∧
      ∀ c ∈ placed.item.constraints placed.pos d.lastCol, ∀ col ∈ c.cols, 0 < col ∧ col + 1 < d.lastCol := by
  have hcol : ∀ p ∈ e.participants, 0 < (d.layout config font).col p ∧ (d.layout config font).col p + 1 < d.lastCol :=
    col_inside h font he hactors
  cases e with
  | action a =>
    refine ⟨_, rfl, .message he, Shape.Message.cols_constraints (hcol _ List.mem_cons_self) ?_⟩
    exact hcol _ (List.mem_cons_of_mem _ List.mem_cons_self)
  | note n =>
    refine ⟨_, rfl, .note he, Shape.NoteBox.cols_constraints (hcol _ List.mem_cons_self) fun col hother => ?_⟩
    obtain ⟨p, hp, rfl⟩ := Option.mem_map.mp (Option.filter_eq_some_iff.mp hother).1
    exact hcol _ (List.mem_cons_of_mem _ (Option.mem_toList.mpr hp))
  | divider => exact hactors.elim
  | header => exact hactors.elim

omit [Icon ι Rat] h in
theorem placedEntry_mem_unframed {entry : Entry × Nat} (he : entry ∈ (Item.entriesAll d.items).zipIdx 2)
    {placed : Placed (Shape ι Rat)} (hplaced : (d.layout config font).placedEntry entry = some placed) :
    placed ∈ (d.layout config font).unframed d := by
  refine List.mem_append_right _ ?_
  rw [Layout.shapes_items]
  exact List.mem_filterMap.mpr ⟨entry, he, hplaced⟩

/-- What only asks for room next to the columns of actors has it further inside than any frame reaches. -/
theorem exists_provides (hroomy : config.Roomy) (hblocks : d.blocks ≠ []) :
    ∃ room, (∀ s ∈ d.blocks, s.depth * config.blockInset < room) ∧
      ∀ placed ∈ (d.layout config font).unframed d,
        (∀ c ∈ placed.item.constraints placed.pos d.lastCol, ∀ col ∈ c.cols, 0 < col ∧ col + 1 < d.lastCol) →
        (d.graphic config font).resolve.1.grid.Provides
          ((d.graphic config font).resolve.1.grid.colX 0 + room)
          ((d.graphic config font).resolve.1.grid.colX d.lastCol - room)
          (placed.item.constraints placed.pos d.lastCol) := by
  obtain ⟨room, row, hwide, hfirst, hlast⟩ :=
    (d.layout config font).exists_margin hroomy.blockInset hblocks d.lastCol
  refine ⟨room, hwide, fun placed hplaced hinner => ?_⟩
  have hcols : (d.graphic config font).grid.cols = d.lastCol := cols_graphic h font
  have hroomFirst : room ≤ (Constraint.add ⟨row, 0⟩ (.horizontal 0.0 room)).horizontal.added 1 := by
    simp [Constraint.horizontal, Sides.horizontal, AxisConstraint.added]
  have hroomLast : room ≤ (Constraint.add ⟨row, d.lastCol⟩ (.horizontal room 0.0)).horizontal.added
      (d.graphic config font).grid.cols := by
    simp [Constraint.horizontal, Sides.horizontal, AxisConstraint.added, hcols]
  have hprovides := Graphic.provides_inside (fits_graphic h hroomy font) (constraints_eq h font) hfirst hlast
    hroomFirst hroomLast (fun c hc => List.mem_flatMap.mpr ⟨placed, hplaced, hc⟩) (hcols ▸ hinner)
  rwa [hcols] at hprovides

omit h in
theorem entryCalls_eq {entry : Entry × Nat} {placed : Placed (Shape ι Rat)}
    (hplaced : (d.layout config font).placedEntry entry = some placed) :
    d.entryCalls config font entry = placed.item.draw (d.graphic config font).resolve.1.grid
      ((d.graphic config font).resolve.1.grid.point placed.pos.row placed.pos.col) := by
  unfold entryCalls
  rw [hplaced, Option.toList_some, List.flatMap_singleton]

omit h in
theorem entryCalls_ne_nil {e : Entry} (hactors : e.AmongActors) (row : Nat) :
    d.entryCalls config font (e, row) ≠ [] := by
  unfold entryCalls
  cases e with
  | action a =>
    change Shape.Message.draw _ _ _ ++ [] ≠ []
    unfold Shape.Message.draw
    rw [List.append_nil]
    split
    · exact List.cons_ne_nil _ _
    · exact List.cons_ne_nil _ _
  | note n => exact List.cons_ne_nil _ _
  | divider => exact hactors.elim
  | header => exact hactors.elim

theorem entry_inside [Icon.Contained ι] (hample : config.Ample) (hfont : font.Nonneg) {s : BlockSite}
    (hs : s ∈ d.blocks) {e : Entry} {row : Nat} (he : (e, row) ∈ s.entries) (hactors : e.AmongActors) :
    ∀ call ∈ d.entryCalls config font (e, row), call ∈ (d.picture config font).calls ∧
      ∀ p ∈ call.points font, (d.outline config font s).left < p.x ∧ p.x < (d.outline config font s).right := by
  have hentry := mem_entriesAll_of_mem_entries hs he
  have hcols : (d.graphic config font).resolve.1.grid.cols = d.lastCol := by
    rw [Graphic.cols_resolve, cols_graphic h font]
  obtain ⟨placed, hplaced, hstands, hinner⟩ := exists_placedEntry h font hentry hactors
  obtain ⟨room, hwide, hprovides⟩ := exists_provides h font hample.toRoomy (List.ne_nil_of_mem hs)
  have hmem := placedEntry_mem_unframed font hentry hplaced
  have hdrawn := Layout.across_stands hample hfont hstands (hcols.trans_ne (Nat.succ_ne_zero _))
    (by rw [hcols]; exact hprovides placed hmem hinner)
  rw [entryCalls_eq font hplaced]
  intro call hcall
  refine ⟨mem_calls_of_mem_unframed h.ranked hmem hcall, fun p hp => ?_⟩
  obtain ⟨hleft, hright⟩ := hdrawn call hcall p hp
  have hshift := hwide s hs
  rw [left_outline, right_outline h font]
  unfold Grid.colX at hleft hright
  constructor <;> linarith

end Diagram

namespace Diagram

/-- What happens between actors, notes on actors included, is drawn strictly between the edges of every frame around
it, however deep it is nested, wide it is, or close to the margins its actors stand. -/
theorem contents_inside_frames {text : String} {d : Diagram BuiltinIcon} (hload : load text = .ok d)
    (settings : List Instruction) {font : Font Rat} (hfont : font.Nonneg) {s : BlockSite} (hs : s ∈ d.blocks)
    {e : Entry} {row : Nat} (he : (e, row) ∈ s.entries) (hactors : e.AmongActors) :
    d.outlineCall (Config.standard.withInstructions settings) font s ∈
        (d.picture (Config.standard.withInstructions settings) font).calls ∧
      d.entryCalls (Config.standard.withInstructions settings) font (e, row) ≠ [] ∧
      ∀ call ∈ d.entryCalls (Config.standard.withInstructions settings) font (e, row),
        call ∈ (d.picture (Config.standard.withInstructions settings) font).calls ∧
          ∀ p ∈ call.points font,
            (d.outline (Config.standard.withInstructions settings) font s).left < p.x ∧
              p.x < (d.outline (Config.standard.withInstructions settings) font s).right := by
  have hsound := sound_of_load hload
  have hample := (Config.instructed_withInstructions settings).ample
  exact ⟨outlineCall_mem hsound font hs, entryCalls_ne_nil font hactors row,
    entry_inside hsound font hample hfont hs he hactors⟩

def contentsSample : String := "alt: x\na->b: hi\nloop\nnote left of a: outside\nb->b: again\nend\nelse\nb->.right\nend"

theorem contents_inside_frames_contentsSample :
    ∃ d : Diagram BuiltinIcon, load contentsSample = .ok d ∧ (Font.plain : Font Rat).Nonneg ∧
      ∃ outer ∈ d.blocks, ∃ e, (e, 5) ∈ outer.entries ∧ e.AmongActors ∧
        ∀ call ∈ d.entryCalls (Config.standard.withInstructions []) .plain (e, 5),
          ∀ p ∈ call.points .plain,
            (d.outline (Config.standard.withInstructions []) .plain outer).left < p.x ∧
              p.x < (d.outline (Config.standard.withInstructions []) .plain outer).right := by
  let e : Entry := .note ⟨.actor 0, none, .left, "outside"⟩
  have hblocks : ((load contentsSample).toOption.map fun d => d.blocks.map fun s => decide ((e, 5) ∈ s.entries)) =
      some [true, true] := by decide +kernel
  obtain ⟨d, hload, hentries⟩ := toOption_map_eq_some.mp hblocks
  obtain ⟨outer, later, hsites, houter, _⟩ := List.map_eq_cons_iff.mp hentries
  have hs : outer ∈ d.blocks := hsites ▸ List.mem_cons_self
  have he : (e, 5) ∈ outer.entries := of_decide_eq_true houter
  have hactors : e.AmongActors := List.forall_mem_singleton.mpr ⟨0, rfl⟩
  have hfont := Font.nonneg_plain
  obtain ⟨_, _, hinside⟩ := contents_inside_frames hload [] hfont hs he hactors
  exact ⟨d, hload, hfont, outer, hs, e, he, hactors, fun call hcall => (hinside call hcall).2⟩

end Diagram

end SequenceChart

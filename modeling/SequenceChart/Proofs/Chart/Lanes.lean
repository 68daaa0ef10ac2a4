import SequenceChart.Proofs.Chart.Contents

/-! Lanes. The columns on both sides of the column of an actor are the edges of its lane. Nobody else asks for room
between them, but whatever stands on that column alone has the room there that it asks for: the boxes of the actor with
half of the gap between boxes, its loops and its notes. -/

namespace SequenceChart

/-- Whether an entry is a message of an actor to itself, or a note on that actor alone. -/
def Entry.OfActor (rank : Nat) : Entry → Prop
  | .action a => a.sender = .actor rank ∧ a.receiver = .actor rank
  | .note n => n.first = .actor rank ∧ (n.alignment = .over → ∀ p ∈ n.second, p = .actor rank)
  | _ => False

/-- Whether a call belongs to a label, for arrows consist of lines and polygons. -/
def Call.OfLabel {α : Type} : Call α → Prop
  | .rect .. => True
  | .text .. => True
  | _ => False

def Actor.shows {ι : Type} (actor : Actor ι) (footer : Bool) : Bool := if footer then actor.inFooter else actor.inHeader

namespace Layout

variable (l : Layout Rat) {rank : Nat}

theorem cols_loop {a : Action} (hself : (Entry.action a).OfActor rank) :
    l.col a.sender = actorCol rank ∧ l.col a.receiver = actorCol rank :=
  ⟨congrArg l.col hself.1, congrArg l.col hself.2⟩

theorem col_note {n : Note} (hof : (Entry.note n).OfActor rank) : l.col n.first = actorCol rank :=
  congrArg l.col hof.1

theorem otherCol_note {n : Note} (hof : (Entry.note n).OfActor rank) (halign : (l.note n).alignment = .over) :
    (l.note n).otherCol = none := by
  refine Option.filter_eq_none_iff.mpr fun other hother => ?_
  obtain ⟨p, hp, rfl⟩ := Option.map_eq_some_iff.mp hother
  rw [hof.2 halign p hp, hof.1]
  simp

end Layout

namespace Shape

theorem Message.not_ofLabel_drawHead (m : Message Rat) (tip : Point Rat) (rightward : Bool) :
    ∀ call ∈ m.drawHead tip rightward, ¬ call.OfLabel := by
  unfold drawHead
  dsimp only
  split <;> exact List.forall_mem_singleton.mpr not_false

section Room

variable {font : Font Rat} (hfont : font.Nonneg) {g : Grid Rat} {left right : Rat} {pos : GridPos}

include hfont

theorem Message.label_between {m : Message Rat} (h : m.label.MeasuredBy font) (hline : m.isLoop = false)
    (hcol : m.fromCol = pos.col) (hprovides : g.Provides left right (m.constraints pos)) :
    ∀ call ∈ m.draw g (g.point pos.row pos.col), call.OfLabel → ∀ p ∈ call.points font,
      min (g.colX pos.col) (g.colX m.toCol) + m.padding ≤ p.x ∧
        p.x + m.padding ≤ max (g.colX pos.col) (g.colX m.toCol) := by
  have hne : pos.col ≠ m.toCol := hcol ▸ of_decide_eq_false hline
  unfold constraints at hprovides
  rw [hline] at hprovides
  have hspan := hprovides.spans List.mem_cons_self hne
  dsimp only at hspan
  obtain ⟨hleft, hright⟩ := middle_within ⟨min_le_left _ _, le_max_left _ _⟩ ⟨min_le_right _ _, le_max_right _ _⟩ hspan
  have hx := hprovides.aligned pos.row pos.col
  unfold draw
  rw [hline]
  intro call hcall hlabel p hp
  obtain rfl | hcall := List.mem_cons.mp hcall
  · exact hlabel.elim
  obtain hhead | hcall := List.mem_append.mp hcall
  · exact absurd hlabel (m.not_ofLabel_drawHead _ _ call hhead)
  obtain ⟨hfrom, hto, -, -⟩ := TextBlock.bounds_drawLabel hfont h _ m.labelFill .center call hcall p hp
  dsimp only [Outline.ofBox] at hfrom hto
  rw [hx] at hfrom hto
  unfold Grid.colX at hleft hright hfrom hto ⊢
  constructor <;> linarith

theorem NoteBox.beside {n : NoteBox Rat} (h : n.text.MeasuredBy font) (hpadding : 0 ≤ n.padding) (hfold : 0 ≤ n.fold)
    (halone : n.alignment = .over → n.otherCol = none) (hprovides : g.Provides left right (n.constraints pos)) :
    DrawnAcross font (left + n.offset) (right - n.offset) (n.draw g (g.point pos.row pos.col)) := by
  obtain ⟨hleft, hright⟩ := edges_beside halone (hprovides.subset fun _ => List.mem_cons_of_mem _)
  have hx := hprovides.aligned pos.row pos.col
  refine (bounds_draw hfont h hpadding hfold g _).across ?_ ?_ <;> dsimp only [extent] <;> rw [hx]
  · exact hleft
  · exact le_sub_iff_add_le.mpr hright

end Room

theorem NoteBox.cols_beside {n : NoteBox Rat} (halone : n.alignment = .over → n.otherCol = none) (pos : GridPos) :
    ∀ c ∈ n.constraints pos, ∀ col ∈ c.cols, col = pos.col := by
  unfold constraints sideConstraints
  cases halign : n.alignment with
  | left => simp [Constraint.cols]
  | right => simp [Constraint.cols]
  | _ => simp [Constraint.cols, halone halign]

end Shape

namespace Diagram

section Lane

variable {ι : Type} [Icon ι Rat]

def colX (d : Diagram ι) (config : Config Rat) (font : Font Rat) (col : Nat) : Rat :=
  (d.graphic config font).resolve.1.grid.colX col

def lifelineX (d : Diagram ι) (config : Config Rat) (font : Font Rat) (rank : Nat) : Rat :=
  d.colX config font (actorCol rank)

def lifelineCall (d : Diagram ι) (config : Config Rat) (font : Font Rat) (actor : Actor ι) : Call Rat :=
  .line ⟨d.lifelineX config font actor.rank, d.rowY config font 1⟩
    ⟨d.lifelineX config font actor.rank, d.rowY config font d.lastRow⟩
    ((d.layout config font).lifeline actor).stroke

def participantX (d : Diagram ι) (config : Config Rat) (font : Font Rat) (p : Participant) : Rat :=
  d.colX config font ((d.layout config font).col p)

/-- Whether an entry keeps to the lane of an actor and off the lifelines of the others. A loop starts on the lifeline of
its own actor, whatever else lies there. -/
structure KeepsLane (d : Diagram ι) (config : Config Rat) (font : Font Rat) (entry : Entry × Nat) (rank : Nat) :
    Prop where
  across : DrawnAcross font (d.colX config font (2 * rank)) (d.colX config font (2 * rank + 2))
    (d.entryCalls config font entry)
  later : ∀ other ∈ d.actors, rank < other.rank → ∀ call ∈ d.entryCalls config font entry, ∀ p ∈ call.points font,
    p.x < d.lifelineX config font other.rank
  earlier : ∀ other ∈ d.actors, other.rank < rank → ∀ call ∈ d.entryCalls config font entry, ∀ p ∈ call.points font,
    d.lifelineX config font other.rank < p.x ∨
      (∃ a, entry.1 = .action a) ∧ d.lifelineX config font other.rank = d.lifelineX config font rank

variable {d : Diagram ι} (h : d.Sound) {config : Config Rat} (font : Font Rat)

include h

theorem mem_constraints_of_unframed {placed : Placed (Shape ι Rat)}
    (hplaced : placed ∈ (d.layout config font).unframed d) :
    ∀ c ∈ placed.item.constraints placed.pos d.lastCol, c ∈ (d.graphic config font).constraints := by
  rw [constraints_eq h]
  exact fun c hc => List.mem_append_left _ (List.mem_flatMap.mpr ⟨placed, hplaced, hc⟩)

omit [Icon ι Rat] in
theorem rank_lt_of_ofActor {e : Entry} {row rank : Nat} (he : (e, row) ∈ (Item.entriesAll d.items).zipIdx 2)
    (hof : e.OfActor rank) : rank < d.actors.length := by
  obtain ⟨_, _, hentry⟩ := List.mem_zipIdx he
  have hwithin := h.ranked.within e (hentry ▸ List.getElem_mem _)
  cases e with
  | action a => exact hwithin (.actor rank) (hof.1 ▸ List.mem_cons_self)
  | note n => exact hwithin (.actor rank) (hof.1 ▸ List.mem_cons_self)
  | divider => exact hof.elim
  | header => exact hof.elim

omit h in
theorem point_eq (row col : Nat) : (d.graphic config font).resolve.1.grid.point row col =
    ⟨d.colX config font col, d.rowY config font row⟩ := by
  unfold colX rowY Grid.colX
  rw [Graphic.point_resolve, Graphic.point_resolve, Graphic.point_resolve]

theorem lifelineCall_mem {actor : Actor ι} (hactor : actor ∈ d.actors) :
    d.lifelineCall config font actor ∈ (d.picture config font).calls := by
  have hplaced : (⟨⟨1, actorCol actor.rank⟩, .lifeline ((d.layout config font).lifeline actor)⟩ :
      Placed (Shape ι Rat)) ∈ (d.layout config font).unframed d :=
    List.mem_append_left _ (List.mem_append_left _ (List.mem_append_right _
      (List.mem_map.mpr ⟨actor, hactor, rfl⟩)))
  refine mem_calls_of_mem_unframed h.ranked hplaced (List.mem_singleton.mpr ?_)
  dsimp only
  rw [point_eq, point_eq]
  rfl

omit [Icon ι Rat] h in
theorem message_mem_unframed {a : Action} {row : Nat} (he : (.action a, row) ∈ (Item.entriesAll d.items).zipIdx 2) :
    (⟨⟨row, (d.layout config font).col a.sender⟩, .message ((d.layout config font).message a)⟩ :
      Placed (Shape ι Rat)) ∈ (d.layout config font).unframed d :=
  placedEntry_mem_unframed font he rfl

omit [Icon ι Rat] h in
theorem note_mem_unframed {n : Note} {row : Nat} (he : (.note n, row) ∈ (Item.entriesAll d.items).zipIdx 2) :
    (⟨⟨row, (d.layout config font).col n.first⟩, .note ((d.layout config font).note n)⟩ : Placed (Shape ι Rat)) ∈
      (d.layout config font).unframed d :=
  placedEntry_mem_unframed font he rfl

omit [Icon ι Rat] in
theorem isLoop_eq_isSelf {a : Action} {row : Nat} (he : (.action a, row) ∈ (Item.entriesAll d.items).zipIdx 2) :
    ((d.layout config font).message a).isLoop = a.isSelf := by
  obtain ⟨_, _, hentry⟩ := List.mem_zipIdx he
  have hwithin := h.ranked.within (.action a) (hentry ▸ List.getElem_mem _)
  exact Layout.isLoop_message fun hp hq => Layout.col_injective rfl (hwithin _ hp) (hwithin _ hq)

theorem entry_mem_calls {e : Entry} {row : Nat} (he : (e, row) ∈ (Item.entriesAll d.items).zipIdx 2) :
    ∀ call ∈ d.entryCalls config font (e, row), call ∈ (d.picture config font).calls := by
  intro call hcall
  obtain ⟨placed, hplaced, hdrawn⟩ := List.mem_flatMap.mp hcall
  have hmem := placedEntry_mem_unframed font he (Option.mem_toList.mp hplaced)
  exact mem_calls_of_mem_unframed h.ranked hmem hdrawn

variable (hroomy : config.Roomy)

include hroomy

theorem colX_mono : Monotone (d.colX config font) := Graphic.colX_mono (fits_graphic h hroomy font)

theorem provides_lane {rank : Nat} (hrank : rank < d.actors.length) {placed : Placed (Shape ι Rat)}
    (hplaced : placed ∈ (d.layout config font).unframed d)
    (honly : ∀ c ∈ placed.item.constraints placed.pos d.lastCol, ∀ col ∈ c.cols, col = actorCol rank) :
    (d.graphic config font).resolve.1.grid.Provides (d.colX config font (2 * rank)) (d.colX config font (2 * rank + 2))
      (placed.item.constraints placed.pos d.lastCol) := by
  refine Graphic.provides_beside (fits_graphic h hroomy font) ?_ (mem_constraints_of_unframed h font hplaced) honly
  rw [cols_graphic h font, lastCol, SequenceChart.lastCol]
  omega

/-- The lanes of different actors lie beside each other, each lifeline in its own. -/
theorem lanes_ordered {rank other : Nat} (hlt : rank < other) :
    d.lifelineX config font rank ≤ d.colX config font (2 * rank + 2) ∧
      d.colX config font (2 * rank + 2) ≤ d.colX config font (2 * other) ∧
      d.colX config font (2 * other) ≤ d.lifelineX config font other :=
  ⟨colX_mono h font hroomy (Nat.le_succ _), colX_mono h font hroomy (by omega),
    colX_mono h font hroomy (Nat.le_succ _)⟩

end Lane

section Entries

variable {ι : Type} [Icon ι Rat] {d : Diagram ι} (h : d.Sound) {config : Config Rat} (hample : config.Ample)
  {font : Font Rat} (hfont : font.Nonneg)

include h hample hfont

theorem loop_in_lane {a : Action} {row rank : Nat} (he : (.action a, row) ∈ (Item.entriesAll d.items).zipIdx 2)
    (hself : (Entry.action a).OfActor rank) :
    DrawnAcross font (d.lifelineX config font rank) (d.colX config font (2 * rank + 2) - config.messagePadding)
      (d.entryCalls config font (.action a, row)) := by
  obtain ⟨hfrom, hto⟩ := (d.layout config font).cols_loop hself
  have hprovides := provides_lane h font hample.toRoomy (rank_lt_of_ofActor h he hself) (message_mem_unframed font he)
    (Shape.Message.cols_constraints hfrom hto)
  have hlabel := (d.layout config font).measuredBy_text a.message hample.fontSize config.style.messageText false
  have hloop : ((d.layout config font).message a).isLoop = true :=
    (isLoop_eq_isSelf h font he).trans (decide_eq_true (hself.1.trans hself.2.symm))
  have hdrawn := Shape.Message.beside_loop hfont hlabel hloop hample.loopWidth hample.loopHeight hample.labelGap
    hprovides
  rw [entryCalls_eq font rfl, lifelineX, ← hfrom]
  exact hdrawn

theorem note_in_lane {n : Note} {row rank : Nat} (he : (.note n, row) ∈ (Item.entriesAll d.items).zipIdx 2)
    (hof : (Entry.note n).OfActor rank) :
    DrawnAcross font (d.colX config font (2 * rank) + config.noteOffset)
      (d.colX config font (2 * rank + 2) - config.noteOffset) (d.entryCalls config font (.note n, row)) := by
  have halone := (d.layout config font).otherCol_note hof
  have hcols : ∀ c ∈ ((d.layout config font).note n).constraints ⟨row, (d.layout config font).col n.first⟩,
      ∀ col ∈ c.cols, col = actorCol rank := fun c hc col hcol =>
    (Shape.NoteBox.cols_beside halone _ c hc col hcol).trans ((d.layout config font).col_note hof)
  have hprovides := provides_lane h font hample.toRoomy (rank_lt_of_ofActor h he hof) (note_mem_unframed font he) hcols
  have htext := (d.layout config font).measuredBy_text n.message hample.fontSize config.style.noteText false
  rw [entryCalls_eq font rfl]
  exact Shape.NoteBox.beside hfont htext hample.notePadding hample.noteFold halone hprovides

theorem label_between {a : Action} {row : Nat} (he : (.action a, row) ∈ (Item.entriesAll d.items).zipIdx 2)
    (hends : a.sender ≠ a.receiver) :
    ∀ call ∈ d.entryCalls config font (.action a, row), call.OfLabel → ∀ p ∈ call.points font,
      min (d.participantX config font a.sender) (d.participantX config font a.receiver) + config.messagePadding ≤ p.x ∧
        p.x + config.messagePadding ≤
          max (d.participantX config font a.sender) (d.participantX config font a.receiver) := by
  have hprovides := (Graphic.provides (fits_graphic h hample.toRoomy font)).subset
    (mem_constraints_of_unframed h font (message_mem_unframed font he))
  have hlabel := (d.layout config font).measuredBy_text a.message hample.fontSize config.style.messageText false
  have hline : ((d.layout config font).message a).isLoop = false :=
    (isLoop_eq_isSelf h font he).trans (decide_eq_false hends)
  rw [entryCalls_eq font rfl]
  exact Shape.Message.label_between hfont hlabel hline rfl hprovides

/-- What an entry of one actor draws keeps to its lane, and so does not reach the lifelines in the others. -/
theorem keepsLane (hoffset : 0 < config.noteOffset) {e : Entry} {row rank : Nat}
    (he : (e, row) ∈ (Item.entriesAll d.items).zipIdx 2) (hof : e.OfActor rank) :
    d.KeepsLane config font (e, row) rank := by
  have hmono := colX_mono h font hample.toRoomy
  have hstart : d.colX config font (2 * rank) ≤ d.lifelineX config font rank := hmono (Nat.le_succ _)
  have hordered : ∀ {i j : Nat}, i < j → _ := lanes_ordered h font hample.toRoomy
  cases e with
  | action a =>
    have hdrawn := loop_in_lane h hample hfont he hof
    have hpadding := hample.headLength
    refine ⟨hdrawn.mono hstart (by linarith), fun other hother hlt call hcall p hp => ?_,
      fun other hother hlt call hcall p hp => ?_⟩
    · obtain ⟨-, hlanes, hother⟩ := hordered hlt
      linarith [(hdrawn call hcall p hp).2]
    · obtain ⟨hother, hlanes, hown⟩ := hordered hlt
      have hright := (hdrawn call hcall p hp).1
      cases (hother.trans (hlanes.trans hown)).lt_or_eq with
      | inl happart => exact .inl (happart.trans_le hright)
      | inr hsame => exact .inr ⟨⟨a, rfl⟩, hsame⟩
  | note n =>
    have hdrawn := note_in_lane h hample hfont he hof
    refine ⟨hdrawn.mono (by linarith) (by linarith), fun other hother hlt call hcall p hp => ?_,
      fun other hother hlt call hcall p hp => .inl ?_⟩
    · obtain ⟨-, hlanes, hother⟩ := hordered hlt
      linarith [(hdrawn call hcall p hp).2]
    · obtain ⟨hother, hlanes, -⟩ := hordered hlt
      linarith [(hdrawn call hcall p hp).1]
  | divider => exact hof.elim
  | header => exact hof.elim

end Entries

/-- Messages of an actor to itself, and notes on one actor, keep to its lane, however many there are and whatever else
asks for room next to the actor; the label of any other message has its padding between the two ends. -/
theorem entries_keep_lanes {text : String} {d : Diagram BuiltinIcon} (hload : load text = .ok d)
    (settings : List Instruction) {font : Font Rat} (hfont : font.Nonneg) {e : Entry} {row : Nat}
    (he : (e, row) ∈ (Item.entriesAll d.items).zipIdx 2) :
    (∀ call ∈ d.entryCalls (Config.standard.withInstructions settings) font (e, row),
      call ∈ (d.picture (Config.standard.withInstructions settings) font).calls) ∧
    (∀ rank, e.OfActor rank → d.KeepsLane (Config.standard.withInstructions settings) font (e, row) rank) ∧
    ∀ a, e = .action a → a.sender ≠ a.receiver →
      ∀ call ∈ d.entryCalls (Config.standard.withInstructions settings) font (e, row), call.OfLabel →
        ∀ p ∈ call.points font,
          min (d.participantX (Config.standard.withInstructions settings) font a.sender)
              (d.participantX (Config.standard.withInstructions settings) font a.receiver) +
            (Config.standard.withInstructions settings : Config Rat).messagePadding ≤ p.x ∧
          p.x + (Config.standard.withInstructions settings : Config Rat).messagePadding ≤
            max (d.participantX (Config.standard.withInstructions settings) font a.sender)
              (d.participantX (Config.standard.withInstructions settings) font a.receiver) := by
  have hsound := sound_of_load hload
  have hinstructed := Config.instructed_withInstructions settings
  refine ⟨entry_mem_calls hsound font he, fun rank hof => ?_, ?_⟩
  · exact keepsLane hsound hinstructed.ample hfont hinstructed.noteOffset_pos he hof
  · rintro a rfl hends
    exact label_between hsound hinstructed.ample hfont he hends

def laneSample : String := "a->b: hello\nb->b: again\nnote over a: wide as it is"

theorem entries_keep_lanes_laneSample :
    ∃ d : Diagram BuiltinIcon, load laneSample = .ok d ∧ (Font.plain : Font Rat).Nonneg ∧
      (∃ e, (e, 3) ∈ (Item.entriesAll d.items).zipIdx 2 ∧ e.OfActor 1 ∧
        d.KeepsLane (Config.standard.withInstructions []) .plain (e, 3) 1) ∧
      (∃ e, (e, 4) ∈ (Item.entriesAll d.items).zipIdx 2 ∧ e.OfActor 0 ∧
        d.KeepsLane (Config.standard.withInstructions []) .plain (e, 4) 0) ∧
      ∃ a : Action, (.action a, 2) ∈ (Item.entriesAll d.items).zipIdx 2 ∧ a.sender ≠ a.receiver ∧
        ∀ call ∈ d.entryCalls (Config.standard.withInstructions []) .plain (.action a, 2),
          call.OfLabel → ∀ p ∈ call.points .plain,
            min (d.participantX (Config.standard.withInstructions []) .plain a.sender)
                (d.participantX (Config.standard.withInstructions []) .plain a.receiver) +
              (Config.standard.withInstructions [] : Config Rat).messagePadding ≤ p.x ∧
            p.x + (Config.standard.withInstructions [] : Config Rat).messagePadding ≤
              max (d.participantX (Config.standard.withInstructions []) .plain a.sender)
                (d.participantX (Config.standard.withInstructions []) .plain a.receiver) := by
  let a : Action := ⟨.actor 0, .actor 1, .sync, "hello"⟩
  let loop : Entry := .action ⟨.actor 1, .actor 1, .sync, "again"⟩
  let note : Entry := .note ⟨.actor 0, none, .over, "wide as it is"⟩
  have hentries : ((load laneSample).toOption.map fun d => Item.entriesAll d.items) = some [.action a, loop, note] := by
    decide +kernel
  obtain ⟨d, hload, hentries⟩ := toOption_map_eq_some.mp hentries
  have hfont := Font.nonneg_plain
  have ha : (.action a, 2) ∈ (Item.entriesAll d.items).zipIdx 2 := by simp [hentries]
  have hloop : (loop, 3) ∈ (Item.entriesAll d.items).zipIdx 2 := by simp [hentries]
  have hnote : (note, 4) ∈ (Item.entriesAll d.items).zipIdx 2 := by simp [hentries]
  have hself : loop.OfActor 1 := ⟨rfl, rfl⟩
  have halone : note.OfActor 0 := ⟨rfl, fun _ => nofun⟩
  have hends : a.sender ≠ a.receiver := by decide
  have hlabel := (entries_keep_lanes hload [] hfont ha).2.2 a rfl hends
  exact ⟨d, hload, hfont, ⟨loop, hloop, hself, (entries_keep_lanes hload [] hfont hloop).2.1 1 hself⟩,
    ⟨note, hnote, halone, (entries_keep_lanes hload [] hfont hnote).2.1 0 halone⟩,
    a, ha, hends, hlabel⟩

def boxlessSample : String :=
  "participant a header=none footer=none\nparticipant b header=none footer=none\nb->b: hi"

/-- Where nothing keeps two lifelines apart, a loop on one of them starts on both. -/
theorem loop_on_lifeline_boxlessSample :
    ∃ d : Diagram BuiltinIcon, load boxlessSample = .ok d ∧ (Font.plain : Font Rat).Nonneg ∧
      ∃ e row, (e, row) ∈ (Item.entriesAll d.items).zipIdx 2 ∧ e.OfActor 1 ∧
        ∃ actor ∈ d.actors, actor.rank = 0 ∧
          d.lifelineCall .standard .plain actor ∈
            (d.picture .standard .plain).calls ∧
          ∃ call ∈ d.entryCalls .standard .plain (e, row),
            call ∈ (d.picture .standard .plain).calls ∧
            ∃ p ∈ call.points .plain,
              p.x = d.lifelineX .standard .plain actor.rank ∧
              d.rowY .standard .plain 1 ≤ p.y ∧
              p.y ≤ d.rowY .standard .plain d.lastRow := by
  let e : Entry := .action ⟨.actor 1, .actor 1, ⟨.solid, .filled⟩, "hi"⟩
  have hchart : ((load boxlessSample).toOption.map fun d =>
      (d.actors.map Actor.rank, decide ((e, 2) ∈ (Item.entriesAll d.items).zipIdx 2),
        (d.entryCalls .standard .plain (e, 2)).any fun call =>
          (call.points .plain).any fun p =>
            decide (p.x = d.lifelineX .standard .plain 0 ∧
              d.rowY .standard .plain 1 ≤ p.y ∧
              p.y ≤ d.rowY .standard .plain d.lastRow))) = some ([0, 1], true, true) := by
    decide +kernel
  obtain ⟨d, hload, hchart⟩ := toOption_map_eq_some.mp hchart
  simp only [Prod.mk.injEq, decide_eq_true_eq, List.any_eq_true] at hchart
  obtain ⟨hranks, he, call, hcall, p, hp, hon⟩ := hchart
  obtain ⟨actor, later, hactors, hrank, -⟩ := List.map_eq_cons_iff.mp hranks
  have hactor : actor ∈ d.actors := hactors ▸ List.mem_cons_self
  have hsound := sound_of_load hload
  rw [← hrank] at hon
  exact ⟨d, hload, Font.nonneg_plain, e, 2, he, ⟨rfl, rfl⟩, actor, hactor, hrank,
    lifelineCall_mem hsound _ hactor, call, hcall, entry_mem_calls hsound _ he call hcall, p, hp, hon⟩

section Boxes

variable {ι : Type} [Icon ι Rat]

def boxCalls (d : Diagram ι) (config : Config Rat) (font : Font Rat) (actor : Actor ι) (footer : Bool) :
    List (Call Rat) :=
  ((d.layout config font).actorBox actor footer).draw
    ((d.graphic config font).resolve.1.grid.point (if footer then d.lastRow else 1) (actorCol actor.rank))

def boxOutline (d : Diagram ι) (config : Config Rat) (font : Font Rat) (actor : Actor ι) (footer : Bool) :
    Outline Rat :=
  ((d.layout config font).actorBox actor footer).extent
    ((d.graphic config font).resolve.1.grid.point (if footer then d.lastRow else 1) (actorCol actor.rank))

def boxCall (d : Diagram ι) (config : Config Rat) (font : Font Rat) (actor : Actor ι) (footer : Bool) : Call Rat :=
  let o := d.boxOutline config font actor footer
  .rect ⟨o.left, o.top⟩ ⟨o.right - o.left, o.bottom - o.top⟩ (some (.solid config.style.actorStroke 1.5))
    (some config.style.actorFill)

/-- Whether the box of an actor is in the picture, inside of its outline and with it. -/
structure DrawsBox (d : Diagram ι) (config : Config Rat) (font : Font Rat) (actor : Actor ι) (footer : Bool) :
    Prop where
  outline : d.boxCall config font actor footer ∈ d.boxCalls config font actor footer
  inside : (d.boxOutline config font actor footer).Bounds font (d.boxCalls config font actor footer)
  drawn : ∀ call ∈ d.boxCalls config font actor footer, call ∈ (d.picture config font).calls

variable {d : Diagram ι} (h : d.Sound) {config : Config Rat} (font : Font Rat) {actor : Actor ι}
  (hactor : actor ∈ d.actors) {footer : Bool} (hshown : actor.shows footer = true)

theorem boxCall_mem (d : Diagram ι) (config : Config Rat) (font : Font Rat) (actor : Actor ι) (footer : Bool) :
    d.boxCall config font actor footer ∈ d.boxCalls config font actor footer := by
  refine List.mem_cons.mpr (.inl ?_)
  unfold boxCall boxOutline Shape.ActorBox.extent Outline.ofBox
  dsimp only
  rw [two_eq, add_sub_cancel_left, add_sub_cancel_left]
  rfl

include hactor hshown

omit [Icon ι Rat] in
theorem box_mem_unframed :
    (⟨⟨if footer then d.lastRow else 1, actorCol actor.rank⟩,
      .actorBox ((d.layout config font).actorBox actor footer)⟩ : Placed (Shape ι Rat)) ∈
        (d.layout config font).unframed d := by
  refine List.mem_append_left _ (List.mem_append_left _ (List.mem_append_left _ ?_))
  refine List.mem_flatMap.mpr ⟨actor, hactor, List.mem_append.mpr ?_⟩
  cases footer with
  | false =>
    have hheader : actor.inHeader = true := hshown
    rw [if_pos hheader]
    exact .inl (List.mem_singleton.mpr rfl)
  | true =>
    have hfooter : actor.inFooter = true := hshown
    rw [if_pos hfooter]
    exact .inr (List.mem_singleton.mpr rfl)

include h

theorem drawsBox [Icon.Contained ι] (hample : config.Ample) (hfont : font.Nonneg) :
    d.DrawsBox config font actor footer where
  outline := boxCall_mem d config font actor footer
  inside := Shape.ActorBox.bounds_draw hfont
    ((d.layout config font).measuredBy_text actor.label hample.fontSize config.style.actorText false)
    hample.actorPadding hample.iconGap _
  drawn _ hcall := mem_calls_of_mem_unframed h.ranked (box_mem_unframed font hactor hshown) hcall

theorem box_in_lane (hroomy : config.Roomy) :
    d.colX config font (2 * actor.rank) + config.actorGap / 2 ≤ (d.boxOutline config font actor footer).left ∧
      (d.boxOutline config font actor footer).right + config.actorGap / 2 ≤
        d.colX config font (2 * actor.rank + 2) := by
  have hprovides : (d.graphic config font).resolve.1.grid.Provides (d.colX config font (2 * actor.rank))
      (d.colX config font (2 * actor.rank + 2)) (((d.layout config font).actorBox actor footer).constraints
        ⟨if footer then d.lastRow else 1, actorCol actor.rank⟩) :=
    provides_lane h font hroomy (rank_lt h.ranked hactor) (box_mem_unframed font hactor hshown)
      (List.forall_mem_singleton.mpr (List.forall_mem_singleton.mpr rfl))
  have hgap : ((d.layout config font).actorBox actor footer).gap = config.actorGap := rfl
  have hbeside := Shape.ActorBox.extent_beside hprovides
  rw [hgap] at hbeside
  exact hbeside

end Boxes

/-- Boxes of different actors are drawn beside each other with the gap between boxes free, whether in the header or in
the footer, and whatever boxes between them are hidden. -/
theorem actor_boxes_apart {text : String} {d : Diagram BuiltinIcon} (hload : load text = .ok d)
    (settings : List Instruction) {font : Font Rat} (hfont : font.Nonneg) {a b : Actor BuiltinIcon}
    (ha : a ∈ d.actors) (hb : b ∈ d.actors) (hrank : a.rank < b.rank) {footer other : Bool}
    (hshown : a.shows footer = true) (hother : b.shows other = true) :
    (d.DrawsBox (Config.standard.withInstructions settings) font a footer ∧
      d.DrawsBox (Config.standard.withInstructions settings) font b other) ∧
    (d.boxOutline (Config.standard.withInstructions settings) font a footer).right +
        (Config.standard.withInstructions settings : Config Rat).actorGap ≤
      (d.boxOutline (Config.standard.withInstructions settings) font b other).left := by
  have hsound := sound_of_load hload
  have hample := (Config.instructed_withInstructions settings).ample
  refine ⟨⟨drawsBox hsound font ha hshown hample hfont, drawsBox hsound font hb hother hample hfont⟩, ?_⟩
  have hfirst := (box_in_lane hsound font ha hshown hample.toRoomy).2
  have hsecond := (box_in_lane hsound font hb hother hample.toRoomy).1
  have hlanes := (lanes_ordered hsound font hample.toRoomy hrank).2.1
  linarith

def hiddenBoxSample : String := "participant a\nparticipant b header=none\nparticipant c"

theorem actor_boxes_apart_hiddenBoxSample :
    ∃ (d : Diagram BuiltinIcon) (a b : Actor BuiltinIcon), load hiddenBoxSample = .ok d ∧
      (Font.plain : Font Rat).Nonneg ∧ (a ∈ d.actors ∧ b ∈ d.actors) ∧ a.rank < b.rank ∧
      (a.shows false = true ∧ b.shows false = true) ∧
      (d.boxOutline (Config.standard.withInstructions []) .plain a false).right +
          (Config.standard.withInstructions [] : Config Rat).actorGap ≤
        (d.boxOutline (Config.standard.withInstructions []) .plain b false).left := by
  have hactors : ((load hiddenBoxSample).toOption.map fun d => d.actors.map fun a => (a.rank, a.shows false)) =
      some [(0, true), (1, false), (2, true)] := by decide +kernel
  obtain ⟨d, hload, hactors⟩ := toOption_map_eq_some.mp hactors
  obtain ⟨a, b, c, hlist⟩ := List.length_eq_three.mp (by simpa using congrArg List.length hactors)
  rw [hlist] at hactors
  simp only [List.map_cons, List.map_nil, List.cons.injEq, Prod.mk.injEq, and_true] at hactors
  obtain ⟨⟨hfirst, hshown⟩, -, hlast, hother⟩ := hactors
  have ha : a ∈ d.actors := by simp [hlist]
  have hc : c ∈ d.actors := by simp [hlist]
  have hrank : a.rank < c.rank := by omega
  have hfont := Font.nonneg_plain
  exact ⟨d, a, c, hload, hfont, ⟨ha, hc⟩, hrank, ⟨hshown, hother⟩,
    (actor_boxes_apart hload [] hfont ha hc hrank hshown hother).2⟩

end Diagram

end SequenceChart

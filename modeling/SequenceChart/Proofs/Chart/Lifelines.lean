import SequenceChart.Proofs.Chart.Lanes
import SequenceChart.Proofs.Grid.Opening

/-! Lifelines. They stand in the order of the actors, but nothing asks for room between two of them on their own
account: they lie apart if a box, a message or a note on one of the two asks for it, or something that reaches over both
finds too little room there, and on top of each other if not. -/

namespace SequenceChart

/-- Whether an entry is sure to part the lifelines of an actor and of the next one: a message between the two or a loop
of the first, a note between them, or one over one of them. -/
def Entry.Parts (rank : Nat) : Entry → Prop
  | .action a =>
    (a.sender = .actor rank ∧ (a.receiver = .actor rank ∨ a.receiver = .actor (rank + 1))) ∨
      (a.sender = .actor (rank + 1) ∧ a.receiver = .actor rank)
  | .note n =>
    (n.alignment ≠ .left ∧ (Entry.note n).OfActor rank) ∨ (n.alignment ≠ .right ∧ (Entry.note n).OfActor (rank + 1))
  | _ => False

namespace Graphic

variable {σ : Type} [GridItem σ Rat] {g : Graphic σ Rat}

theorem opensCol_of_mem {c : Constraint Rat} (hc : c ∈ g.constraints) {col : Nat}
    (hopens : ∀ gaps, c.horizontal.Opens gaps col) : g.OpensCol col := by
  obtain ⟨before, after, hsplit⟩ := List.append_of_mem hc
  exact ⟨before, c, after, hsplit, hopens _⟩

end Graphic

namespace Shape

variable {pos : GridPos}

theorem ActorBox.opens {ι : Type} [Icon ι Rat] {b : ActorBox ι Rat} (hpadding : 0 < b.padding) (hgap : 0 ≤ b.gap) :
    (∃ c ∈ b.constraints pos, ∀ gaps, c.horizontal.Opens gaps pos.col) ∧
      ∃ c ∈ b.constraints pos, ∀ gaps, c.horizontal.Opens gaps (pos.col + 1) := by
  have hlabel := b.label.width_nonneg.trans (le_max_left b.label.size.width b.iconRoom.width)
  have hwidth : b.size.width = max b.label.size.width b.iconRoom.width + 2 * b.padding := two_eq ▸ rfl
  have hhalf : 0 < b.size.width / 2.0 + b.gap / 2.0 := by linarith
  unfold constraints
  constructor <;> refine ⟨_, List.mem_cons_self, fun _ => ?_⟩ <;> cases b.footer
  · exact .inl ⟨rfl, hhalf⟩
  · exact .inl ⟨rfl, hhalf⟩
  · exact .inr ⟨rfl, hhalf⟩
  · exact .inr ⟨rfl, hhalf⟩

theorem Message.opens_loop {m : Message Rat} (hloop : m.isLoop = true) (hwidth : 8 ≤ m.loop.width)
    (hgap : 0 ≤ m.labelGap) (hpadding : 0 ≤ m.padding) :
    ∃ c ∈ m.constraints pos, ∀ gaps, c.horizontal.Opens gaps (pos.col + 1) := by
  have hlabel := m.label.width_nonneg
  have hroom : 0 < m.loop.width + m.labelGap + m.label.size.width + m.padding := by linarith
  unfold constraints
  rw [hloop]
  exact ⟨_, List.mem_cons_self, fun gaps => .inr ⟨rfl, hroom⟩⟩

theorem Message.ends_apart {m : Message Rat} (hline : m.isLoop = false) (hcol : m.fromCol = pos.col)
    (hpadding : 0 < m.padding) {g : Grid Rat} {left right : Rat}
    (hprovides : g.Provides left right (m.constraints pos)) :
    g.colX pos.col ≠ g.colX m.toCol := by
  have hlabel := m.label.width_nonneg
  have hne : pos.col ≠ m.toCol := hcol ▸ of_decide_eq_false hline
  unfold constraints at hprovides
  rw [hline] at hprovides
  have hspan := hprovides.spans List.mem_cons_self hne
  dsimp only at hspan
  have hpos : 0 < |g.colX pos.col - g.colX m.toCol| := by linarith
  exact sub_ne_zero.mp (abs_pos.mp hpos)

namespace NoteBox

variable {n : NoteBox Rat} (halone : n.alignment = .over → n.otherCol = none) (hpadding : 0 ≤ n.padding)
  (hoffset : 0 < n.offset)

include hpadding hoffset

theorem sides_pos : 0 < n.size.width + 2.0 * n.offset ∧ 0 < n.size.width / 2.0 + n.offset := by
  have hwidth : 0 ≤ n.size.width := by
    rw [size_eq]
    exact add_nonneg n.text.width_nonneg (by linarith)
  constructor <;> linarith

include halone

theorem opens_after (halign : n.alignment ≠ .left) :
    ∃ c ∈ n.constraints pos, ∀ gaps, c.horizontal.Opens gaps (pos.col + 1) := by
  obtain ⟨hwide, hhalf⟩ := sides_pos hpadding hoffset
  unfold constraints sideConstraints
  cases hside : n.alignment with
  | left => contradiction
  | right => exact ⟨_, List.mem_cons_of_mem _ List.mem_cons_self, fun gaps => .inr ⟨rfl, hwide⟩⟩
  | _ =>
    rw [halone hside]
    exact ⟨_, List.mem_cons_of_mem _ List.mem_cons_self, fun gaps => .inr ⟨rfl, hhalf⟩⟩

theorem opens_before (halign : n.alignment ≠ .right) :
    ∃ c ∈ n.constraints pos, ∀ gaps, c.horizontal.Opens gaps pos.col := by
  obtain ⟨hwide, hhalf⟩ := sides_pos hpadding hoffset
  unfold constraints sideConstraints
  cases hside : n.alignment with
  | left => exact ⟨_, List.mem_cons_of_mem _ List.mem_cons_self, fun gaps => .inl ⟨rfl, hwide⟩⟩
  | right => contradiction
  | _ =>
    rw [halone hside]
    exact ⟨_, List.mem_cons_of_mem _ List.mem_cons_self, fun gaps => .inl ⟨rfl, hhalf⟩⟩

end NoteBox

end Shape

namespace Diagram

section Order

variable {ι : Type} [Icon ι Rat] {d : Diagram ι} (h : d.Sound) {config : Config Rat} (font : Font Rat)

include h

theorem opensCol_of_unframed {placed : Placed (Shape ι Rat)} (hplaced : placed ∈ (d.layout config font).unframed d)
    {col : Nat} (hopens : ∃ c ∈ placed.item.constraints placed.pos d.lastCol, ∀ gaps, c.horizontal.Opens gaps col) :
    (d.graphic config font).OpensCol col := by
  obtain ⟨c, hc, hopens⟩ := hopens
  exact Graphic.opensCol_of_mem (mem_constraints_of_unframed h font hplaced c hc) hopens

/-- Neighbouring lifelines lie apart exactly if something opens the gap on the right of the first or the one on the left
of the second. -/
theorem lifelineX_lt_iff (hroomy : config.Roomy) {rank : Nat} (hrank : rank + 1 < d.actors.length) :
    d.lifelineX config font rank < d.lifelineX config font (rank + 1) ↔
      (d.graphic config font).OpensCol (actorCol rank + 1) ∨
        (d.graphic config font).OpensCol (actorCol (rank + 1)) := by
  have hfits := fits_graphic h hroomy font
  have hcols : actorCol (rank + 1) ≤ (d.graphic config font).grid.cols := by
    rw [cols_graphic h font]
    exact (actorCol_lt_lastCol hrank).le
  have hmono := colX_mono h font hroomy
  have hfirst : d.lifelineX config font rank ≤ d.colX config font (actorCol rank + 1) := hmono (Nat.le_succ _)
  have hsecond : d.colX config font (actorCol rank + 1) ≤ d.lifelineX config font (rank + 1) := hmono (Nat.le_succ _)
  have hleft : d.lifelineX config font rank < d.colX config font (actorCol rank + 1) ↔ _ :=
    Graphic.colX_lt_succ_iff hfits ((Nat.le_succ _).trans hcols)
  have hright : d.colX config font (actorCol rank + 1) < d.lifelineX config font (rank + 1) ↔ _ :=
    Graphic.colX_lt_succ_iff hfits hcols
  refine Iff.trans ?_ (or_congr hleft hright)
  constructor
  · exact fun hlt => (lt_or_ge _ _).imp id fun hle => hle.trans_lt hlt
  · rintro (hlt | hlt)
    · exact hlt.trans_le hsecond
    · exact hfirst.trans_lt hlt

theorem opensCol_of_box (hample : config.Ample) {actor : Actor ι} (hactor : actor ∈ d.actors) {footer : Bool}
    (hshown : actor.shows footer = true) :
    (d.graphic config font).OpensCol (actorCol actor.rank) ∧
      (d.graphic config font).OpensCol (actorCol actor.rank + 1) := by
  have hpadding : 0 < ((d.layout config font).actorBox actor footer).padding :=
    lt_of_lt_of_le (by norm_num [Icon.overhang]) hample.actorPadding
  obtain ⟨hbefore, hafter⟩ := Shape.ActorBox.opens hpadding hample.actorGap
  exact ⟨opensCol_of_unframed h font (box_mem_unframed font hactor hshown) hbefore,
    opensCol_of_unframed h font (box_mem_unframed font hactor hshown) hafter⟩

theorem opensCol_of_loop (hample : config.Ample) {a : Action} {row rank : Nat}
    (he : (.action a, row) ∈ (Item.entriesAll d.items).zipIdx 2) (hself : (Entry.action a).OfActor rank) :
    (d.graphic config font).OpensCol (actorCol rank + 1) := by
  have hloop : ((d.layout config font).message a).isLoop = true :=
    (isLoop_eq_isSelf h font he).trans (decide_eq_true (hself.1.trans hself.2.symm))
  rw [← ((d.layout config font).cols_loop hself).1]
  exact opensCol_of_unframed h font (message_mem_unframed font he)
    (Shape.Message.opens_loop hloop hample.loopWidth hample.labelGap hample.messagePadding)

theorem opensCol_of_note (hample : config.Ample) (hoffset : 0 < config.noteOffset) {n : Note} {row rank : Nat}
    (he : (.note n, row) ∈ (Item.entriesAll d.items).zipIdx 2) (hof : (Entry.note n).OfActor rank) :
    (n.alignment ≠ .left → (d.graphic config font).OpensCol (actorCol rank + 1)) ∧
      (n.alignment ≠ .right → (d.graphic config font).OpensCol (actorCol rank)) := by
  have halone := (d.layout config font).otherCol_note hof
  rw [← (d.layout config font).col_note hof]
  exact ⟨fun halign => opensCol_of_unframed h font (note_mem_unframed font he)
      (Shape.NoteBox.opens_after halone hample.notePadding hoffset halign),
    fun halign => opensCol_of_unframed h font (note_mem_unframed font he)
      (Shape.NoteBox.opens_before halone hample.notePadding hoffset halign)⟩

theorem ends_apart (hample : config.Ample) {a : Action} {row : Nat}
    (he : (.action a, row) ∈ (Item.entriesAll d.items).zipIdx 2) (hends : a.sender ≠ a.receiver) :
    d.participantX config font a.sender ≠ d.participantX config font a.receiver := by
  have hprovides := (Graphic.provides (fits_graphic h hample.toRoomy font)).subset
    (mem_constraints_of_unframed h font (message_mem_unframed font he))
  have hline : ((d.layout config font).message a).isLoop = false :=
    (isLoop_eq_isSelf h font he).trans (decide_eq_false hends)
  have hpadding : 0 < ((d.layout config font).message a).padding :=
    lt_of_lt_of_le (by norm_num) hample.headLength
  have hapart := Shape.Message.ends_apart hline rfl hpadding hprovides
  exact hapart

theorem lifelineX_lt_of_parts (hample : config.Ample) (hoffset : 0 < config.noteOffset) {e : Entry} {row rank : Nat}
    (he : (e, row) ∈ (Item.entriesAll d.items).zipIdx 2) (hparts : e.Parts rank) (hrank : rank + 1 < d.actors.length) :
    d.lifelineX config font rank < d.lifelineX config font (rank + 1) := by
  have hle : d.lifelineX config font rank ≤ d.lifelineX config font (rank + 1) :=
    colX_mono h font hample.toRoomy (Nat.le_add_right _ 2)
  have hiff := lifelineX_lt_iff h font hample.toRoomy hrank
  cases e with
  | action a =>
    have hapart : ∀ {first second : Nat}, first ≠ second → a.sender = .actor first → a.receiver = .actor second →
        d.lifelineX config font first ≠ d.lifelineX config font second := by
      intro first second hne hsender hreceiver
      have hends := ends_apart h font hample he (by simp [hsender, hreceiver, hne])
      rw [hsender, hreceiver] at hends
      exact hends
    obtain ⟨hsender, hreceiver | hreceiver⟩ | ⟨hsender, hreceiver⟩ := hparts
    · exact hiff.mpr (.inl (opensCol_of_loop h font hample he ⟨hsender, hreceiver⟩))
    · exact lt_of_le_of_ne hle (hapart (Nat.succ_ne_self rank).symm hsender hreceiver)
    · exact lt_of_le_of_ne hle (hapart (Nat.succ_ne_self rank) hsender hreceiver).symm
  | note n =>
    obtain ⟨halign, hof⟩ | ⟨halign, hof⟩ := hparts
    · exact hiff.mpr (.inl ((opensCol_of_note h font hample hoffset he hof).1 halign))
    · exact hiff.mpr (.inr ((opensCol_of_note h font hample hoffset he hof).2 halign))
  | divider => exact hparts.elim
  | header => exact hparts.elim

end Order

/-- The lifelines of neighbours are drawn in the order of their ranks. They lie apart exactly if some constraint opens a
gap between them when its turn comes; a box of one of the two is enough for that, and so is an entry that parts them. -/
theorem lifelines_in_order {text : String} {d : Diagram BuiltinIcon} (hload : load text = .ok d)
    (settings : List Instruction) (font : Font Rat) {a b : Actor BuiltinIcon} (ha : a ∈ d.actors) (hb : b ∈ d.actors)
    (hnext : b.rank = a.rank + 1) :
    (d.lifelineCall (Config.standard.withInstructions settings) font a ∈
        (d.picture (Config.standard.withInstructions settings) font).calls ∧
      d.lifelineCall (Config.standard.withInstructions settings) font b ∈
        (d.picture (Config.standard.withInstructions settings) font).calls) ∧
    d.lifelineX (Config.standard.withInstructions settings) font a.rank ≤
      d.lifelineX (Config.standard.withInstructions settings) font b.rank ∧
    (d.lifelineX (Config.standard.withInstructions settings) font a.rank <
        d.lifelineX (Config.standard.withInstructions settings) font b.rank ↔
      (d.graphic (Config.standard.withInstructions settings) font).OpensCol (actorCol a.rank + 1) ∨
        (d.graphic (Config.standard.withInstructions settings) font).OpensCol (actorCol b.rank)) ∧
    ((∃ footer, a.shows footer = true ∨ b.shows footer = true) ∨
        (∃ e row, (e, row) ∈ (Item.entriesAll d.items).zipIdx 2 ∧ e.Parts a.rank) →
      d.lifelineX (Config.standard.withInstructions settings) font a.rank <
        d.lifelineX (Config.standard.withInstructions settings) font b.rank) := by
  have hsound := sound_of_load hload
  have hinstructed := Config.instructed_withInstructions settings
  have hample := hinstructed.ample
  have hroomy : (Config.standard.withInstructions settings).Roomy := hample.toRoomy
  have hrank : a.rank + 1 < d.actors.length := hnext ▸ rank_lt hsound.ranked hb
  have hiff := lifelineX_lt_iff hsound font hroomy hrank
  rw [← hnext] at hiff
  refine ⟨⟨lifelineCall_mem hsound font ha, lifelineCall_mem hsound font hb⟩, ?_, hiff, ?_⟩
  · rw [hnext]
    exact colX_mono hsound font hroomy (Nat.le_add_right _ 2)
  · rintro (⟨footer, hshown | hshown⟩ | ⟨e, row, he, hparts⟩)
    · exact hiff.mpr (.inl (opensCol_of_box hsound font hample ha hshown).2)
    · exact hiff.mpr (.inr (opensCol_of_box hsound font hample hb hshown).1)
    · rw [hnext]
      exact lifelineX_lt_of_parts hsound font hample hinstructed.noteOffset_pos he hparts hrank

def partedSample : String :=
  "participant a\nparticipant b header=none footer=none\nparticipant c header=none footer=none\nb->c: hi"

theorem lifelines_in_order_partedSample :
    ∃ (d : Diagram BuiltinIcon) (b c : Actor BuiltinIcon), load partedSample = .ok d ∧ (b ∈ d.actors ∧ c ∈ d.actors) ∧
      c.rank = b.rank + 1 ∧ (∃ e row, (e, row) ∈ (Item.entriesAll d.items).zipIdx 2 ∧ e.Parts b.rank) ∧
      d.lifelineX (Config.standard.withInstructions []) .plain b.rank <
        d.lifelineX (Config.standard.withInstructions []) .plain c.rank := by
  let e : Entry := .action ⟨.actor 1, .actor 2, .sync, "hi"⟩
  have hchart : ((load partedSample).toOption.map fun d => (d.actors.map Actor.rank, Item.entriesAll d.items)) =
      some ([0, 1, 2], [e]) := by decide +kernel
  obtain ⟨d, hload, hchart⟩ := toOption_map_eq_some.mp hchart
  obtain ⟨hranks, hentries⟩ := Prod.mk.inj hchart
  obtain ⟨a, b, c, hlist⟩ := List.length_eq_three.mp (by simpa using congrArg List.length hranks)
  rw [hlist] at hranks
  simp only [List.map_cons, List.map_nil, List.cons.injEq, and_true] at hranks
  obtain ⟨-, hrank, hlast⟩ := hranks
  have hb : b ∈ d.actors := by simp [hlist]
  have hc : c ∈ d.actors := by simp [hlist]
  have hnext : c.rank = b.rank + 1 := by omega
  have he : (e, 2) ∈ (Item.entriesAll d.items).zipIdx 2 := by simp [hentries]
  have hparts : e.Parts b.rank := hrank ▸ .inl ⟨rfl, .inr rfl⟩
  exact ⟨d, b, c, hload, ⟨hb, hc⟩, hnext, ⟨e, 2, he, hparts⟩,
    (lifelines_in_order hload [] _ hb hc hnext).2.2.2 (.inr ⟨e, 2, he, hparts⟩)⟩

def bareSample : String := "participant a header=none footer=none\nparticipant b header=none footer=none"

/-- Both lifelines are drawn, one on top of the other. -/
theorem lifelines_coincide_bareSample :
    ∃ d : Diagram BuiltinIcon, load bareSample = .ok d ∧ (Font.plain : Font Rat).Nonneg ∧
      ∃ a ∈ d.actors, ∃ b ∈ d.actors, b.rank = a.rank + 1 ∧
        (d.lifelineCall .standard .plain a ∈
            (d.picture .standard .plain).calls ∧
          d.lifelineCall .standard .plain b ∈
            (d.picture .standard .plain).calls) ∧
        ¬ d.lifelineX .standard .plain a.rank <
          d.lifelineX .standard .plain b.rank := by
  have hchart : ((load bareSample).toOption.map fun d => d.actors.map fun actor =>
      (actor.rank, d.lifelineX .standard .plain actor.rank)) = some [(0, 10), (1, 10)] := by
    decide +kernel
  obtain ⟨d, hload, hchart⟩ := toOption_map_eq_some.mp hchart
  obtain ⟨a, b, hlist⟩ := List.length_eq_two.mp (by simpa using congrArg List.length hchart)
  rw [hlist] at hchart
  simp only [List.map_cons, List.map_nil, List.cons.injEq, Prod.mk.injEq, and_true] at hchart
  obtain ⟨⟨hfirst, hleft⟩, hsecond, hright⟩ := hchart
  have hsound := sound_of_load hload
  have ha : a ∈ d.actors := by simp [hlist]
  have hb : b ∈ d.actors := by simp [hlist]
  refine ⟨d, hload, Font.nonneg_plain, a, ha, b, hb, by omega,
    ⟨lifelineCall_mem hsound _ ha, lifelineCall_mem hsound _ hb⟩, ?_⟩
  rw [hleft, hright]
  exact lt_irrefl 10

end Diagram

end SequenceChart

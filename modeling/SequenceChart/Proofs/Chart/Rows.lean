import SequenceChart.Diagram.Load
import SequenceChart.Proofs.Chart.Runs
import SequenceChart.Proofs.Diagram.Ranks

/-! Rows and columns of a chart. Rows are counted by one recursion and handed out by another; both follow
the entries of the diagram, so each entry has a row to itself and no shape falls off the grid. -/

namespace SequenceChart

namespace Item

theorem length_entriesSegments_of_bodies {segments : List (Segment Item)}
    (hbodies : ∀ s ∈ segments, (entriesAll s.body).length = rowsAll s.body) :
    (entriesSegments segments).length = rowsSegments segments := by
  induction segments with
  | nil => rfl
  | cons s later ih =>
    have hbody := (List.forall_mem_cons.mp hbodies).1
    have hlater := ih (List.forall_mem_cons.mp hbodies).2
    rw [entriesSegments, rowsSegments, List.length_cons, List.length_append, hbody, hlater]
    omega

theorem length_entriesAll (items : List Item) : (entriesAll items).length = rowsAll items := by
  induction items using forest_induction with
  | nil => rfl
  | action a later ih =>
    rw [entriesAll, rowsAll, List.length_append, ih]
    rfl
  | note n later ih =>
    rw [entriesAll, rowsAll, List.length_append, ih]
    rfl
  | divider d later ih =>
    rw [entriesAll, rowsAll, List.length_append, ih]
    rfl
  | block segments later ihbodies ih =>
    rw [entriesAll, rowsAll, List.length_append, ih, entries, rows, length_entriesSegments_of_bodies ihbodies]

theorem length_entriesSegments (segments : List (Segment Item)) :
    (entriesSegments segments).length = rowsSegments segments :=
  length_entriesSegments_of_bodies fun s _ => length_entriesAll s.body

end Item

theorem Item.mem_entriesSegments {segments : List (Segment Item)} {s : Segment Item} (hs : s ∈ segments)
    {e : Entry} (he : e ∈ entriesAll s.body) : e ∈ entriesSegments segments := by
  induction segments with
  | nil => contradiction
  | cons first later ih =>
    rw [entriesSegments_cons, List.mem_cons, List.mem_append]
    cases List.mem_cons.mp hs with
    | inl hfirst => exact .inr (.inl (hfirst ▸ he))
    | inr hlater => exact .inr (.inr (ih hlater))

/-- What fills a row: the shape of an entry, or the header of a segment on the frame of its block. -/
inductive RowUse (α : Type) where
  | message (m : Shape.Message α)
  | note (n : Shape.NoteBox α)
  | separator (s : Shape.Separator α)
  | header (h : Shape.FrameHeader α)

def Shape.Frame.rowUses {α : Type} (f : Shape.Frame α) : List (Nat × RowUse α) :=
  f.segments.map fun h => (h.row, .header h)

/-- The rows that a placed shape has for itself. Boxes, lifelines and the title share theirs. -/
def Placed.rowUses {ι α : Type} (placed : Placed (Shape ι α)) : List (Nat × RowUse α) :=
  match placed.item with
  | .message m => [(placed.pos.row, .message m)]
  | .note n => [(placed.pos.row, .note n)]
  | .separator s => [(placed.pos.row, .separator s)]
  | .frame f => f.rowUses
  | .title _ => []
  | .actorBox _ => []
  | .lifeline _ => []

namespace LayoutRun

variable {ι α : Type}

def frameUses (run : LayoutRun ι α) : List (Nat × RowUse α) := run.frames.flatMap (·.item.rowUses)

def rowUses (run : LayoutRun ι α) : List (Nat × RowUse α) :=
  run.shapes.flatMap Placed.rowUses ++ run.frameUses

def places (run : LayoutRun ι α) : List GridPos := run.shapes.map (·.pos) ++ run.frames.map (·.pos)

end LayoutRun

def SegmentRun.rowUses {ι α : Type} (run : SegmentRun ι α) : List (Nat × RowUse α) :=
  run.shapes.flatMap Placed.rowUses ++
    (run.headers.map (fun h => (h.row, RowUse.header h)) ++ run.frameUses)

theorem perm_interleave {α : Type} (a b c d : List α) : ((a ++ b) ++ (c ++ d)).Perm ((a ++ c) ++ (b ++ d)) := by
  simp only [List.append_assoc]
  exact (List.perm_append_comm_assoc b c d).append_left a

namespace Layout

variable {ι α : Type} [Length α]

def rowUse (l : Layout α) (row : Nat) : Entry → RowUse α
  | .action a => .message (l.message a)
  | .note n => .note (l.note n)
  | .divider d => .separator (l.separator d)
  | .header h => .header (l.frameHeader row h)

/-- Entries on rows that follow one another. -/
def rowUses (l : Layout α) (row : Nat) (entries : List Entry) : List (Nat × RowUse α) :=
  (entries.zipIdx row).map fun e => (e.2, l.rowUse e.2 e.1)

theorem rowUses_cons (l : Layout α) (row : Nat) (e : Entry) (later : List Entry) :
    l.rowUses row (e :: later) = (row, l.rowUse row e) :: l.rowUses (row + 1) later := rfl

theorem rowUses_append (l : Layout α) (row : Nat) (entries later : List Entry) :
    l.rowUses row (entries ++ later) = l.rowUses row entries ++ l.rowUses (row + entries.length) later := by
  simp only [rowUses, List.zipIdx_append, List.map_append]

theorem rows_rowUses (l : Layout α) (row : Nat) (entries : List Entry) :
    (l.rowUses row entries).map Prod.fst = List.range' row entries.length := by
  rw [rowUses, List.map_map, ← List.zipIdx_map_snd]
  rfl

theorem next_segments_of_bodies (l : Layout α) {segments : List (Segment Item)}
    (hbodies : ∀ s ∈ segments, ∀ row depth,
      (l.items row depth s.body : LayoutRun ι α).next = row + Item.rowsAll s.body) (row depth : Nat) :
    (l.segments row depth segments : SegmentRun ι α).next = row + Item.rowsSegments segments := by
  induction segments generalizing row with
  | nil => rfl
  | cons s later ih =>
    have hbody := (List.forall_mem_cons.mp hbodies).1
    have hlater := ih (List.forall_mem_cons.mp hbodies).2
    rw [segments_cons, Item.rowsSegments]
    dsimp only [SegmentRun.append, LayoutRun.append]
    rw [hlater, hbody]
    omega

/-- Laying items out from a row on takes exactly the rows that are counted for them. -/
theorem next_items (l : Layout α) (items : List Item) (row depth : Nat) :
    (l.items row depth items : LayoutRun ι α).next = row + Item.rowsAll items := by
  induction items using Item.forest_induction generalizing row depth with
  | nil => rfl
  | action a later ih =>
    rw [items_cons, Item.rowsAll, LayoutRun.append, ih]
    exact Nat.add_assoc row 1 _
  | note n later ih =>
    rw [items_cons, Item.rowsAll, LayoutRun.append, ih]
    exact Nat.add_assoc row 1 _
  | divider d later ih =>
    rw [items_cons, Item.rowsAll, LayoutRun.append, ih]
    exact Nat.add_assoc row 1 _
  | block segments later ihbodies ih =>
    rw [items_cons, Item.rowsAll, LayoutRun.append, ih, item_block, Item.rows, next_segments_of_bodies l ihbodies]
    omega

theorem next_segments (l : Layout α) (segments : List (Segment Item)) (row depth : Nat) :
    (l.segments row depth segments : SegmentRun ι α).next = row + Item.rowsSegments segments :=
  next_segments_of_bodies l (fun s _ => next_items l s.body) row depth

theorem perm_segments (l : Layout α) {segments : List (Segment Item)}
    (hbodies : ∀ s ∈ segments, ∀ row depth,
      (l.items row depth s.body : LayoutRun ι α).rowUses.Perm (l.rowUses row (Item.entriesAll s.body)))
    (row depth : Nat) :
    (l.segments row depth segments : SegmentRun ι α).rowUses.Perm
      (l.rowUses row (Item.entriesSegments segments)) := by
  induction segments generalizing row with
  | nil => exact List.Perm.refl _
  | cons s later ih =>
    obtain ⟨heading, body⟩ := s
    have hbody := (List.forall_mem_cons.mp hbodies).1 (row + 1) (depth + 1)
    have hlater := ih (List.forall_mem_cons.mp hbodies).2 (row + 1 + Item.rowsAll body)
    rw [Item.entriesSegments, rowUses_cons, rowUses_append, Item.length_entriesAll, segments_cons, next_items]
    simp only [SegmentRun.append, LayoutRun.append, SegmentRun.rowUses, LayoutRun.rowUses, LayoutRun.frameUses,
      List.flatMap_append, List.cons_append, List.nil_append, List.map_cons] at hbody hlater ⊢
    generalize (l.segments (row + 1 + Item.rowsAll body) depth later : SegmentRun ι α) = rest at hlater ⊢
    generalize (l.items (row + 1) (depth + 1) body : LayoutRun ι α) = inner at hbody ⊢
    -- The header comes to the front, then what the body placed, then the rest of the block.
    refine List.perm_middle.trans (List.Perm.cons _ ?_)
    have hswap := (List.perm_append_comm_assoc (rest.headers.map fun h => (h.row, RowUse.header h))
      (inner.frames.flatMap (·.item.rowUses)) (rest.frames.flatMap (·.item.rowUses)))
    refine (hswap.append_left _).trans ?_
    exact (perm_interleave _ _ _ _).trans (hbody.append hlater)

theorem perm_items (l : Layout α) (items : List Item) (row depth : Nat) :
    (l.items row depth items : LayoutRun ι α).rowUses.Perm (l.rowUses row (Item.entriesAll items)) := by
  induction items using Item.forest_induction generalizing row depth with
  | nil => exact List.Perm.refl _
  | action a later ih =>
    rw [items_cons]
    exact List.Perm.cons _ (ih (row + 1) depth)
  | note n later ih =>
    rw [items_cons]
    exact List.Perm.cons _ (ih (row + 1) depth)
  | divider d later ih =>
    rw [items_cons]
    exact List.Perm.cons _ (ih (row + 1) depth)
  | block segments later ihbodies ih =>
    have hhere := perm_segments l ihbodies row depth
    have hlater := ih (row + Item.rowsSegments segments) depth
    rw [Item.entriesAll, Item.entries, rowUses_append, Item.length_entriesSegments, items_cons, item_block]
    dsimp only [LayoutRun.append]
    rw [next_segments]
    simp only [SegmentRun.rowUses, LayoutRun.rowUses, LayoutRun.frameUses, List.flatMap_append, List.cons_append,
      List.flatMap_cons] at hhere hlater ⊢
    refine (List.Perm.of_eq (congrArg (_ ++ ·) (List.append_assoc _ _ _).symm)).trans ?_
    exact (perm_interleave _ _ _ _).trans (hhere.append hlater)

theorem places_segments (l : Layout α) {segments : List (Segment Item)} {cols : Nat}
    (hbodies : ∀ s ∈ segments, ∀ row depth, ∀ pos ∈ (l.items row depth s.body : LayoutRun ι α).places,
      pos.row ≤ row + Item.rowsAll s.body ∧ pos.col ≤ cols) (row depth : Nat) :
    ∀ pos ∈ (l.segments row depth segments : SegmentRun ι α).places,
      pos.row ≤ row + Item.rowsSegments segments ∧ pos.col ≤ cols := by
  induction segments generalizing row with
  | nil => exact nofun
  | cons s later ih =>
    obtain ⟨heading, body⟩ := s
    have hbody := (List.forall_mem_cons.mp hbodies).1 (row + 1) (depth + 1)
    have hlater := ih (List.forall_mem_cons.mp hbodies).2 (row + 1 + Item.rowsAll body)
    rw [segments_cons, Item.rowsSegments, next_items]
    intro pos hpos
    simp only [SegmentRun.append, LayoutRun.append, LayoutRun.places, List.map_append, List.mem_append] at hpos hbody hlater
    obtain (hpos | hpos) | hpos | hpos := hpos
    · have hinside := hbody pos (.inl hpos)
      omega
    · have hinside := hlater pos (.inl hpos)
      omega
    · have hinside := hbody pos (.inr hpos)
      omega
    · have hinside := hlater pos (.inr hpos)
      omega

theorem places_cons {places : List GridPos} {row rows col cols : Nat} (hcol : col ≤ cols)
    (hplaces : ∀ pos ∈ places, pos.row ≤ row + 1 + rows ∧ pos.col ≤ cols) :
    ∀ pos ∈ ⟨row, col⟩ :: places, pos.row ≤ row + (1 + rows) ∧ pos.col ≤ cols := by
  rw [List.forall_mem_cons, ← Nat.add_assoc]
  refine ⟨⟨?_, hcol⟩, hplaces⟩
  dsimp only
  omega

theorem places_items (l : Layout α) {items : List Item} {cols : Nat}
    (hcols : ∀ e ∈ Item.entriesAll items, ∀ p ∈ e.participants, l.col p ≤ cols) (row depth : Nat) :
    ∀ pos ∈ (l.items row depth items : LayoutRun ι α).places,
      pos.row ≤ row + Item.rowsAll items ∧ pos.col ≤ cols := by
  induction items using Item.forest_induction generalizing row depth with
  | nil => exact nofun
  | action a later ih =>
    obtain ⟨hhere, hlater⟩ := List.forall_mem_cons.mp hcols
    rw [items_cons]
    exact places_cons (hhere a.sender List.mem_cons_self) (ih hlater (row + 1) depth)
  | note n later ih =>
    obtain ⟨hhere, hlater⟩ := List.forall_mem_cons.mp hcols
    rw [items_cons]
    exact places_cons (hhere n.first List.mem_cons_self) (ih hlater (row + 1) depth)
  | divider d later ih =>
    obtain ⟨_, hlater⟩ := List.forall_mem_cons.mp hcols
    rw [items_cons]
    exact places_cons (Nat.zero_le cols) (ih hlater (row + 1) depth)
  | block segments later ihbodies ih =>
    rw [Item.entriesAll_cons, List.forall_mem_append, Item.entries] at hcols
    have hbodies : ∀ s ∈ segments, ∀ e ∈ Item.entriesAll s.body, ∀ p ∈ e.participants, l.col p ≤ cols :=
      fun s hs e he => hcols.1 e (Item.mem_entriesSegments hs he)
    have hhere := places_segments (ι := ι) l (fun s hs => ihbodies s hs (hbodies s hs)) row depth
    have hlater := ih hcols.2 (row + Item.rowsSegments segments) depth
    rw [items_cons, item_block, Item.rowsAll, Item.rows]
    dsimp only [LayoutRun.append]
    rw [next_segments]
    intro pos hpos
    simp only [LayoutRun.places, List.map_append, List.map_cons, List.mem_append, List.mem_cons] at hpos hhere hlater
    obtain (hpos | hpos) | (rfl | hpos) | hpos := hpos
    · have hinside := hhere pos (.inl hpos)
      omega
    · have hinside := hlater pos (.inl hpos)
      omega
    · exact ⟨Nat.le_add_right _ _, Nat.zero_le _⟩
    · have hinside := hhere pos (.inr hpos)
      omega
    · have hinside := hlater pos (.inr hpos)
      omega

omit [Length α] in
theorem pos_reserveMargins (frames : List (Placed (Shape.Frame α))) :
    (reserveMargins frames).map (·.pos) = frames.map (·.pos) := by
  cases frames <;> rfl

omit [Length α] in
theorem rowUses_reserveMargins (frames : List (Placed (Shape.Frame α))) :
    (reserveMargins frames).flatMap (·.item.rowUses) = frames.flatMap (·.item.rowUses) := by
  cases frames <;> rfl

theorem rowUses_boxes (l : Layout α) (actor : Actor ι) : (l.boxes actor).flatMap Placed.rowUses = [] := by
  unfold boxes
  split <;> split <;> rfl

theorem rowUses_placements (l : Layout α) (d : Diagram ι) :
    (l.placements d).flatMap Placed.rowUses = (l.items 2 0 d.items : LayoutRun ι α).rowUses := by
  have hboxes : (d.actors.flatMap l.boxes).flatMap Placed.rowUses = [] := by
    simp only [List.flatMap_assoc, rowUses_boxes, List.flatMap_eq_nil_iff, implies_true]
  have hlifelines : (d.actors.map fun actor => (⟨⟨1, actorCol actor.rank⟩, .lifeline (l.lifeline actor)⟩ :
      Placed (Shape ι α))).flatMap Placed.rowUses = [] := by
    simp [List.flatMap_map, Placed.rowUses]
  have htitle : (d.title.toList.map fun title => (⟨⟨0, 0⟩, .title (l.title title)⟩ :
      Placed (Shape ι α))).flatMap Placed.rowUses = [] := by
    cases d.title <;> rfl
  have hframes : ∀ frames : List (Placed (Shape.Frame α)),
      (frames.map fun placed => (⟨placed.pos, .frame placed.item⟩ : Placed (Shape ι α))).flatMap
        Placed.rowUses = frames.flatMap (·.item.rowUses) := by
    intro frames
    rw [List.flatMap_map]
    rfl
  unfold placements
  simp only [List.flatMap_append, hboxes, hlifelines, htitle, hframes, rowUses_reserveMargins, List.nil_append,
    LayoutRun.rowUses, LayoutRun.frameUses]

theorem places_boxes (l : Layout α) (actor : Actor ι) :
    ∀ placed ∈ l.boxes actor, placed.pos.row ≤ max 1 l.rows ∧ placed.pos.col = actorCol actor.rank := by
  intro placed hplaced
  unfold boxes at hplaced
  rw [List.mem_append] at hplaced
  cases hplaced with
  | inl hplaced =>
    split at hplaced
    · obtain rfl := List.mem_singleton.mp hplaced
      exact ⟨Nat.le_max_left _ _, rfl⟩
    · contradiction
  | inr hplaced =>
    split at hplaced
    · obtain rfl := List.mem_singleton.mp hplaced
      exact ⟨Nat.le_max_right _ _, rfl⟩
    · contradiction

theorem isLoop_message {l : Layout α} {a : Action}
    (hcols : ∀ {p q}, p ∈ (Entry.action a).participants → q ∈ (Entry.action a).participants →
      l.col p = l.col q → p = q) : (l.message a).isLoop = a.isSelf := by
  unfold Shape.Message.isLoop Action.isSelf
  apply decide_eq_decide.mpr
  constructor
  · exact hcols List.mem_cons_self (List.mem_cons_of_mem _ List.mem_cons_self)
  · intro hsame
    exact congrArg l.col hsame

omit [Length α] in
theorem col_le {l : Layout α} {actors : Nat} (hlast : l.cols = lastCol actors) {p : Participant}
    (hp : p.Within actors) : l.col p ≤ lastCol actors := by
  cases p with
  | actor rank => exact Nat.le_of_lt (actorCol_lt_lastCol hp)
  | leftOffside => exact Nat.zero_le _
  | rightOffside => exact Nat.le_of_eq hlast

omit [Length α] in
theorem col_injective {l : Layout α} {actors : Nat} (hlast : l.cols = lastCol actors) {p q : Participant}
    (hp : p.Within actors) (hq : q.Within actors) (h : l.col p = l.col q) : p = q := by
  cases p with
  | actor rank =>
    cases q with
    | actor other => exact congrArg Participant.actor (actorCol_injective h)
    | leftOffside =>
      simp [col, actorCol] at h
    | rightOffside =>
      have hlt := actorCol_lt_lastCol hp
      simp only [col, hlast] at h
      omega
  | leftOffside =>
    cases q with
    | actor other =>
      simp [col, actorCol] at h
    | leftOffside => rfl
    | rightOffside =>
      simp [col, hlast, lastCol] at h
  | rightOffside =>
    cases q with
    | actor other =>
      have hlt := actorCol_lt_lastCol hq
      simp only [col, hlast] at h
      omega
    | leftOffside =>
      simp [col, hlast, lastCol] at h
    | rightOffside => rfl

end Layout

namespace Graphic

variable {σ α : Type}

theorem foldl_put (g : Graphic σ α) {placed : List (Placed σ)}
    (h : ∀ p ∈ placed, g.grid.Contains p.pos) :
    placed.foldl (fun g p => (g.put p.pos p.item).2) g = { g with items := g.items ++ placed } := by
  induction placed generalizing g with
  | nil => rw [List.foldl_nil, List.append_nil]
  | cons p later ih =>
    obtain ⟨hp, hlater⟩ := List.forall_mem_cons.mp h
    rw [List.foldl_cons, put_of_contains hp, ih]
    · rw [List.append_assoc, List.singleton_append]
    · exact hlater

end Graphic

namespace Diagram

variable {ι α : Type} [Length α]

def layout (d : Diagram ι) (config : Config α) (font : Font α) : Layout α :=
  ⟨config, font, d.lastRow, d.lastCol⟩

theorem contains_placements {d : Diagram ι} (h : d.Ranked) (config : Config α) (font : Font α) :
    ∀ placed ∈ (d.layout config font).placements d,
      placed.pos.row ≤ d.lastRow ∧ placed.pos.col ≤ d.lastCol := by
  have hcol : ∀ a ∈ d.actors, actorCol a.rank ≤ d.lastCol := fun a ha =>
    Nat.le_of_lt (actorCol_lt_lastCol (rank_lt h ha))
  have hitems : ∀ pos ∈ ((d.layout config font).items 2 0 d.items : LayoutRun ι α).places,
      pos.row ≤ d.lastRow ∧ pos.col ≤ d.lastCol := by
    apply Layout.places_items
    intro e he p hp
    exact Layout.col_le rfl (h.within e he p hp)
  have hfirst : 1 ≤ d.lastRow := by
    unfold lastRow
    omega
  intro placed hplaced
  unfold Layout.placements at hplaced
  simp only [List.mem_append] at hplaced
  obtain (((hplaced | hplaced) | hplaced) | hplaced) | hplaced := hplaced
  · obtain ⟨a, ha, hplaced⟩ := List.mem_flatMap.mp hplaced
    obtain ⟨hrow, hpos⟩ := Layout.places_boxes _ a placed hplaced
    rw [hpos]
    exact ⟨Nat.le_trans hrow (Nat.max_le.mpr ⟨hfirst, Nat.le_refl _⟩), hcol a ha⟩
  · obtain ⟨a, ha, rfl⟩ := List.mem_map.mp hplaced
    exact ⟨hfirst, hcol a ha⟩
  · obtain ⟨title, _, rfl⟩ := List.mem_map.mp hplaced
    exact ⟨Nat.zero_le _, Nat.zero_le _⟩
  · exact hitems placed.pos (List.mem_append_left _ (List.mem_map_of_mem hplaced))
  · obtain ⟨frame, hframe, rfl⟩ := List.mem_map.mp hplaced
    have hpos := List.mem_map_of_mem (f := (·.pos)) hframe
    rw [Layout.pos_reserveMargins] at hpos
    exact hitems frame.pos (List.mem_append_right _ hpos)

theorem graphic_eq {d : Diagram ι} (h : d.Ranked) (config : Config α) (font : Font α) :
    d.graphic config font =
      { (Graphic.empty d.lastRow d.lastCol config.margin : Graphic (Shape ι α) α) with
        items := (d.layout config font).placements d } :=
  Graphic.foldl_put _ (contains_placements h config font)

/-- A diagram that was built is laid out without loss or collision. No placement is rejected; a run of items
takes the rows that are counted for it, wherever it starts; the rows between the header and the footer are
filled by the entries of the diagram, one each and in order; and participants keep to columns of their own,
so an arrow is a loop exactly if it returns to its sender. -/
theorem rows_allotted {b : Builder ι} {nodes : List Node} {d : Diagram ι} (h : b.build nodes = .ok d)
    (config : Config α) (font : Font α) :
    ((d.graphic config font).rejected = 0 ∧
      (d.graphic config font).items = (d.layout config font).placements d) ∧
    (∀ row depth items, ((d.layout config font).items row depth items : LayoutRun ι α).next =
      row + Item.rowsAll items) ∧
    ((d.graphic config font).items.flatMap Placed.rowUses).Perm
      ((d.layout config font).rowUses 2 (Item.entriesAll d.items)) ∧
    ((d.layout config font).rowUses 2 (Item.entriesAll d.items)).map Prod.fst =
      List.range' 2 (d.lastRow - 2) ∧
    (∀ e ∈ Item.entriesAll d.items, ∀ p ∈ e.participants, (d.layout config font).col p ≤ d.lastCol ∧
      ∀ f ∈ Item.entriesAll d.items, ∀ q ∈ f.participants,
        (d.layout config font).col p = (d.layout config font).col q → p = q) ∧
    ∀ a, .action a ∈ Item.entriesAll d.items → ((d.layout config font).message a).isLoop = a.isSelf := by
  have hranked := ranked_of_build h
  have hgraphic := graphic_eq hranked config font
  refine ⟨⟨?_, ?_⟩, ?_, ?_, ?_, ?_, ?_⟩
  · rw [hgraphic]
    rfl
  · rw [hgraphic]
  · exact fun row depth items => Layout.next_items _ items row depth
  · rw [hgraphic, Layout.rowUses_placements]
    exact Layout.perm_items _ _ _ _
  · rw [Layout.rows_rowUses, Item.length_entriesAll, lastRow, Nat.add_sub_cancel_left]
  · intro e he p hp
    refine ⟨Layout.col_le rfl (hranked.within e he p hp), ?_⟩
    intro f hf q hq
    exact Layout.col_injective rfl (hranked.within e he p hp) (hranked.within f hf q hq)
  · intro a ha
    apply Layout.isLoop_message
    intro p q hp hq
    exact Layout.col_injective rfl (hranked.within _ ha p hp) (hranked.within _ ha q hq)

def rowsSample : List Node :=
  [.leaf 1 (.title "t"), .leaf 2 (.action (.pseudo "LEFT") (.named "a") .sync ""), .block 3 [],
    .block 4 [⟨.alt "x", [.leaf 5 (.action (.named "b") (.named "b") .response ""), .block 6 []]⟩,
      ⟨.otherwise "", [.leaf 7 (.note [.named "a", .named "b"] .over "")]⟩],
    .leaf 8 (.gap .line none)]

theorem rows_allotted_rowsSample :
    ∃ d : Diagram BuiltinIcon, ofNodes rowsSample = .ok d ∧
      (d.graphic (.standard : Config Rat) .plain).rejected = 0 ∧
      (((d.graphic (.standard : Config Rat) .plain).items.flatMap
        Placed.rowUses).map Prod.fst).Perm (List.range' 2 (d.lastRow - 2)) := by
  have hok : (ofNodes rowsSample).isOk := by decide +kernel
  obtain ⟨d, hbuild⟩ := isOk_iff.mp hok
  obtain ⟨⟨hrejected, _⟩, _, hperm, hrows, _⟩ :=
    rows_allotted hbuild (.standard : Config Rat) .plain
  exact ⟨d, hbuild, hrejected, hrows ▸ hperm.map Prod.fst⟩

end Diagram

end SequenceChart

import SequenceChart.Proofs.Chart.Spacing

/-! The gap above a block, exactly. No two headers share a row, so of all frames only those that end on the row
before and then the block's own have a part in it. -/

namespace SequenceChart

def Entry.descends : Entry → Bool
  | .action _ => true
  | .note _ => true
  | .divider _ => false
  | .header _ => false

namespace BlockSite

def headerRows (s : BlockSite) : List Nat := s.parts.map Prod.fst

theorem exists_parts {s : BlockSite} (h : s.segments ≠ []) :
    ∃ first later, s.parts = (s.row, first) :: later ∧ ∀ part ∈ later, s.row < part.1 := by
  obtain ⟨row, depth, segments⟩ := s
  cases segments with
  | nil => contradiction
  | cons first later =>
    refine ⟨first, _, rfl, fun part hpart => ?_⟩
    have hbelow : row + 1 + Item.rowsAll first.body ≤ part.1 := (Item.mem_parts hpart).1
    dsimp only
    omega

theorem row_mem_headerRows {s : BlockSite} (h : s.segments ≠ []) : s.row ∈ s.headerRows := by
  obtain ⟨first, later, hparts, _⟩ := exists_parts h
  rw [headerRows, hparts]
  exact List.mem_cons_self

end BlockSite

namespace Diagram

variable {ι : Type}

/-- What is on a row of the chart between the header boxes and the footer boxes. -/
def entry? (d : Diagram ι) (row : Nat) : Option Entry :=
  if row < 2 then none else (Item.entriesAll d.items)[row - 2]?

theorem entry?_eq_some_iff {d : Diagram ι} {row : Nat} {e : Entry} :
    d.entry? row = some e ↔ (e, row) ∈ (Item.entriesAll d.items).zipIdx 2 := by
  unfold entry?
  rw [List.mk_mem_zipIdx_iff_le_and_getElem?_sub]
  split <;> simp <;> omega

theorem rowUses_frameAt (l : Layout Rat) (s : BlockSite) :
    (l.frameAt s).rowUses.map Prod.fst = s.headerRows := by
  simp only [Shape.Frame.rowUses, Layout.frameAt, Layout.frame, Layout.headers, List.map_map]
  rfl

theorem nodup_headerRows (d : Diagram ι) : (d.blocks.flatMap BlockSite.headerRows).Nodup := by
  let l : Layout Rat := d.layout .standard .plain
  have hperm :=
    (Layout.perm_items l d.items 2 0 : (l.items 2 0 d.items : LayoutRun ι Rat).rowUses.Perm _).map Prod.fst
  rw [Layout.rows_rowUses] at hperm
  have hnodup := (hperm.nodup_iff.mpr List.nodup_range').sublist
    ((List.sublist_append_right _ _).map Prod.fst)
  rw [LayoutRun.frameUses, Layout.frames_items, List.flatMap_map, List.map_flatMap] at hnodup
  simp only [Layout.placedFrame, rowUses_frameAt] at hnodup
  exact hnodup

theorem exists_heading {d : Diagram ι} {s : BlockSite} (hs : s ∈ d.blocks) {row : Nat} (hrow : row ∈ s.headerRows)
    {e : Entry} (he : d.entry? row = some e) : ∃ heading, e = .header heading := by
  let l : Layout Rat := d.layout .standard .plain
  obtain ⟨part, hpart, rfl⟩ := List.mem_map.mp hrow
  have huse : (part.1, RowUse.header (l.frameHeader part.1 part.2.heading)) ∈
      (l.items 2 0 d.items : LayoutRun ι Rat).rowUses := by
    refine List.mem_append_right _ ?_
    rw [LayoutRun.frameUses, Layout.frames_items, List.flatMap_map]
    refine List.mem_flatMap.mpr ⟨s, hs, ?_⟩
    exact List.mem_map_of_mem (List.mem_map_of_mem hpart)
  obtain ⟨⟨other, row⟩, hother, hsame⟩ := List.mem_map.mp ((Layout.perm_items l d.items 2 0).mem_iff.mp huse)
  obtain ⟨rfl, huse⟩ := Prod.mk.inj hsame
  rw [← entry?_eq_some_iff, he] at hother
  obtain rfl := Option.some.inj hother
  cases e with
  | header heading => exact ⟨heading, rfl⟩
  | _ => contradiction

def descent (d : Diagram ι) (config : Config Rat) (row : Nat) : Rat :=
  if (d.entry? row).any Entry.descends then config.arrowDescent else 0

end Diagram

namespace Shape

variable {gap : Nat} {pos : GridPos} (hrow : pos.row ≠ gap) (x : Rat)

include hrow

theorem Message.foldl_constraints {m : Message Rat} (hdescent : m.descent ≠ 0) :
    (m.constraints pos).foldl (fun x c => c.vertical.widen gap x) x =
      if pos.row + 1 = gap then max x m.descent else x := by
  unfold constraints
  dsimp only
  split <;> simp [Constraint.widen_floor_of_ne _ hrow, Constraint.widen_span, Sides.vertical, hdescent]

theorem NoteBox.foldl_constraints {n : NoteBox Rat} (hdescent : n.descent ≠ 0) :
    (n.constraints pos).foldl (fun x c => c.vertical.widen gap x) x =
      if pos.row + 1 = gap then max x n.descent else x := by
  have hsides : ∀ x, (n.sideConstraints pos).foldl (fun x c => c.vertical.widen gap x) x = x := by
    intro x
    unfold sideConstraints
    dsimp only
    split <;> simp [Constraint.widen_span]
  rw [constraints, List.foldl_cons, hsides, Constraint.widen_floor_of_ne _ hrow]
  simp [Sides.vertical, hdescent]

theorem Separator.foldl_constraints (s : Separator Rat) (cols : Nat) :
    (s.constraints pos cols).foldl (fun x c => c.vertical.widen gap x) x = x := by
  simp [constraints, Constraint.widen_floor_of_ne _ hrow, Constraint.widen_span, Sides.vertical, Gaps.zero_eq]

end Shape

namespace Diagram

variable {ι : Type} [Icon ι Rat]

theorem foldl_placedEntry (l : Layout Rat) (hdescent : l.config.arrowDescent ≠ 0) {gap row : Nat} (hrow : row ≠ gap)
    {e : Entry} {placed : Placed (Shape ι Rat)} (hplaced : l.placedEntry (e, row) = some placed) (cols : Nat)
    (x : Rat) :
    placed.widen cols gap x = if row + 1 = gap ∧ e.descends then max x l.config.arrowDescent else x := by
  cases e with
  | action a =>
    obtain rfl := Option.some.inj hplaced
    simp only [Entry.descends, and_true]
    exact Shape.Message.foldl_constraints hrow x hdescent
  | note n =>
    obtain rfl := Option.some.inj hplaced
    simp only [Entry.descends, and_true]
    exact Shape.NoteBox.foldl_constraints hrow x hdescent
  | divider divider =>
    obtain rfl := Option.some.inj hplaced
    simp only [Entry.descends, Bool.false_eq_true, and_false, if_false]
    exact Shape.Separator.foldl_constraints hrow x _ cols
  | header heading => contradiction

theorem widen_surroundings {l : Layout Rat} {gap : Nat} (hfirst : 1 < gap) (hlast : gap < l.rows) (d : Diagram ι)
    (cols : Nat) : ∀ placed ∈ l.surroundings d, ∀ x, placed.widen cols gap x = x := by
  have hzero : ¬ (0.0 : Rat) ≠ 0 := not_not_intro Gaps.zero_eq
  have hpast : gap < l.rows + 1 := Nat.lt_succ_of_lt hlast
  refine List.forall_mem_append.mpr ⟨List.forall_mem_append.mpr ⟨?_, ?_⟩, ?_⟩
  · refine List.forall_mem_flatMap.mpr fun actor _ placed hplaced x => ?_
    obtain ⟨footer, rfl⟩ := Layout.exists_footer_of_mem_boxes hplaced
    cases footer with
    | false => exact (Constraint.widen_floor_of_ne x hfirst.ne _).trans (if_neg fun hbelow => hzero hbelow.2)
    | true => exact (Constraint.widen_floor_of_ne x hlast.ne' _).trans (if_neg fun hbelow => hpast.ne' hbelow.1)
  · refine List.forall_mem_map.mpr fun actor _ x => ?_
    exact (Constraint.widen_floor_of_ne x hlast.ne' _).trans (if_neg fun hbelow => hzero hbelow.2)
  · refine List.forall_mem_map.mpr fun title _ x => ?_
    have habove : 0 ≠ gap := by omega
    exact (Constraint.widen_floor_of_ne x habove _).trans (if_neg fun hbelow => hzero hbelow.2)

omit [Icon ι Rat] in
theorem any_zipIdx_descends (d : Diagram ι) (row : Nat) :
    (((Item.entriesAll d.items).zipIdx 2).any fun e => decide (e.2 + 1 = row + 1 ∧ e.1.descends)) =
      (d.entry? row).any Entry.descends := by
  rw [Bool.eq_iff_iff, List.any_eq_true, Option.any_eq_true]
  constructor
  · rintro ⟨⟨e, row⟩, he, hp⟩
    obtain ⟨hrow, hdescends⟩ := of_decide_eq_true hp
    obtain rfl := Nat.succ.inj hrow
    exact ⟨e, entry?_eq_some_iff.mpr he, hdescends⟩
  · rintro ⟨e, he, hdescends⟩
    exact ⟨(e, row), entry?_eq_some_iff.mp he, decide_eq_true ⟨rfl, hdescends⟩⟩

/-- Of everything but the frames, only the entry on the row before can have room in the gap before a header. -/
theorem unframedGap_eq {d : Diagram ι} (h : d.Sound) {config : Config Rat} (hroomy : config.Roomy) (font : Font Rat)
    {s : BlockSite} (hs : s ∈ d.blocks) {row : Nat} (hrow : row + 1 ∈ s.headerRows) :
    d.unframedGap config font (row + 1) = d.descent config row := by
  obtain ⟨part, hpart, hstart⟩ := List.mem_map.mp hrow
  have hinside := Item.mem_parts hpart
  have hend := BlockSite.lastRow_succ (h.filled s hs)
  have hfirst := (arranged_blocks h).first s hs
  have hlast := lastRow_lt_lastRow h hs
  have habove : 1 < row + 1 := by omega
  have hbelow : row + 1 < d.lastRow := by omega
  unfold unframedGap Layout.unframed
  rw [List.foldl_append, foldl_eq_self (widen_surroundings habove hbelow d d.lastCol), Layout.shapes_items,
    List.foldl_filterMap]
  refine (foldl_eq_any (fun e => decide (e.2 + 1 = row + 1 ∧ e.1.descends)) config.arrowDescent ?_ 0).trans ?_
  · rintro ⟨e, other⟩ he x
    simp only [decide_eq_true_eq]
    cases hplaced : ((d.layout config font).placedEntry (e, other) : Option (Placed (Shape ι Rat))) with
    | none =>
      cases e with
      | header heading => simp [Entry.descends]
      | _ => contradiction
    | some placed =>
      refine foldl_placedEntry (d.layout config font) hroomy.arrowDescent.ne' ?_ hplaced d.lastCol x
      rintro rfl
      obtain ⟨heading, rfl⟩ := exists_heading hs hrow (entry?_eq_some_iff.mpr he)
      contradiction
  · rw [any_zipIdx_descends, max_eq_right hroomy.arrowDescent.le]
    rfl

end Diagram

theorem Layout.exists_segments (l : Layout Rat) {s : BlockSite} (h : s.segments ≠ []) :
    ∃ first later, (l.frameAt s).segments = l.frameHeader s.row first :: l.headers later ∧
      ∀ part ∈ later, s.row < part.1 := by
  obtain ⟨first, later, hparts, hlater⟩ := BlockSite.exists_parts h
  exact ⟨first.heading, later, congrArg l.headers hparts, hlater⟩

theorem Layout.frameHeader_mem (l : Layout Rat) {s : BlockSite} {part : Nat × Segment Item} (hpart : part ∈ s.parts) :
    l.frameHeader part.1 part.2.heading ∈ (l.frameAt s).segments :=
  List.mem_map_of_mem hpart

theorem Layout.mem_headerRows {l : Layout Rat} {s : BlockSite} {header : Shape.FrameHeader Rat}
    (hheader : header ∈ (l.frameAt s).segments) : header.row ∈ s.headerRows := by
  obtain ⟨part, hpart, rfl⟩ := List.mem_map.mp hheader
  exact List.mem_map_of_mem hpart

namespace Diagram

variable {ι : Type}

def tabHeight (d : Diagram ι) (config : Config Rat) (font : Font Rat) (s : BlockSite) : Rat :=
  match ((d.layout config font).frameAt s).segments with
  | [] => 0
  | first :: _ => (((d.layout config font).frameAt s).tabSize first).height

theorem exists_split {d : Diagram ι} (h : d.Sound) {s : BlockSite} (hs : s ∈ d.blocks) :
    ∃ before after, d.blocks = before ++ s :: after ∧ (∀ t ∈ before ++ after, s.row ∉ t.headerRows) ∧
      ∀ t ∈ s :: after, s.row ≤ t.lastRow := by
  have harranged := arranged_blocks h
  have hordered := harranged.ordered
  have hupright := harranged.upright
  have hnodup := nodup_headerRows d
  obtain ⟨before, after, hblocks⟩ := List.append_of_mem hs
  rw [hblocks] at hnodup hordered hupright
  have hapart := (List.perm_middle.flatMap_right BlockSite.headerRows).nodup_iff.mp hnodup
  rw [List.flatMap_cons, List.nodup_append] at hapart
  have hrow := BlockSite.row_mem_headerRows (h.filled s hs)
  refine ⟨before, after, hblocks, ?_, List.forall_mem_cons.mpr ⟨harranged.upright s hs, ?_⟩⟩
  · intro t ht hother
    exact hapart.2.2 s.row hrow s.row (List.mem_flatMap.mpr ⟨t, ht, hother⟩) rfl
  · intro t ht
    have hbelow := (List.pairwise_cons.mp (List.pairwise_append.mp hordered).2.1).1 t ht
    exact hbelow.1.le.trans (hupright t (List.mem_append_right _ (List.mem_cons_of_mem s ht)))

/-- The exact gap before a block. Of the padding that blocks ending on the row before have asked for, the tab
takes what it needs; the padding above the tab comes on top. -/
theorem rowGap_first [Icon ι Rat] {d : Diagram ι} (h : d.Sound) {config : Config Rat} (hroomy : config.Roomy)
    (font : Font Rat) {s : BlockSite} (hs : s ∈ d.blocks) {row : Nat} (hrow : s.row = row + 1) :
    d.rowGap config font s.row =
      max (d.descent config row + d.blocks.countP (·.lastRow = row) * config.blockPadding)
        (d.tabHeight config font s) + config.blockPadding := by
  obtain ⟨before, after, hblocks, hclear, hbelow⟩ := exists_split h hs
  obtain ⟨first, later, hsegments, hlater⟩ := (d.layout config font).exists_segments (h.filled s hs)
  have hpast : ∀ t ∈ s :: after, t.lastRow ≠ row := fun t ht => by
    have hle := hbelow t ht
    omega
  have hcount : d.blocks.countP (·.lastRow = row) = before.countP (·.lastRow = row) := by
    have hnone : (s :: after).countP (·.lastRow = row) = 0 :=
      List.countP_eq_zero.mpr fun t ht => mt of_decide_eq_true (hpast t ht)
    rw [hblocks, List.countP_append, hnone, Nat.add_zero]
  have hwiden : ∀ t ∈ before ++ after, ∀ x, ((d.layout config font).frameAt t).widen s.row x =
      x + if decide (t.lastRow = row) then config.blockPadding else 0 := by
    intro t ht x
    have hheaders : ∀ header ∈ ((d.layout config font).frameAt t).segments, header.row ≠ s.row :=
      fun header hheader hsame => hclear t ht (hsame ▸ Layout.mem_headerRows hheader)
    rw [Shape.Frame.widen_of_ne hheaders, hrow]
    simp only [Nat.add_right_cancel_iff, decide_eq_true_eq]
    rfl
  have hafter : ∀ t ∈ after, ∀ x, ((d.layout config font).frameAt t).widen s.row x = x := by
    intro t ht x
    rw [hwiden t (List.mem_append_right _ ht), if_neg (mt of_decide_eq_true (hpast t (List.mem_cons_of_mem s ht))),
      add_zero]
  have hunframed : d.unframedGap config font s.row = d.descent config row := by
    rw [hrow]
    exact unframedGap_eq h hroomy font hs (hrow ▸ BlockSite.row_mem_headerRows (h.filled s hs))
  have hheaders : ∀ header ∈ (d.layout config font).headers later, header.row ≠ s.row :=
    List.forall_mem_map.mpr fun part hpart => (hlater part hpart).ne'
  have hlast := (row_lt_lastRow h hs).le
  rw [rowGap_eq h hroomy font (Nat.le_succ_of_le hlast), hcount, hblocks, List.foldl_append, List.foldl_cons,
    foldl_eq_add_countP (fun t ht => hwiden t (List.mem_append_left _ ht)), foldl_eq_self hafter, hunframed,
    tabHeight, hsegments]
  exact Shape.Frame.widen_first hsegments hheaders (Nat.lt_succ_of_le (hbelow s List.mem_cons_self)).ne' _

end Diagram

end SequenceChart

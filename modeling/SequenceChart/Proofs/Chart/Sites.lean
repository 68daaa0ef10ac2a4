import SequenceChart.Proofs.Chart.Rows

/-! Blocks at their places in a chart: from which row to which row each one goes, which ones it holds, and how
many end on its last row. Two blocks either hold one another or follow each other down the rows. -/

namespace SequenceChart

/-- A block at its place: the row of its first header, how many blocks lie around it, and its segments. -/
structure BlockSite where
  row : Nat
  depth : Nat
  segments : List (Segment Item)

namespace Item

mutual

/-- The blocks of an item that starts on a row inside of so many blocks, outer ones before those inside
them. -/
def sites (row depth : Nat) : Item → List BlockSite
  | .block segments => ⟨row, depth, segments⟩ :: sitesSegments row depth segments
  | _ => []

def sitesSegments (row depth : Nat) : List (Segment Item) → List BlockSite
  | [] => []
  | ⟨_, body⟩ :: later =>
    sitesAll (row + 1) (depth + 1) body ++ sitesSegments (row + 1 + rowsAll body) depth later

def sitesAll (row depth : Nat) : List Item → List BlockSite
  | [] => []
  | item :: later => item.sites row depth ++ sitesAll (row + item.rows) depth later

end

def parts (row : Nat) : List (Segment Item) → List (Nat × Segment Item)
  | [] => []
  | s :: later => (row, s) :: parts (row + 1 + rowsAll s.body) later

theorem rowsSegments_pos {segments : List (Segment Item)} (h : segments ≠ []) : 0 < rowsSegments segments := by
  cases segments with
  | nil => contradiction
  | cons s later =>
    rw [rowsSegments]
    omega

theorem closingAll_cons (item : Item) (later : List Item) :
    closingAll (item :: later) = if later = [] then item.closing else closingAll later := by
  cases later <;> rfl

theorem closingAll_of_closing_eq_zero {item : Item} (h : item.closing = 0) (later : List Item) :
    closingAll (item :: later) = closingAll later := by
  cases later with
  | nil => exact h
  | cons => rfl

theorem closingSegments_cons (s : Segment Item) (later : List (Segment Item)) :
    closingSegments (s :: later) = if later = [] then closingAll s.body else closingSegments later := by
  cases later <;> rfl

theorem rowsAll_eq_zero_iff {items : List Item} {row depth : Nat}
    (hfilled : ∀ s ∈ sitesAll row depth items, s.segments ≠ []) : rowsAll items = 0 ↔ items = [] := by
  cases items with
  | nil => simp [rowsAll]
  | cons item later =>
    rw [rowsAll]
    cases item with
    | block segments =>
      have hpos := rowsSegments_pos (hfilled _ (List.mem_append_left _ List.mem_cons_self))
      dsimp only at hpos
      rw [rows]
      simp only [reduceCtorEq, iff_false]
      omega
    | _ =>
      rw [rows]
      · simp
      · intro segments hblock
        contradiction

end Item

namespace BlockSite

def lastRow (s : BlockSite) : Nat := s.row + Item.rowsSegments s.segments - 1

def closing (s : BlockSite) : Nat := 1 + Item.closingSegments s.segments

/-- The blocks in a block, at any depth. -/
def inner (s : BlockSite) : List BlockSite := Item.sitesSegments s.row s.depth s.segments

def parts (s : BlockSite) : List (Nat × Segment Item) := Item.parts s.row s.segments

end BlockSite

/-- Blocks of a run of items that takes so many rows from a row on, inside of so many blocks. On its last row
as many frames end as `closing` says. -/
structure Arranged (row depth rows closing : Nat) (sites : List BlockSite) : Prop where
  first : ∀ s ∈ sites, row ≤ s.row
  upright : ∀ s ∈ sites, s.row ≤ s.lastRow
  last : ∀ s ∈ sites, s.lastRow < row + rows
  deep : ∀ s ∈ sites, depth ≤ s.depth
  ordered : sites.Pairwise fun s t => s.row < t.row ∧ (t ∈ s.inner ∨ s.lastRow < t.row)
  within : ∀ s ∈ sites, (s :: s.inner).Sublist sites
  count : sites.countP (·.lastRow + 1 = row + rows) = closing

namespace Arranged

variable {row depth rows closing : Nat} {sites : List BlockSite}

theorem nil (row depth : Nat) : Arranged row depth 0 0 [] :=
  ⟨nofun, nofun, nofun, nofun, .nil, nofun, rfl⟩

theorem skip (h : Arranged (row + 1) depth rows closing sites) : Arranged row depth (1 + rows) closing sites := by
  have hend : row + (1 + rows) = row + 1 + rows := (Nat.add_assoc ..).symm
  refine ⟨fun s hs => Nat.le_of_succ_le (h.first s hs), h.upright, ?_, h.deep, h.ordered, h.within, ?_⟩
  · rw [hend]
    exact h.last
  · rw [hend]
    exact h.count

theorem append {more other : Nat} {later : List BlockSite} (h : Arranged row depth rows closing sites)
    (hlater : Arranged (row + rows) depth more other later) :
    Arranged row depth (rows + more) (if more = 0 then closing else other) (sites ++ later) := by
  have hend : row + (rows + more) = row + rows + more := (Nat.add_assoc ..).symm
  refine ⟨?_, ?_, ?_, ?_, ?_, ?_, ?_⟩
  · exact List.forall_mem_append.mpr ⟨h.first, fun s hs => Nat.le_of_add_right_le (hlater.first s hs)⟩
  · exact List.forall_mem_append.mpr ⟨h.upright, hlater.upright⟩
  · rw [hend]
    refine List.forall_mem_append.mpr ⟨?_, hlater.last⟩
    intro s hs
    exact Nat.lt_add_right more (h.last s hs)
  · exact List.forall_mem_append.mpr ⟨h.deep, hlater.deep⟩
  · refine List.pairwise_append.mpr ⟨h.ordered, hlater.ordered, ?_⟩
    intro s hs t ht
    have habove := h.upright s hs
    have hends := h.last s hs
    have hstarts := hlater.first t ht
    exact ⟨by omega, .inr (by omega)⟩
  · refine List.forall_mem_append.mpr ⟨?_, ?_⟩
    · exact fun s hs => (h.within s hs).trans (List.sublist_append_left _ _)
    · exact fun s hs => (hlater.within s hs).trans (List.sublist_append_right _ _)
  · rw [hend, List.countP_append, hlater.count]
    split
    · rename_i hmore
      subst hmore
      have hnone : later = [] := by
        refine List.eq_nil_iff_forall_not_mem.mpr fun s hs => ?_
        have hstarts := hlater.first s hs
        have habove := hlater.upright s hs
        have hends := hlater.last s hs
        omega
      rw [← hlater.count, hnone, Nat.add_zero, h.count]
      rfl
    · rename_i hmore
      have hnone : sites.countP (·.lastRow + 1 = row + rows + more) = 0 := by
        refine List.countP_eq_zero.mpr fun s hs => ?_
        have hends := h.last s hs
        simp only [decide_eq_true_eq]
        omega
      rw [hnone, Nat.zero_add]

theorem block {segments : List (Segment Item)} (hsegments : segments ≠ [])
    (h : Arranged (row + 1) (depth + 1) (Item.rowsSegments segments - 1) (Item.closingSegments segments)
      (Item.sitesSegments row depth segments)) :
    Arranged row depth (Item.rowsSegments segments) (1 + Item.closingSegments segments)
      (⟨row, depth, segments⟩ :: Item.sitesSegments row depth segments) := by
  have hpos := Item.rowsSegments_pos hsegments
  have hend : row + 1 + (Item.rowsSegments segments - 1) = row + Item.rowsSegments segments := by omega
  have hlast : (⟨row, depth, segments⟩ : BlockSite).lastRow + 1 = row + Item.rowsSegments segments := by
    unfold BlockSite.lastRow
    dsimp only
    omega
  refine ⟨?_, ?_, ?_, ?_, ?_, ?_, ?_⟩
  · exact List.forall_mem_cons.mpr ⟨Nat.le_refl row, fun s hs => Nat.le_of_succ_le (h.first s hs)⟩
  · refine List.forall_mem_cons.mpr ⟨?_, h.upright⟩
    dsimp only
    omega
  · refine List.forall_mem_cons.mpr ⟨by omega, ?_⟩
    intro s hs
    have hends := h.last s hs
    omega
  · exact List.forall_mem_cons.mpr ⟨Nat.le_refl depth, fun s hs => Nat.le_of_succ_le (h.deep s hs)⟩
  · exact List.pairwise_cons.mpr ⟨fun t ht => ⟨h.first t ht, .inl ht⟩, h.ordered⟩
  · refine List.forall_mem_cons.mpr ⟨List.Sublist.refl _, ?_⟩
    exact fun s hs => (h.within s hs).cons _
  · rw [List.countP_cons_of_pos (by simpa using hlast), ← h.count, hend, Nat.add_comm]

end Arranged

namespace Item

theorem arranged_segments {segments : List (Segment Item)} {row depth : Nat}
    (hbodies : ∀ s ∈ segments, ∀ row depth, (∀ t ∈ sitesAll row depth s.body, t.segments ≠ []) →
      Arranged row depth (rowsAll s.body) (closingAll s.body) (sitesAll row depth s.body))
    (hsegments : segments ≠ []) (hfilled : ∀ t ∈ sitesSegments row depth segments, t.segments ≠ []) :
    Arranged (row + 1) (depth + 1) (rowsSegments segments - 1) (closingSegments segments)
      (sitesSegments row depth segments) := by
  induction segments generalizing row with
  | nil => contradiction
  | cons s later ih =>
    obtain ⟨heading, body⟩ := s
    obtain ⟨hbody, hrest⟩ := List.forall_mem_cons.mp hbodies
    rw [sitesSegments, List.forall_mem_append] at hfilled
    have hhere := hbody (row + 1) (depth + 1) hfilled.1
    rw [sitesSegments, rowsSegments, closingSegments_cons, Nat.add_assoc 1, Nat.add_sub_cancel_left]
    by_cases hlater : later = []
    · subst hlater
      rw [if_pos rfl]
      exact hhere.append (Arranged.nil _ _)
    · rw [if_neg hlater]
      have hpos := rowsSegments_pos hlater
      have hnext := (ih hrest hlater hfilled.2).skip
      have hrows : 1 + (rowsSegments later - 1) = rowsSegments later := by omega
      rw [hrows] at hnext
      have hboth := hhere.append hnext
      rwa [if_neg (Nat.ne_of_gt hpos)] at hboth

theorem arranged_items (items : List Item) (row depth : Nat)
    (hfilled : ∀ s ∈ sitesAll row depth items, s.segments ≠ []) :
    Arranged row depth (rowsAll items) (closingAll items) (sitesAll row depth items) := by
  induction items using forest_induction generalizing row depth with
  | nil => exact Arranged.nil row depth
  | action a later ih =>
    rw [closingAll_of_closing_eq_zero rfl]
    exact (ih (row + 1) depth hfilled).skip
  | note n later ih =>
    rw [closingAll_of_closing_eq_zero rfl]
    exact (ih (row + 1) depth hfilled).skip
  | divider d later ih =>
    rw [closingAll_of_closing_eq_zero rfl]
    exact (ih (row + 1) depth hfilled).skip
  | block segments later ihbodies ih =>
    rw [sitesAll, List.forall_mem_append, sites, List.forall_mem_cons] at hfilled
    obtain ⟨⟨hsegments, hinner⟩, hlater⟩ := hfilled
    have hhere := Arranged.block hsegments (arranged_segments ihbodies hsegments hinner)
    have hboth := hhere.append (ih (row + rowsSegments segments) depth hlater)
    simp only [rowsAll_eq_zero_iff hlater] at hboth
    rw [closingAll_cons]
    exact hboth

theorem getElem?_parts {segments : List (Segment Item)} {row i start : Nat} {part : Segment Item}
    (hpart : (parts row segments)[i]? = some (start, part)) :
    (∀ {next later}, (parts row segments)[i + 1]? = some (next, later) → next = start + rowsAll part.body + 1) ∧
      (i + 1 = segments.length → start + rowsAll part.body + 1 = row + rowsSegments segments) := by
  induction segments generalizing row i with
  | nil => contradiction
  | cons s later ih =>
    rw [parts] at hpart ⊢
    cases i with
    | zero =>
      obtain ⟨rfl, rfl⟩ := Prod.mk.inj (Option.some.inj hpart)
      rw [rowsSegments]
      cases later with
      | nil => simp [parts, rowsSegments]; omega
      | cons second later => simp [parts]; omega
    | succ i =>
      obtain ⟨hnext, hlast⟩ := ih hpart
      refine ⟨hnext, ?_⟩
      rw [rowsSegments, List.length_cons]
      intro hi
      have hend := hlast (by omega)
      omega

theorem length_parts (row : Nat) (segments : List (Segment Item)) :
    (parts row segments).length = segments.length := by
  induction segments generalizing row with
  | nil => rfl
  | cons s later ih => rw [parts, List.length_cons, List.length_cons, ih]

theorem mem_parts {row : Nat} {segments : List (Segment Item)} {part : Nat × Segment Item}
    (h : part ∈ parts row segments) :
    row ≤ part.1 ∧ part.1 + rowsAll part.2.body < row + rowsSegments segments := by
  induction segments generalizing row with
  | nil => contradiction
  | cons s later ih =>
    rw [rowsSegments]
    cases List.mem_cons.mp h with
    | inl hfirst =>
      subst hfirst
      dsimp only
      omega
    | inr hlater =>
      have hinside := ih hlater
      omega

end Item

namespace BlockSite

variable {s t : BlockSite}

theorem lastRow_succ (h : s.segments ≠ []) : s.lastRow + 1 = s.row + Item.rowsSegments s.segments := by
  have hpos := Item.rowsSegments_pos h
  unfold lastRow
  omega

theorem arranged_inner (hfilled : ∀ t ∈ s :: s.inner, t.segments ≠ []) :
    Arranged (s.row + 1) (s.depth + 1) (Item.rowsSegments s.segments - 1) (Item.closingSegments s.segments)
      s.inner :=
  Item.arranged_segments (fun part _ row depth => Item.arranged_items part.body row depth)
    (hfilled s List.mem_cons_self) fun t ht => hfilled t (List.mem_cons_of_mem s ht)

/-- The frames that end with a block are those of the blocks that end on its last row. -/
theorem closing_eq_countP (hfilled : ∀ t ∈ s :: s.inner, t.segments ≠ []) :
    s.closing = (s :: s.inner).countP (·.lastRow = s.lastRow) := by
  have hsegments := hfilled s List.mem_cons_self
  have hcount := (Arranged.block hsegments (arranged_inner hfilled)).count
  rw [← lastRow_succ hsegments] at hcount
  simp only [Nat.add_right_cancel_iff] at hcount
  exact hcount.symm

theorem closing_pos (s : BlockSite) : 1 ≤ s.closing := Nat.le_add_right 1 _

end BlockSite

namespace Arranged

variable {row depth rows closing : Nat} {sites : List BlockSite} {s t : BlockSite}

theorem filled_of_mem (h : Arranged row depth rows closing sites) (hfilled : ∀ s ∈ sites, s.segments ≠ [])
    (hs : s ∈ sites) : ∀ t ∈ s :: s.inner, t.segments ≠ [] :=
  fun t ht => hfilled t ((h.within s hs).subset ht)

theorem closing_le_countP (h : Arranged row depth rows closing sites) (hfilled : ∀ s ∈ sites, s.segments ≠ [])
    (hs : s ∈ sites) : s.closing ≤ sites.countP (·.lastRow = s.lastRow) := by
  rw [BlockSite.closing_eq_countP (h.filled_of_mem hfilled hs)]
  exact (h.within s hs).countP_le

theorem lastRow_lt (h : Arranged row depth rows closing sites) (hs : s ∈ sites) (ht : t ∈ sites)
    (hrow : s.row < t.row) (hapart : t ∉ s.inner) : s.lastRow < t.row := by
  have hordered := List.pairwise_iff_getElem.mp h.ordered
  obtain ⟨i, hi, rfl⟩ := List.getElem_of_mem hs
  obtain ⟨j, hj, rfl⟩ := List.getElem_of_mem ht
  obtain hij | rfl | hij := Nat.lt_trichotomy i j
  · exact (hordered i j hi hj hij).2.resolve_left hapart
  · exact absurd hrow (Nat.lt_irrefl _)
  · exact absurd hrow (Nat.lt_asymm (hordered j i hj hi hij).1)

end Arranged

/-- A block in another one lies below its first header and ends no later; if both end on the same row, fewer
frames end with the inner one. -/
structure BlockSite.Holds (s t : BlockSite) : Prop where
  row_lt : s.row < t.row
  lastRow_le : t.lastRow ≤ s.lastRow
  depth_lt : s.depth < t.depth
  closing_lt : t.lastRow = s.lastRow → t.closing < s.closing

theorem BlockSite.holds_inner {s t : BlockSite} (hfilled : ∀ t ∈ s :: s.inner, t.segments ≠ [])
    (ht : t ∈ s.inner) : s.Holds t := by
  have harranged := arranged_inner hfilled
  have hpos := Item.rowsSegments_pos (hfilled s List.mem_cons_self)
  have hend := lastRow_succ (hfilled s List.mem_cons_self)
  refine ⟨harranged.first t ht, ?_, harranged.deep t ht, ?_⟩
  · have hlast := harranged.last t ht
    omega
  · intro hsame
    have hinner : ∀ t ∈ s.inner, t.segments ≠ [] := fun t ht => hfilled t (List.mem_cons_of_mem s ht)
    have hle := harranged.closing_le_countP hinner ht
    rw [closing_eq_countP hfilled, List.countP_cons_of_pos (by simp), ← hsame]
    exact Nat.lt_succ_of_le hle

/-- Whether entries stand next to each other among others, from a row on. -/
def Entry.RunAt (row start : Nat) (run entries : List Entry) : Prop :=
  ∃ before after, entries = before ++ run ++ after ∧ row + before.length = start

namespace Entry.RunAt

variable {row start : Nat} {run entries : List Entry}

theorem prepend (more : List Entry) (h : RunAt (row + more.length) start run entries) :
    RunAt row start run (more ++ entries) := by
  obtain ⟨before, after, rfl, hstart⟩ := h
  refine ⟨more ++ before, after, by simp only [List.append_assoc], ?_⟩
  rw [List.length_append, ← Nat.add_assoc]
  exact hstart

theorem append (h : RunAt row start run entries) (more : List Entry) : RunAt row start run (entries ++ more) := by
  obtain ⟨before, after, rfl, hstart⟩ := h
  exact ⟨before, after ++ more, by simp only [List.append_assoc], hstart⟩

end Entry.RunAt

namespace Item

theorem runAt_parts {segments : List (Segment Item)} {row : Nat} {part : Nat × Segment Item}
    (h : part ∈ parts row segments) :
    Entry.RunAt row part.1 (.header part.2.heading :: entriesAll part.2.body) (entriesSegments segments) := by
  induction segments generalizing row with
  | nil => contradiction
  | cons s later ih =>
    rw [entriesSegments_cons]
    cases List.mem_cons.mp h with
    | inl hfirst =>
      subst hfirst
      exact ⟨[], entriesSegments later, rfl, rfl⟩
    | inr hlater =>
      refine Entry.RunAt.prepend (.header s.heading :: entriesAll s.body) ?_
      rw [List.length_cons, length_entriesAll, Nat.add_comm _ 1, ← Nat.add_assoc]
      exact ih hlater

theorem runAt_segments {segments : List (Segment Item)}
    (hbodies : ∀ s ∈ segments, ∀ row depth, ∀ site ∈ sitesAll row depth s.body, ∀ part ∈ site.parts,
      Entry.RunAt row part.1 (.header part.2.heading :: entriesAll part.2.body) (entriesAll s.body))
    {row depth : Nat} {site : BlockSite} (hsite : site ∈ sitesSegments row depth segments)
    {part : Nat × Segment Item} (hpart : part ∈ site.parts) :
    Entry.RunAt row part.1 (.header part.2.heading :: entriesAll part.2.body) (entriesSegments segments) := by
  induction segments generalizing row with
  | nil => contradiction
  | cons s later ih =>
    obtain ⟨heading, body⟩ := s
    obtain ⟨hbody, hrest⟩ := List.forall_mem_cons.mp hbodies
    rw [entriesSegments, ← List.cons_append]
    cases List.mem_append.mp hsite with
    | inl hhere => exact ((hbody _ _ site hhere part hpart).prepend [.header heading]).append _
    | inr hlater =>
      refine Entry.RunAt.prepend (.header heading :: entriesAll body) ?_
      rw [List.length_cons, length_entriesAll, Nat.add_comm _ 1, ← Nat.add_assoc]
      exact ih hrest hlater

/-- A segment of a block at its place has the rows from that of its header on for its header and for what is in
it, in the order of the script. -/
theorem runAt_items (items : List Item) (row depth : Nat) : ∀ site ∈ sitesAll row depth items, ∀ part ∈ site.parts,
    Entry.RunAt row part.1 (.header part.2.heading :: entriesAll part.2.body) (entriesAll items) := by
  induction items using forest_induction generalizing row depth with
  | nil => exact nofun
  | action a later ih =>
    exact fun site hsite part hpart => (ih (row + 1) depth site hsite part hpart).prepend [.action a]
  | note n later ih =>
    exact fun site hsite part hpart => (ih (row + 1) depth site hsite part hpart).prepend [.note n]
  | divider d later ih =>
    exact fun site hsite part hpart => (ih (row + 1) depth site hsite part hpart).prepend [.divider d]
  | block segments later ihbodies ih =>
    intro site hsite part hpart
    rw [entriesAll_cons, entries]
    rw [sitesAll, sites, List.cons_append, List.mem_cons, List.mem_append] at hsite
    obtain rfl | hinner | hlater := hsite
    · exact (runAt_parts hpart).append _
    · exact (runAt_segments ihbodies hinner hpart).append _
    · refine Entry.RunAt.prepend (entriesSegments segments) ?_
      rw [length_entriesSegments]
      exact ih _ depth site hlater part hpart

end Item

namespace Layout

variable {ι α : Type} [Length α]

def headers (l : Layout α) (parts : List (Nat × Segment Item)) : List (Shape.FrameHeader α) :=
  parts.map fun part => l.frameHeader part.1 part.2.heading

def frameAt (l : Layout α) (s : BlockSite) : Shape.Frame α :=
  l.frame (l.headers s.parts) s.lastRow s.depth s.closing

def placedFrame (l : Layout α) (s : BlockSite) : Placed (Shape.Frame α) := ⟨⟨s.row, 0⟩, l.frameAt s⟩

theorem headers_segments (l : Layout α) (segments : List (Segment Item)) (row depth : Nat) :
    (l.segments row depth segments : SegmentRun ι α).headers = l.headers (Item.parts row segments) := by
  induction segments generalizing row with
  | nil => rfl
  | cons s later ih =>
    obtain ⟨heading, body⟩ := s
    rw [segments_cons, SegmentRun.append, ih, next_items]
    rfl

theorem frames_segments (l : Layout α) {segments : List (Segment Item)}
    (hbodies : ∀ s ∈ segments, ∀ row depth, (l.items row depth s.body : LayoutRun ι α).frames =
      (Item.sitesAll row depth s.body).map l.placedFrame) (row depth : Nat) :
    (l.segments row depth segments : SegmentRun ι α).frames =
      (Item.sitesSegments row depth segments).map l.placedFrame := by
  induction segments generalizing row with
  | nil => rfl
  | cons s later ih =>
    obtain ⟨heading, body⟩ := s
    obtain ⟨hbody, hrest⟩ := List.forall_mem_cons.mp hbodies
    rw [segments_cons, Item.sitesSegments, List.map_append, ← hbody, ← ih hrest, next_items]
    rfl

theorem frames_items (l : Layout α) (items : List Item) (row depth : Nat) :
    (l.items row depth items : LayoutRun ι α).frames = (Item.sitesAll row depth items).map l.placedFrame := by
  induction items using Item.forest_induction generalizing row depth with
  | nil => rfl
  | action a later ih =>
    rw [items_cons]
    exact ih (row + 1) depth
  | note n later ih =>
    rw [items_cons]
    exact ih (row + 1) depth
  | divider d later ih =>
    rw [items_cons]
    exact ih (row + 1) depth
  | block segments later ihbodies ih =>
    rw [items_cons, item_block, Item.sitesAll, Item.sites, List.map_append, List.map_cons]
    dsimp only [LayoutRun.append]
    rw [next_segments, ih, frames_segments l ihbodies, headers_segments]
    rfl

end Layout

namespace Diagram

variable {ι : Type}

def blocks (d : Diagram ι) : List BlockSite := Item.sitesAll 2 0 d.items

/-- What charts rely on: actors at their ranks, and no block without segments. -/
structure Sound (d : Diagram ι) : Prop where
  ranked : d.Ranked
  filled : ∀ s ∈ d.blocks, s.segments ≠ []

theorem arranged_blocks {d : Diagram ι} (h : d.Sound) :
    Arranged 2 0 (Item.rowsAll d.items) (Item.closingAll d.items) d.blocks :=
  Item.arranged_items d.items 2 0 h.filled

theorem lastRow_lt_lastRow {d : Diagram ι} (h : d.Sound) {s : BlockSite} (hs : s ∈ d.blocks) :
    s.lastRow < d.lastRow :=
  (arranged_blocks h).last s hs

theorem row_lt_lastRow {d : Diagram ι} (h : d.Sound) {s : BlockSite} (hs : s ∈ d.blocks) : s.row < d.lastRow :=
  Nat.lt_of_le_of_lt ((arranged_blocks h).upright s hs) (lastRow_lt_lastRow h hs)

end Diagram

end SequenceChart

import SequenceChart.Diagram.Basic

/-! Rows and columns of a chart. Column 0 is the left margin; the actor of rank `i` stands on column
`2 i + 1` with a free column to its right; the last column is the right margin. Row 0 holds the title and
row 1 the header boxes; one row follows for every action, note, divider and header of a segment, and the
last row holds the footer boxes. -/

namespace SequenceChart

def actorCol (rank : Nat) : Nat := 2 * rank + 1

def lastCol (actors : Nat) : Nat := 2 * actors + 1

theorem actorCol_injective {i j : Nat} (h : actorCol i = actorCol j) : i = j := by
  rw [actorCol, actorCol] at h
  omega

theorem actorCol_lt_lastCol {rank actors : Nat} (h : rank < actors) : actorCol rank < lastCol actors := by
  rw [actorCol, lastCol]
  omega

namespace Item

mutual

def rows : Item → Nat
  | .block segments => rowsSegments segments
  | _ => 1

def rowsSegments : List (Segment Item) → Nat
  | [] => 0
  | ⟨_, body⟩ :: later => (1 + rowsAll body) + rowsSegments later

def rowsAll : List Item → Nat
  | [] => 0
  | item :: later => item.rows + rowsAll later

end

mutual

/-- How many frames close on the last row of an item: of a block its own and those of its last item, of
any other item none. -/
def closing : Item → Nat
  | .block segments => 1 + closingSegments segments
  | _ => 0

def closingSegments : List (Segment Item) → Nat
  | [] => 0
  | [⟨_, body⟩] => closingAll body
  | _ :: segment :: later => closingSegments (segment :: later)

def closingAll : List Item → Nat
  | [] => 0
  | [item] => item.closing
  | _ :: item :: later => closingAll (item :: later)

end

end Item

namespace Diagram

variable {ι : Type}

def lastRow (d : Diagram ι) : Nat := 2 + Item.rowsAll d.items

def lastCol (d : Diagram ι) : Nat := SequenceChart.lastCol d.actors.length

end Diagram

end SequenceChart

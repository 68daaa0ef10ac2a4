import SequenceChart.Drawing.Geometry

/-! Fonts, as far as a layout has to know them: how much room a row of text takes. -/

namespace SequenceChart

structure Font (α : Type) where
  family : String
  measure : String → α → Size α

/-- The columns that each character takes in a monospaced row, if it has a width at all. -/
class ColumnWidths where
  columns : Char → Option Nat

abbrev ColumnWidths.ascii : ColumnWidths := ⟨fun c => if c < ' ' ∨ c = '\x7f' then none else some 1⟩

namespace Font

variable {α : Type} [Length α]

def defaultFamily : String := "sans-serif"

def rowHeight (size : α) : α := size * 1.25

section Estimated

variable [ColumnWidths]

/-- The width of a glyph in ems, before the correction that `estimated` makes for a whole row. -/
def glyphWeight (c : Char) : α :=
  match ColumnWidths.columns c with
  | none | some 0 => 0.0
  | some 1 =>
    if c.toNat < 128 then
      if c.isUpper then 0.7 else 0.5
    else 0.55
  | some _ => 1.0

/-- A font whose glyphs are measured by their kind alone, so that no font file is needed. -/
def estimated (family : String) : Font α where
  family := family
  measure text size :=
    let weight : α := text.toList.foldl (fun sum c => sum + glyphWeight c) 0.0
    ⟨weight * size * 1.1, rowHeight size⟩

end Estimated

def plain : Font α := @estimated α _ .ascii defaultFamily

end Font

end SequenceChart

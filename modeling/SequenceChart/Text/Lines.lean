/-! Lines of a text. A script is read by lines that a line feed ends, with or without a carriage return
before it; a label is drawn in rows that a line feed separates. -/

namespace SequenceChart.Text

/-- The lines of a script, their ends removed; a text that ends with a line end has no line after it. -/
def lines : List Char → List (List Char)
  | [] => []
  | '\n' :: rest => [] :: lines rest
  | '\r' :: '\n' :: rest => [] :: lines rest
  | c :: rest =>
    match lines rest with
    | [] => [[c]]
    | line :: later => (c :: line) :: later

def rows : List Char → List (List Char)
  | [] => [[]]
  | '\n' :: rest => [] :: rows rest
  | c :: rest =>
    match rows rest with
    | [] => [[c]]
    | row :: later => (c :: row) :: later

@[simp] theorem rows_ne_nil (text : List Char) : rows text ≠ [] := by
  fun_cases rows text <;> simp_all

end SequenceChart.Text

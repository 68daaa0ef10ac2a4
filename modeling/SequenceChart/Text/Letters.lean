/-! Letter case. Words of the script, attributes and names of styles and icons are compared without
regard to the case of ASCII letters; no other character has a case here. -/

namespace SequenceChart.Text

def foldCase (word : String) : String := String.ofList (word.toList.map Char.toLower)

/-- Style names know one more letter: the Kelvin sign has a lower case, and it is `k`. -/
def foldKelvin (word : String) : String :=
  String.ofList (word.toList.map fun c => if c = '\u212a' then 'k' else c.toLower)

end SequenceChart.Text

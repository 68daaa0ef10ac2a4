import SequenceChart.Diagram.Basic

/-! The actors of a diagram while it is built, with an index by which the rank of a name is found. -/

namespace SequenceChart

structure Roster (ι : Type) where
  actors : List (Actor ι)
  index : List (String × Nat)
  indexed : ∀ name, index.lookup name = actors.findIdx? (·.name == name)

namespace Roster

variable {ι : Type}

def empty : Roster ι := ⟨[], [], fun _ => rfl⟩

def rank? (r : Roster ι) (name : String) : Option Nat := r.index.lookup name

/-- The index finds what a search through the actors would. -/
theorem rank?_eq_findIdx? (r : Roster ι) (name : String) : r.rank? name = r.actors.findIdx? (·.name == name) :=
  r.indexed name

theorem indexed_concat (r : Roster ι) (name other : String) :
    (r.index ++ [(name, r.actors.length)]).lookup other =
      (r.actors ++ [Actor.mentioned name r.actors.length]).findIdx? fun a : Actor ι => a.name == other := by
  have hnew : [(name, r.actors.length)].lookup other =
      ([(Actor.mentioned name r.actors.length : Actor ι)].findIdx? (·.name == other)).map (· + r.actors.length) := by
    by_cases hsame : other = name
    · simp [hsame, Actor.mentioned]
    · have hother : (other == name) = false := beq_eq_false_iff_ne.mpr hsame
      simp [List.lookup_cons, hother, Actor.mentioned, Ne.symm hsame]
  rw [List.lookup_append, List.findIdx?_append, r.indexed, hnew]

def enter (r : Roster ι) (name : String) : Roster ι where
  actors := r.actors ++ [.mentioned name r.actors.length]
  index := r.index ++ [(name, r.actors.length)]
  indexed := r.indexed_concat name

theorem map_modify {β : Type} (actors : List (Actor ι)) (rank : Nat) {f : Actor ι → Actor ι} {g : Actor ι → β}
    (h : ∀ a, g (f a) = g a) : (actors.modify rank f).map g = actors.map g := by
  apply List.ext_getElem?
  intro i
  simp only [List.getElem?_map, List.getElem?_modify]
  split
  · cases actors[i]? with
    | none => rfl
    | some a => exact congrArg some (h a)
  · simp

theorem indexed_modify (r : Roster ι) (rank : Nat) {f : Actor ι → Actor ι} (hf : ∀ a, (f a).name = a.name)
    (name : String) : r.index.lookup name = (r.actors.modify rank f).findIdx? (·.name == name) := by
  have hnames := congrArg (List.findIdx? (· == name)) (map_modify r.actors rank hf)
  rw [List.findIdx?_map, List.findIdx?_map] at hnames
  exact (r.indexed name).trans hnames.symm

def modify (r : Roster ι) (rank : Nat) (f : Actor ι → Actor ι) (hf : ∀ a, (f a).name = a.name) : Roster ι where
  actors := r.actors.modify rank f
  index := r.index
  indexed := r.indexed_modify rank hf

end Roster

end SequenceChart

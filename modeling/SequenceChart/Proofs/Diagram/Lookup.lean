import SequenceChart.Proofs.Diagram.References

/-! The actors of a draft by their names. A name that is mentioned finds the actor it found before, or one of which
nothing has been said; what is done at the rank of a name is done to the actor that the name finds. -/

namespace SequenceChart

variable {ι : Type}

namespace Draft

def actorNamed? (d : Draft ι) (name : String) : Option (Actor ι) := d.actors.find? (·.name == name)

variable {d : Draft ι} {name : String}

theorem actorNamed?_eq_none_iff : d.actorNamed? name = none ↔ d.rank? name = none := by
  rw [actorNamed?, Roster.rank?_eq_findIdx?, List.find?_eq_none, List.findIdx?_eq_none_iff]
  simp

theorem rank?_mention (d : Draft ι) (name : String) :
    (d.mention name).1.rank? name = some (d.mention name).2 := by
  unfold mention
  cases hrank : d.rank? name with
  | some rank => exact hrank
  | none =>
    rw [Roster.rank?_eq_findIdx?] at hrank ⊢
    simp [Roster.enter, List.findIdx?_append, hrank, Actor.mentioned]

/-- A name that is new becomes an actor of which nothing has been said; all other actors stay. -/
theorem actorNamed?_mention (d : Draft ι) (name other : String) :
    (d.mention name).1.actorNamed? other =
      (d.actorNamed? other).or (if other = name then some (.mentioned name d.actors.length) else none) := by
  unfold mention
  cases hrank : d.rank? name with
  | some rank =>
    dsimp only
    split
    · rename_i hsame
      subst hsame
      obtain ⟨a, ha⟩ := Option.ne_none_iff_exists'.mp fun hnone => by
        rw [actorNamed?_eq_none_iff.mp hnone] at hrank
        contradiction
      rw [ha, Option.some_or]
    · rw [Option.or_none]
  | none =>
    have hnew : [Actor.mentioned name d.actors.length].find? (·.name == other) =
        if other = name then some (.mentioned (ι := ι) name d.actors.length) else none := by
      by_cases hsame : other = name <;> simp [Actor.mentioned, hsame, Ne.symm]
    dsimp only [actorNamed?, Roster.enter]
    rw [List.find?_append, hnew]

theorem actorNamed?_mention_of_some {a : Actor ι} (h : d.actorNamed? name = some a) (other : String) :
    (d.mention other).1.actorNamed? name = some a := by
  rw [actorNamed?_mention, h, Option.some_or]

theorem actorNamed?_modify {rank : Nat} (h : d.rank? name = some rank) {f : Actor ι → Actor ι}
    (hf : ∀ a, (f a).name = a.name) (other : String) :
    (d.modify rank f hf).actorNamed? other =
      if other = name then (d.actorNamed? other).map f else d.actorNamed? other := by
  rw [Roster.rank?_eq_findIdx?] at h
  unfold actorNamed? modify Roster.modify
  dsimp only
  generalize d.actors = actors at h
  induction actors generalizing rank with
  | nil => contradiction
  | cons a actors ih =>
    rw [List.findIdx?_cons] at h
    by_cases hname : a.name = name
    · rw [if_pos (by simpa using hname), Option.some.injEq] at h
      subst h
      simp only [List.modify_zero_cons, List.find?_cons, hf, hname]
      by_cases hother : other = name
      · simp [hother]
      · have hne : (name == other) = false := by simpa using Ne.symm hother
        simp [hother, hne]
    · rw [if_neg (by simpa using hname)] at h
      obtain ⟨before, hbefore, rfl⟩ := Option.map_eq_some_iff.mp h
      simp only [List.modify_succ_cons, List.find?_cons, ih hbefore]
      by_cases hother : a.name = other
      · have hne : other ≠ name := hother ▸ hname
        simp [hother, hne]
      · have hfirst : (a.name == other) = false := by simpa using hother
        simp only [hfirst]

theorem actorNamed?_mentionAll_of_some {a : Actor ι} (h : d.actorNamed? name = some a) (names : List String) :
    (d.mentionAll names).actorNamed? name = some a := by
  induction names generalizing d with
  | nil => exact h
  | cons first names ih => exact ih (actorNamed?_mention_of_some h first)

end Draft

end SequenceChart

import SequenceChart.Proofs.Diagram.Walk

/-! Ranks of actors. A walk only ever appends actors, each of them at the next rank, so that every rank it
gives out names the same actor to its end. -/

namespace SequenceChart

variable {ι : Type}

def Participant.Within (actors : Nat) : Participant → Prop
  | .actor rank => rank < actors
  | _ => True

theorem Participant.Within.mono {actors more : Nat} (h : actors ≤ more) {p : Participant} (hp : p.Within actors) :
    p.Within more := by
  cases p with
  | actor rank => exact Nat.lt_of_lt_of_le hp h
  | _ => trivial

def Entry.participants : Entry → List Participant
  | .action a => [a.sender, a.receiver]
  | .note n => n.first :: n.second.toList
  | .divider _ => []
  | .header _ => []

namespace Draft

def Ranked (d : Draft ι) : Prop := d.actors.map Actor.rank = List.range d.actors.length

/-- The later draft has the actors of the earlier one at their ranks, and ranks the others as well. -/
structure Grows (d later : Draft ι) : Prop where
  names : d.actors.map Actor.name <+: later.actors.map Actor.name
  ranked : d.Ranked → later.Ranked

theorem Grows.refl (d : Draft ι) : d.Grows d := ⟨List.prefix_refl _, id⟩

theorem Grows.trans {first second third : Draft ι} (h : first.Grows second) (hlater : second.Grows third) :
    first.Grows third :=
  ⟨h.names.trans hlater.names, fun hranked => hlater.ranked (h.ranked hranked)⟩

theorem Grows.length_le {d later : Draft ι} (h : d.Grows later) : d.actors.length ≤ later.actors.length := by
  have hlength := h.names.length_le
  rwa [List.length_map, List.length_map] at hlength

theorem ranked_empty : (empty : Draft ι).Ranked := rfl

theorem grows_mention (d : Draft ι) (name : String) : d.Grows (d.mention name).1 := by
  unfold mention
  cases d.rank? name with
  | some rank => exact Grows.refl d
  | none =>
    constructor
    · simp only [Roster.enter, List.map_append]
      exact List.prefix_append _ _
    · intro hranked
      unfold Ranked at hranked ⊢
      simp only [Roster.enter, List.map_append, List.map_cons, List.map_nil, List.length_append, List.length_singleton]
      rw [hranked, List.range_succ]
      rfl

theorem name_mention (d : Draft ι) (name : String) :
    ((d.mention name).1.actors.map Actor.name)[(d.mention name).2]? = some name := by
  unfold mention
  cases hrank : d.rank? name with
  | some rank =>
    rw [Roster.rank?_eq_findIdx?] at hrank
    obtain ⟨hlt, hname, _⟩ := List.findIdx?_eq_some_iff_getElem.mp hrank
    simp only [List.getElem?_map, List.getElem?_eq_getElem hlt, Option.map_some, Option.some.injEq]
    exact eq_of_beq hname
  | none => simp [Roster.enter, Actor.mentioned]

theorem mention_lt (d : Draft ι) (name : String) : (d.mention name).2 < (d.mention name).1.actors.length := by
  have hname := List.getElem?_eq_some_iff.mp (name_mention d name)
  obtain ⟨hlt, _⟩ := hname
  rwa [List.length_map] at hlt

theorem grows_modify (d : Draft ι) (rank : Nat) {f : Actor ι → Actor ι} (hname : ∀ a, (f a).name = a.name)
    (hrank : ∀ a, (f a).rank = a.rank) : d.Grows (d.modify rank f hname) := by
  constructor
  · simp only [modify, Roster.modify, Roster.map_modify _ _ hname]
    exact List.prefix_refl _
  · intro hranked
    unfold Ranked at hranked ⊢
    simp only [modify, Roster.modify, Roster.map_modify _ _ hrank, List.length_modify]
    exact hranked

end Draft

namespace Builder

theorem grows_declare {b : Builder ι} {d later : Draft ι} {line : Nat} {name : String} {given : List Attribute}
    {description : Option String} (h : b.declare d line name given description = .ok later) : d.Grows later := by
  unfold declare at h
  obtain ⟨declaration, _, h⟩ := bind_eq_ok.mp h
  obtain rfl := Except.ok.inj h
  exact (d.grows_mention name).trans (Draft.grows_modify _ _ (declaration.name_applyTo description) fun _ => rfl)

theorem grows_resolve {b : Builder ι} {d later : Draft ι} {line : Nat} {ref : ActorRef} {p : Participant}
    (h : b.resolve d line ref = .ok (later, p)) : d.Grows later ∧ p.Within later.actors.length := by
  unfold resolve at h
  cases ref with
  | named name =>
    dsimp only at h
    split at h
    · contradiction
    · obtain ⟨rfl, rfl⟩ := Prod.mk.inj (Except.ok.inj h)
      exact ⟨d.grows_mention name, d.mention_lt name⟩
  | pseudo name =>
    dsimp only at h
    split at h
    · obtain ⟨rfl, rfl⟩ := Prod.mk.inj (Except.ok.inj h)
      exact ⟨.refl _, trivial⟩
    · split at h
      · obtain ⟨rfl, rfl⟩ := Prod.mk.inj (Except.ok.inj h)
        exact ⟨.refl _, trivial⟩
      · contradiction

/-- What one part of a walk leaves behind: a longer draft that has an actor for every rank in the entries. -/
structure Walked (d later : Draft ι) (entries : List Entry) : Prop where
  grows : d.Grows later
  within : ∀ e ∈ entries, ∀ p ∈ e.participants, p.Within later.actors.length

theorem Walked.append {first second third : Draft ι} {entries more : List Entry}
    (h : Walked first second entries) (hlater : Walked second third more) :
    Walked first third (entries ++ more) := by
  refine ⟨h.grows.trans hlater.grows, ?_⟩
  intro e he p hp
  rw [List.mem_append] at he
  cases he with
  | inl he => exact (h.within e he p hp).mono hlater.grows.length_le
  | inr he => exact hlater.within e he p hp

theorem walked_note {b : Builder ι} {d later : Draft ι} {line : Nat} {alignment : Alignment} {message : String}
    {refs : List ActorRef} {n : Note} (h : b.note d line alignment message refs = .ok (later, n)) :
    Walked d later [.note n] := by
  unfold note at h
  split at h
  · obtain ⟨⟨middle, first⟩, hfirst, h⟩ := bind_eq_ok.mp h
    obtain ⟨rfl, rfl⟩ := Prod.mk.inj (Except.ok.inj h)
    obtain ⟨hgrows, hwithin⟩ := grows_resolve hfirst
    refine ⟨hgrows, ?_⟩
    simpa [Entry.participants] using hwithin
  · obtain ⟨⟨middle, first⟩, hfirst, h⟩ := bind_eq_ok.mp h
    obtain ⟨⟨last, second⟩, hsecond, h⟩ := bind_eq_ok.mp h
    obtain ⟨rfl, rfl⟩ := Prod.mk.inj (Except.ok.inj h)
    obtain ⟨hgrows, hwithin⟩ := grows_resolve hfirst
    obtain ⟨hgrows', hwithin'⟩ := grows_resolve hsecond
    refine ⟨hgrows.trans hgrows', ?_⟩
    have hfirst' := hwithin.mono hgrows'.length_le
    by_cases hsame : second = first
    · simpa [Entry.participants, hsame] using hfirst'
    · simpa [Entry.participants, hsame] using And.intro hfirst' hwithin'
  · contradiction

theorem walked_leaf {b : Builder ι} {d later : Draft ι} {line : Nat} {content : Leaf} {item : Option Item}
    (h : b.leaf d line content = .ok (later, item)) : Walked d later (Item.entriesAll item.toList) := by
  have hnone : ∀ {more : Draft ι}, d.Grows more → Walked d more (Item.entriesAll []) := fun hgrows =>
    ⟨hgrows, nofun⟩
  unfold leaf at h
  cases content with
  | title text =>
    obtain ⟨rfl, rfl⟩ := Prod.mk.inj (Except.ok.inj h)
    exact hnone ⟨List.prefix_refl _, id⟩
  | actor name given description =>
    obtain ⟨middle, hdeclare, h⟩ := bind_eq_ok.mp h
    obtain ⟨rfl, rfl⟩ := Prod.mk.inj (Except.ok.inj h)
    exact hnone (grows_declare hdeclare)
  | action sender receiver arrow text =>
    obtain ⟨⟨middle, first⟩, hfirst, h⟩ := bind_eq_ok.mp h
    obtain ⟨⟨last, second⟩, hsecond, h⟩ := bind_eq_ok.mp h
    obtain ⟨rfl, rfl⟩ := Prod.mk.inj (Except.ok.inj h)
    obtain ⟨hgrows, hwithin⟩ := grows_resolve hfirst
    obtain ⟨hgrows', hwithin'⟩ := grows_resolve hsecond
    refine ⟨hgrows.trans hgrows', ?_⟩
    have hfirst' := hwithin.mono hgrows'.length_le
    simpa [Item.entriesAll, Item.entries, Entry.participants] using And.intro hfirst' hwithin'
  | note actors alignment text =>
    obtain ⟨⟨middle, n⟩, hnote, h⟩ := bind_eq_ok.mp h
    obtain ⟨rfl, rfl⟩ := Prod.mk.inj (Except.ok.inj h)
    exact walked_note hnote
  | gap kind text =>
    obtain ⟨rfl, rfl⟩ := Prod.mk.inj (Except.ok.inj h)
    exact ⟨.refl _, by simp [Item.entriesAll, Item.entries, Entry.participants]⟩
  | instruction setting =>
    obtain ⟨rfl, rfl⟩ := Prod.mk.inj (Except.ok.inj h)
    exact hnone ⟨List.prefix_refl _, id⟩

theorem walked_step {b : Builder ι} {d later : Draft ι} {step : Step} {entries : List Entry}
    (h : b.step d step = .ok (later, entries)) : Walked d later entries := by
  cases step with
  | leaf line content =>
    obtain ⟨⟨middle, item⟩, hleaf, h⟩ := map_eq_ok.mp h
    obtain ⟨rfl, rfl⟩ := Prod.mk.inj h
    exact walked_leaf hleaf
  | header heading =>
    obtain ⟨rfl, rfl⟩ := Prod.mk.inj (Except.ok.inj h)
    exact ⟨.refl _, by simp [Entry.participants]⟩

theorem walked_walk {b : Builder ι} {steps : List Step} {d later : Draft ι} {entries : List Entry}
    (h : b.walk d steps = .ok (later, entries)) : Walked d later entries := by
  induction steps generalizing d later entries with
  | nil =>
    obtain ⟨rfl, rfl⟩ := Prod.mk.inj (Except.ok.inj h)
    exact ⟨.refl _, nofun⟩
  | cons step steps ih =>
    obtain ⟨⟨middle, here⟩, hstep, h⟩ := bind_eq_ok.mp h
    obtain ⟨⟨last, found⟩, hwalk, h⟩ := bind_eq_ok.mp h
    obtain ⟨rfl, rfl⟩ := Prod.mk.inj (Except.ok.inj h)
    exact (walked_step hstep).append (ih hwalk)

end Builder

namespace Diagram

/-- Every actor stands at its rank, and every participant is a margin or an actor that the diagram has. -/
structure Ranked (d : Diagram ι) : Prop where
  ranks : d.actors.map Actor.rank = List.range d.actors.length
  within : ∀ e ∈ Item.entriesAll d.items, ∀ p ∈ e.participants, p.Within d.actors.length

theorem ranked_of_build {b : Builder ι} {nodes : List Node} {d : Diagram ι} (h : b.build nodes = .ok d) :
    d.Ranked := by
  obtain ⟨draft, items, hwalk, rfl⟩ := Builder.walk_of_build h
  obtain ⟨hgrows, hwithin⟩ := Builder.walked_walk hwalk
  exact ⟨hgrows.ranked Draft.ranked_empty, hwithin⟩

theorem rank_lt {d : Diagram ι} (h : d.Ranked) {a : Actor ι} (ha : a ∈ d.actors) :
    a.rank < d.actors.length := by
  have hrank : a.rank ∈ d.actors.map Actor.rank := List.mem_map_of_mem ha
  rwa [h.ranks, List.mem_range] at hrank

end Diagram

end SequenceChart

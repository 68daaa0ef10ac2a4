import SequenceChart.Proofs.Diagram.Walk

/-! Icons of a diagram. A declaration looks its icon up in the icon set, and actors get icons from nowhere else. -/

namespace SequenceChart

variable {ι : Type}

/-- The icon, if there is one, is what the set has under its name. -/
def IconSet.Gives (icons : IconSet ι) (icon : Option (IconRef ι)) : Prop :=
  ∀ ref ∈ icon, icons ref.name = .ok ref.icon

theorem IconSet.Gives.or {icons : IconSet ι} {icon other : Option (IconRef ι)} (h : icons.Gives icon)
    (hother : icons.Gives other) : icons.Gives (icon.or other) := by
  cases icon with
  | none => exact hother
  | some ref => exact h

def Draft.Furnished (d : Draft ι) (icons : IconSet ι) : Prop := ∀ a ∈ d.actors, icons.Gives a.icon

theorem Draft.Furnished.mention {d : Draft ι} {icons : IconSet ι} (h : d.Furnished icons) (name : String) :
    (d.mention name).1.Furnished icons := by
  unfold Draft.mention
  split
  · exact h
  · refine List.forall_mem_append.mpr ⟨h, List.forall_mem_singleton.mpr ?_⟩
    exact nofun

theorem Draft.Furnished.modify {d : Draft ι} {icons : IconSet ι} (h : d.Furnished icons) (rank : Nat)
    {f : Actor ι → Actor ι} (hname : ∀ a, (f a).name = a.name)
    (hf : ∀ a, icons.Gives a.icon → icons.Gives (f a).icon) :
    (d.modify rank f hname).Furnished icons := by
  intro a ha
  obtain ⟨i, hi⟩ := List.mem_iff_getElem?.mp ha
  rw [Draft.modify, Roster.modify, List.getElem?_modify] at hi
  obtain ⟨before, hbefore, rfl⟩ := Option.map_eq_some_iff.mp hi
  have hgives := h before (List.mem_of_getElem? hbefore)
  split
  · exact hf before hgives
  · exact hgives

namespace Builder

variable {b : Builder ι} {d later : Draft ι} {line : Nat}

theorem gives_icon {actor name : String} {ref : IconRef ι} (h : b.icon line actor name = .ok ref) :
    b.icons ref.name = .ok ref.icon := by
  unfold icon at h
  split at h
  · obtain rfl := Except.ok.inj h
    assumption
  · contradiction
  · contradiction

theorem gives_readAttribute {actor : String} {given : Attribute} {declaration read : Declaration ι}
    (h : b.readAttribute line actor declaration given = .ok read) (hgives : b.icons.Gives declaration.icon) :
    b.icons.Gives read.icon := by
  unfold readAttribute at h
  dsimp only at h
  split at h
  · obtain ⟨ref, hicon, rfl⟩ := map_eq_ok.mp h
    rintro _ ⟨⟩
    exact gives_icon hicon
  · split at h
    · obtain ⟨_, _, rfl⟩ := map_eq_ok.mp h
      exact hgives
    · split at h
      · obtain ⟨_, _, rfl⟩ := map_eq_ok.mp h
        exact hgives
      · contradiction

theorem gives_readAttributes {actor : String} {given : List Attribute} {declaration read : Declaration ι}
    (h : b.readAttributes line actor declaration given = .ok read) (hgives : b.icons.Gives declaration.icon) :
    b.icons.Gives read.icon := by
  induction given generalizing declaration with
  | nil =>
    obtain rfl := Except.ok.inj h
    exact hgives
  | cons first more ih =>
    obtain ⟨middle, hfirst, h⟩ := bind_eq_ok.mp h
    exact ih h (gives_readAttribute hfirst hgives)

theorem furnished_declare {name : String} {given : List Attribute} {description : Option String}
    (h : b.declare d line name given description = .ok later) (hd : d.Furnished b.icons) :
    later.Furnished b.icons := by
  obtain ⟨declaration, hread, h⟩ := bind_eq_ok.mp h
  obtain rfl := Except.ok.inj h
  exact (hd.mention name).modify _ (declaration.name_applyTo description) fun a ha =>
    (gives_readAttributes hread nofun).or ha

theorem invariant_furnished (b : Builder ι) : b.Invariant (·.Furnished b.icons) where
  actors hd hactors := by
    unfold Draft.Furnished
    rw [hactors]
    exact hd
  mention name hd := hd.mention name
  declare := furnished_declare

end Builder

theorem Diagram.gives_icon_of_build {b : Builder ι} {nodes : List Node} {d : Diagram ι} (h : b.build nodes = .ok d) :
    ∀ a ∈ d.actors, b.icons.Gives a.icon := by
  obtain ⟨draft, items, hwalk, rfl⟩ := Builder.walk_of_build h
  exact b.invariant_furnished.walk hwalk nofun

end SequenceChart

import SequenceChart.Diagram.Build
import SequenceChart.Proofs.Outcome

/-! What one statement does to a draft. A reference does no more than mention its name, so a statement declares an
actor, or it mentions some names, sets the title if it is one and adds a setting if it is one. -/

namespace SequenceChart

variable {ι : Type}

def ActorRef.names : ActorRef → List String
  | .named name => [name]
  | .pseudo _ => []

namespace Leaf

def names : Leaf → List String
  | .actor name _ _ => [name]
  | .action sender receiver _ _ => sender.names ++ receiver.names
  | .note actors _ _ => actors.flatMap ActorRef.names
  | _ => []

def title? : Leaf → Option String
  | .title text => some text
  | _ => none

def setting? : Leaf → Option Instruction
  | .instruction setting => some setting
  | _ => none

end Leaf

namespace Draft

theorem mention_with (d : Draft ι) (name : String) (roster : Roster ι) :
    ({ (d.mention name).1 with toRoster := roster } : Draft ι) = { d with toRoster := roster } := by
  unfold mention
  split <;> rfl

def mentionAll (d : Draft ι) (names : List String) : Draft ι := names.foldl (fun d name => (d.mention name).1) d

theorem mentionAll_append (d : Draft ι) (names more : List String) :
    d.mentionAll (names ++ more) = (d.mentionAll names).mentionAll more :=
  List.foldl_append

theorem mentionAll_eq (d : Draft ι) (names : List String) :
    d.mentionAll names = { d with toRoster := (d.mentionAll names).toRoster } := by
  induction names generalizing d with
  | nil => rfl
  | cons name names ih => exact (ih _).trans (d.mention_with name _)

end Draft

namespace Builder

variable {b : Builder ι} {d later : Draft ι} {line : Nat}

theorem resolve_draft {ref : ActorRef} {p : Participant} (h : b.resolve d line ref = .ok (later, p)) :
    later = d.mentionAll ref.names := by
  unfold resolve at h
  cases ref with
  | named name =>
    dsimp only at h
    split at h
    · contradiction
    · exact (Prod.mk.inj (Except.ok.inj h)).1.symm
  | pseudo name =>
    dsimp only at h
    split at h
    · exact (Prod.mk.inj (Except.ok.inj h)).1.symm
    · split at h
      · exact (Prod.mk.inj (Except.ok.inj h)).1.symm
      · contradiction

theorem note_draft {alignment : Alignment} {message : String} {refs : List ActorRef} {n : Note}
    (h : b.note d line alignment message refs = .ok (later, n)) :
    later = d.mentionAll (refs.flatMap ActorRef.names) := by
  unfold note at h
  split at h
  · obtain ⟨⟨middle, first⟩, hfirst, h⟩ := bind_eq_ok.mp h
    obtain ⟨rfl, -⟩ := Prod.mk.inj (Except.ok.inj h)
    rw [resolve_draft hfirst, List.flatMap_singleton]
  · obtain ⟨⟨middle, first⟩, hfirst, h⟩ := bind_eq_ok.mp h
    obtain ⟨⟨last, second⟩, hsecond, h⟩ := bind_eq_ok.mp h
    obtain ⟨rfl, -⟩ := Prod.mk.inj (Except.ok.inj h)
    rw [resolve_draft hsecond, resolve_draft hfirst, List.flatMap_cons, List.flatMap_singleton,
      Draft.mentionAll_append]
  · contradiction

theorem declare_draft {name : String} {given : List Attribute} {description : Option String}
    (h : b.declare d line name given description = .ok later) : later = { d with toRoster := later.toRoster } := by
  obtain ⟨declaration, -, h⟩ := bind_eq_ok.mp h
  obtain rfl := Except.ok.inj h
  exact d.mention_with name _

/-- A statement declares an actor, or this is the draft that it leaves. -/
theorem leaf_draft {content : Leaf} {item : Option Item} (h : b.leaf d line content = .ok (later, item)) :
    (∃ name given description, content = .actor name given description ∧
      b.declare d line name given description = .ok later) ∨
    (∀ name given description, content ≠ .actor name given description) ∧
      later = ⟨(d.mentionAll content.names).toRoster, content.title?.or d.title,
        d.instructions ++ content.setting?.toList⟩ := by
  have hmentions : ∀ names, d.mentionAll names = ⟨(d.mentionAll names).toRoster, d.title, d.instructions ++ []⟩ := by
    intro names
    rw [List.append_nil]
    exact d.mentionAll_eq names
  unfold leaf at h
  cases content with
  | title text =>
    obtain ⟨rfl, -⟩ := Prod.mk.inj (Except.ok.inj h)
    exact .inr ⟨nofun, congrArg (Draft.mk _ _) (List.append_nil _).symm⟩
  | actor name given description =>
    obtain ⟨middle, hdeclare, h⟩ := bind_eq_ok.mp h
    obtain ⟨rfl, -⟩ := Prod.mk.inj (Except.ok.inj h)
    exact .inl ⟨name, given, description, rfl, hdeclare⟩
  | action sender receiver arrow text =>
    obtain ⟨⟨middle, first⟩, hfirst, h⟩ := bind_eq_ok.mp h
    obtain ⟨⟨last, second⟩, hsecond, h⟩ := bind_eq_ok.mp h
    obtain ⟨rfl, -⟩ := Prod.mk.inj (Except.ok.inj h)
    have hlast : last = d.mentionAll (sender.names ++ receiver.names) := by
      rw [resolve_draft hsecond, resolve_draft hfirst, Draft.mentionAll_append]
    exact .inr ⟨nofun, hlast.trans (hmentions _)⟩
  | note actors alignment text =>
    obtain ⟨⟨middle, n⟩, hnote, h⟩ := bind_eq_ok.mp h
    obtain ⟨rfl, -⟩ := Prod.mk.inj (Except.ok.inj h)
    exact .inr ⟨nofun, (note_draft hnote).trans (hmentions _)⟩
  | gap kind text =>
    obtain ⟨rfl, -⟩ := Prod.mk.inj (Except.ok.inj h)
    exact .inr ⟨nofun, hmentions []⟩
  | instruction setting =>
    obtain ⟨rfl, -⟩ := Prod.mk.inj (Except.ok.inj h)
    exact .inr ⟨nofun, rfl⟩

theorem title_leaf {content : Leaf} {item : Option Item} (h : b.leaf d line content = .ok (later, item)) :
    later.title = content.title?.or d.title := by
  obtain ⟨name, given, description, rfl, hdeclare⟩ | ⟨-, rfl⟩ := leaf_draft h
  · rw [declare_draft hdeclare]
    rfl
  · rfl

theorem instructions_leaf {content : Leaf} {item : Option Item} (h : b.leaf d line content = .ok (later, item)) :
    later.instructions = d.instructions ++ content.setting?.toList := by
  obtain ⟨name, given, description, rfl, hdeclare⟩ | ⟨-, rfl⟩ := leaf_draft h
  · rw [declare_draft hdeclare]
    exact (List.append_nil _).symm
  · rfl

end Builder

end SequenceChart

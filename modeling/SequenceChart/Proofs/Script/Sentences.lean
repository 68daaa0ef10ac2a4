import SequenceChart.Proofs.Script.Assembly
import SequenceChart.Proofs.Script.Tokens

/-! Statements written as tokens, and the tokens as a line. Every reader gives back what was written and
stops where it ended. -/

namespace SequenceChart

open Escape (Framed)

namespace Token

def ofMessage? : Option String → List Token
  | none => []
  | some text => [message text]

theorem line_ofMessage? {text : Option String} (h : ∀ t ∈ text, Framed t.toList) :
    Line (ofMessage? text) := by
  cases text with
  | none => exact .nil
  | some text => exact .message (h text rfl)

end Token

namespace Statement

def said (text : String) : Option String := if text = "" then none else some text

theorem getD_said (text : String) : (said text).getD "" = text := by
  unfold said
  split
  · exact Eq.symm ‹_›
  · rfl

theorem framed_said {text : String} (h : Framed text.toList) : ∀ t ∈ said text, Framed t.toList := by
  unfold said
  split
  · exact nofun
  · intro t ht
    obtain rfl := Option.some.inj ht
    exact h

theorem message?_ofMessage? (text : Option String) : message? (Token.ofMessage? text) = (text, []) := by
  cases text <;> rfl

end Statement

namespace ActorRef

def tokens : ActorRef → List Token
  | named name => [.ident name]
  | pseudo name => [.dot, .ofWord name]

/-- A margin may be named by a word that is a keyword elsewhere. -/
def Writable : ActorRef → Prop
  | named name => Token.IsName name
  | pseudo name => Token.IsName name ∨ name = Keyword.left.text ∨ name = Keyword.right.text

instance : (r : ActorRef) → Decidable r.Writable
  | named name => inferInstanceAs (Decidable (Token.IsName name))
  | pseudo name => inferInstanceAs (Decidable (Token.IsName name ∨ _ ∨ _))

theorem plain_tokens {r : ActorRef} (h : r.Writable) : ∀ t ∈ r.tokens, t.Plain := by
  cases r with
  | named name => exact List.forall_mem_singleton.mpr h
  | pseudo name =>
    refine List.forall_mem_cons.mpr ⟨trivial, List.forall_mem_singleton.mpr ?_⟩
    obtain h | rfl | rfl := h
    · rw [Token.ofWord_of_isName h]
      exact h
    · rw [Token.ofWord_text]
      trivial
    · rw [Token.ofWord_text]
      trivial

theorem actorRef_tokens {r : ActorRef} (h : r.Writable) (rest : List Token) :
    Statement.actorRef (r.tokens ++ rest) = .ok (r, rest) := by
  cases r with
  | named name => rfl
  | pseudo name =>
    obtain h | rfl | rfl := h
    · rw [tokens, Token.ofWord_of_isName h]
      rfl
    · rw [tokens, Token.ofWord_text]
      rfl
    · rw [tokens, Token.ofWord_text]
      rfl

end ActorRef

def Stem.token : Stem → Token
  | solid => .dash
  | dashed => .doubleDash
  | thick => .equal

def Head.token : Head → Token
  | filled => .gt
  | lines => .doubleGt
  | barbed => .slashGt
  | lowerBarbed => .backslashGt

def Attribute.tokens (a : Attribute) : List Token := [.ident a.name, .equal, .ident a.value]

structure Attribute.Writable (a : Attribute) : Prop where
  name : Token.IsName a.name
  value : Token.IsName a.value

instance (a : Attribute) : Decidable a.Writable :=
  decidable_of_iff (Token.IsName a.name ∧ Token.IsName a.value)
    ⟨fun h => ⟨h.1, h.2⟩, fun h => ⟨h.name, h.value⟩⟩

namespace Alignment

def tokens : Alignment → List Token
  | .left => [.keyword .left, .keyword .of]
  | .right => [.keyword .right, .keyword .of]
  | .over => [.keyword .over]

def Takes (alignment : Alignment) (actors : List ActorRef) : Prop :=
  actors.length = 1 ∨ alignment = .over ∧ actors.length = 2

instance (alignment : Alignment) (actors : List ActorRef) : Decidable (alignment.Takes actors) :=
  inferInstanceAs (Decidable (_ ∨ _))

end Alignment

def DividerKind.keyword : DividerKind → Keyword
  | spacer => .spacer
  | gap => .gap
  | frame => .frame
  | line => .line

def Heading.keyword (h : Heading) : Keyword :=
  match h.kind with
  | .alt => .alt
  | .loop => .loop
  | .otherwise => if h.label = "else" then .otherwise else .elseAlt

def ActorRef.allTokens : List ActorRef → List Token
  | [] => []
  | [r] => r.tokens
  | r :: later => r.tokens ++ .comma :: allTokens later

namespace Leaf

def tokens : Leaf → List Token
  | title text => [.keyword .title, .message text]
  | actor ident attributes description =>
    .keyword .participant :: .ident ident :: (attributes.flatMap Attribute.tokens ++ Token.ofMessage? description)
  | action sender receiver arrow text =>
    sender.tokens ++ arrow.stem.token :: arrow.head.token ::
      (receiver.tokens ++ Token.ofMessage? (Statement.said text))
  | note actors alignment text =>
    .keyword .note :: (alignment.tokens ++ (ActorRef.allTokens actors ++ [.message text]))
  | gap kind text => .keyword kind.keyword :: Token.ofMessage? text
  | instruction _ => []

end Leaf

structure Instruction.Writable (setting : Instruction) : Prop where
  nonempty : setting.name ≠ ""
  name : ∀ c ∈ setting.name.toList, Text.isBlank c = false
  value : Text.Trimmed setting.value.toList
  line : '\n' ∉ setting.value.toList

instance (setting : Instruction) : Decidable setting.Writable :=
  decidable_of_iff (setting.name ≠ "" ∧ (∀ c ∈ setting.name.toList, Text.isBlank c = false) ∧
    Text.Trimmed setting.value.toList ∧ '\n' ∉ setting.value.toList)
    ⟨fun h => ⟨h.1, h.2.1, h.2.2.1, h.2.2.2⟩, fun h => ⟨h.nonempty, h.name, h.value, h.line⟩⟩

def Leaf.Writable : Leaf → Prop
  | title text => Framed text.toList
  | actor ident attributes description =>
    Token.IsName ident ∧ (∀ a ∈ attributes, a.Writable) ∧ ∀ text ∈ description, Framed text.toList
  | action sender receiver _ text => sender.Writable ∧ receiver.Writable ∧ Framed text.toList
  | note actors alignment text =>
    (∀ r ∈ actors, r.Writable) ∧ alignment.Takes actors ∧ Framed text.toList
  | gap _ text => ∀ t ∈ text, Framed t.toList
  | instruction setting => setting.Writable

instance : (content : Leaf) → Decidable content.Writable
  | .title text => inferInstanceAs (Decidable (Framed text.toList))
  | .actor _ attributes description =>
    inferInstanceAs (Decidable (_ ∧ (∀ a ∈ attributes, a.Writable) ∧ ∀ text ∈ description, Framed text.toList))
  | .action _ _ _ _ => inferInstanceAs (Decidable (_ ∧ _ ∧ _))
  | .note actors _ _ => inferInstanceAs (Decidable ((∀ r ∈ actors, r.Writable) ∧ _ ∧ _))
  | .gap _ text => inferInstanceAs (Decidable (∀ t ∈ text, Framed t.toList))
  | .instruction setting => inferInstanceAs (Decidable setting.Writable)

namespace Statement

def tokens : Statement → List Token
  | leaf content => content.tokens
  | opening heading => .keyword heading.keyword :: Token.ofMessage? (said heading.message)
  | branch heading _ => .keyword heading.keyword :: Token.ofMessage? (said heading.message)
  | close => [.keyword .close]

def Writable : Statement → Prop
  | leaf content => content.Writable
  | opening heading => Framed heading.message.toList
  | branch heading _ => Framed heading.message.toList
  | close => True

instance : (s : Statement) → Decidable s.Writable
  | leaf content => inferInstanceAs (Decidable content.Writable)
  | opening heading => inferInstanceAs (Decidable (Framed heading.message.toList))
  | branch heading _ => inferInstanceAs (Decidable (Framed heading.message.toList))
  | close => inferInstanceAs (Decidable True)

theorem attributes_tokens (attrs : List Attribute) {rest : List Token}
    (hrest : attributes rest = .ok ([], rest)) :
    attributes (attrs.flatMap Attribute.tokens ++ rest) = .ok (attrs, rest) := by
  induction attrs with
  | nil => exact hrest
  | cons a attrs ih => exact bind_eq_ok.mpr ⟨_, ih, rfl⟩

theorem participant_tokens (ident : String) (attrs : List Attribute) (description : Option String) :
    participant (.ident ident :: (attrs.flatMap Attribute.tokens ++ Token.ofMessage? description)) =
      .ok (.actor ident attrs description, []) := by
  have hstop : attributes (Token.ofMessage? description) = .ok ([], Token.ofMessage? description) := by
    cases description <;> rfl
  refine bind_eq_ok.mpr ⟨_, attributes_tokens attrs hstop, ?_⟩
  simp only [message?_ofMessage?]

theorem stem_token (s : Stem) (rest : List Token) : stem (s.token :: rest) = .ok (s, rest) := by
  cases s <;> rfl

theorem head_token (h : Head) (rest : List Token) : head (h.token :: rest) = .ok (h, rest) := by
  cases h <;> rfl

theorem action_tokens {sender receiver : ActorRef} (hsender : sender.Writable) (hreceiver : receiver.Writable)
    (arrow : Arrow) (text : String) :
    action (Leaf.action sender receiver arrow text).tokens =
      .ok (.action sender receiver arrow text, []) := by
  unfold action
  refine bind_eq_ok.mpr ⟨_, ActorRef.actorRef_tokens hsender _, ?_⟩
  refine bind_eq_ok.mpr ⟨_, stem_token _ _, ?_⟩
  refine bind_eq_ok.mpr ⟨_, head_token _ _, ?_⟩
  refine bind_eq_ok.mpr ⟨_, ActorRef.actorRef_tokens hreceiver _, ?_⟩
  simp only [message?_ofMessage?, getD_said]

theorem noteSide_tokens {actors : List ActorRef} {alignment : Alignment} (h : alignment.Takes actors)
    (hactors : ∀ r ∈ actors, r.Writable) (text : String) :
    noteSide (alignment.tokens ++ (ActorRef.allTokens actors ++ [.message text])) =
      .ok ((alignment, actors), [.message text]) := by
  obtain hone | ⟨rfl, htwo⟩ := h
  · obtain ⟨r, rfl⟩ := List.length_eq_one_iff.mp hone
    have hr := ActorRef.actorRef_tokens (hactors r List.mem_cons_self) [.message text]
    match alignment with
    | .over => exact bind_eq_ok.mpr ⟨_, hr, rfl⟩
    | .left | .right => exact bind_eq_ok.mpr ⟨r.tokens ++ [.message text], rfl, bind_eq_ok.mpr ⟨_, hr, rfl⟩⟩
  · obtain ⟨r, s, rfl⟩ := List.length_eq_two.mp htwo
    obtain ⟨hr, hs⟩ := List.forall_mem_cons.mp hactors
    have htokens : ActorRef.allTokens [r, s] = r.tokens ++ .comma :: s.tokens := rfl
    have hsecond : secondActor (.comma :: (s.tokens ++ [.message text])) = .ok ([s], [.message text]) :=
      bind_eq_ok.mpr ⟨_, ActorRef.actorRef_tokens (hs s List.mem_cons_self) _, rfl⟩
    rw [htokens, List.append_assoc]
    exact bind_eq_ok.mpr ⟨_, ActorRef.actorRef_tokens hr _, bind_eq_ok.mpr ⟨_, hsecond, rfl⟩⟩

theorem note_tokens {actors : List ActorRef} {alignment : Alignment} (h : alignment.Takes actors)
    (hactors : ∀ r ∈ actors, r.Writable) (text : String) :
    note (alignment.tokens ++ (ActorRef.allTokens actors ++ [.message text])) =
      .ok (.note actors alignment text, []) := by
  refine bind_eq_ok.mpr ⟨_, noteSide_tokens h hactors text, ?_⟩
  rfl

theorem divider_tokens (kind : DividerKind) (text : Option String) :
    start (Leaf.gap kind text).tokens = .ok (.leaf (.gap kind text), []) := by
  cases kind <;> cases text <;> rfl

theorem heading_tokens (kind : SegmentKind) (label text : String) :
    heading kind label (Token.ofMessage? (said text)) = (⟨kind, label, text⟩, []) := by
  unfold heading
  simp only [message?_ofMessage?, getD_said]

theorem start_tokens_leaf {content : Leaf} (hsetting : content.isSetting = false) (h : content.Writable) :
    start content.tokens = .ok (.leaf content, []) := by
  cases content with
  | title text => rfl
  | actor ident attrs description =>
    exact bind_eq_ok.mpr ⟨_, participant_tokens ident attrs description, rfl⟩
  | action sender receiver arrow text =>
    obtain ⟨hsender, hreceiver, _⟩ := h
    have haction := action_tokens hsender hreceiver arrow text
    cases sender <;> exact bind_eq_ok.mpr ⟨_, haction, rfl⟩
  | note actors alignment text =>
    obtain ⟨hactors, htakes, _⟩ := h
    exact bind_eq_ok.mpr ⟨_, note_tokens htakes hactors text, rfl⟩
  | gap kind text => exact divider_tokens kind text
  | instruction => contradiction

/-- The tokens of a statement are that statement, with nothing left over. -/
theorem ofTokens_tokens {s : Statement} (hworded : s.Worded) (h : s.Writable) : ofTokens s.tokens = .ok s := by
  have hstart : start s.tokens = .ok (s, []) := by
    cases hworded with
    | leaf hsetting => exact start_tokens_leaf hsetting h
    | alt message => simp only [tokens, Heading.keyword, Heading.alt, start, heading_tokens]
    | loop message => simp only [tokens, Heading.keyword, Heading.loop, start, heading_tokens]
    | elseAlt message => simp [tokens, Heading.keyword, Heading.elseAlt, start, heading_tokens]
    | otherwise message => simp [tokens, Heading.keyword, Heading.otherwise, start, heading_tokens]
    | close => rfl
  rw [ofTokens, hstart]
  rfl

theorem plain_allTokens {actors : List ActorRef} (h : ∀ r ∈ actors, r.Writable) :
    ∀ t ∈ ActorRef.allTokens actors, t.Plain := by
  fun_induction ActorRef.allTokens actors with
  | case1 => exact nofun
  | case2 r => exact ActorRef.plain_tokens (h r List.mem_cons_self)
  | case3 r later _ ih =>
    obtain ⟨hr, hlater⟩ := List.forall_mem_cons.mp h
    intro t ht
    rw [List.mem_append, List.mem_cons] at ht
    obtain ht | rfl | ht := ht
    · exact ActorRef.plain_tokens hr t ht
    · trivial
    · exact ih hlater t ht

theorem plain_attributes {attrs : List Attribute} (h : ∀ a ∈ attrs, a.Writable) :
    ∀ t ∈ attrs.flatMap Attribute.tokens, t.Plain := by
  intro t ht
  obtain ⟨a, ha, ht⟩ := List.mem_flatMap.mp ht
  obtain ⟨hname, hvalue⟩ := h a ha
  simp only [Attribute.tokens, List.mem_cons, List.not_mem_nil, or_false] at ht
  obtain rfl | rfl | rfl := ht
  · exact hname
  · trivial
  · exact hvalue

theorem line_tokens_leaf {content : Leaf} (hsetting : content.isSetting = false) (h : content.Writable) :
    Token.Line content.tokens := by
  cases content with
  | title text => exact .cons trivial (.message h)
  | actor ident attrs description =>
    obtain ⟨hident, hattrs, hdescription⟩ := h
    have hrest := Token.Line.append (plain_attributes hattrs) (Token.line_ofMessage? hdescription)
    exact .cons trivial (.cons hident hrest)
  | action sender receiver arrow text =>
    obtain ⟨hsender, hreceiver, htext⟩ := h
    have hmessage := Token.line_ofMessage? (framed_said htext)
    have hstem : arrow.stem.token.Plain := by cases arrow.stem <;> trivial
    have hhead : arrow.head.token.Plain := by cases arrow.head <;> trivial
    have hrest := Token.Line.append (ActorRef.plain_tokens hreceiver) hmessage
    exact Token.Line.append (ActorRef.plain_tokens hsender) (.cons hstem (.cons hhead hrest))
  | note actors alignment text =>
    obtain ⟨hactors, _, htext⟩ := h
    have hside : ∀ t ∈ alignment.tokens, t.Plain := by
      cases alignment <;> simp [Alignment.tokens, Token.Plain]
    have hrest := Token.Line.append (plain_allTokens hactors) (.message htext)
    exact .cons trivial (Token.Line.append hside hrest)
  | gap kind text => exact .cons trivial (Token.line_ofMessage? h)
  | instruction => contradiction

theorem line_tokens {s : Statement} (hworded : s.Worded) (h : s.Writable) : Token.Line s.tokens := by
  cases hworded with
  | leaf hsetting => exact line_tokens_leaf hsetting h
  | close => exact .cons trivial .nil
  | _ => exact .cons trivial (Token.line_ofMessage? (framed_said h))

theorem tokens_ne_nil {s : Statement} (hworded : s.Worded) : s.tokens ≠ [] := by
  cases hworded with
  | @leaf content hsetting =>
    cases content with
    | action sender =>
      cases sender <;> exact List.cons_ne_nil _ _
    | instruction => contradiction
    | _ => exact List.cons_ne_nil _ _
  | _ => exact List.cons_ne_nil _ _

end Statement

end SequenceChart

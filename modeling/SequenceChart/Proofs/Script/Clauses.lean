import SequenceChart.Proofs.Script.Sentences

/-! The grammar of a line of tokens. A statement is a clause and a message behind it, which a clause may need, allow
or forbid. Reading a line finds exactly what the grammar gives for its tokens, and the grammar gives no line twice. -/

namespace SequenceChart

theorem Stem.token_inj {s t : Stem} (h : s.token = t.token) : s = t := by
  cases s <;> cases t <;> first | rfl | contradiction

theorem Stem.token_ne_message (s : Stem) (text : String) : s.token ≠ .message text := by
  cases s <;> simp [token]

theorem Head.token_inj {s t : Head} (h : s.token = t.token) : s = t := by
  cases s <;> cases t <;> first | rfl | contradiction

theorem Head.token_ne_message (h : Head) (text : String) : h.token ≠ .message text := by
  cases h <;> simp [token]

theorem DividerKind.keyword_inj {k l : DividerKind} (h : k.keyword = l.keyword) : k = l := by
  cases k <;> cases l <;> first | rfl | contradiction

/-- A reference as it is written: a name, or behind a dot any name or one of two keywords. -/
inductive WrittenRef where
  | plain (name : String)
  | dotted (name : String)
  | dottedLeft
  | dottedRight
deriving DecidableEq, Repr

namespace WrittenRef

def tokens : WrittenRef → List Token
  | plain name => [.ident name]
  | dotted name => [.dot, .ident name]
  | dottedLeft => [.dot, .keyword .left]
  | dottedRight => [.dot, .keyword .right]

def ref : WrittenRef → ActorRef
  | plain name => .named name
  | dotted name => .pseudo name
  | dottedLeft => .pseudo "left"
  | dottedRight => .pseudo "right"

theorem tokens_append_inj {r s : WrittenRef} {rest later : List Token} (h : r.tokens ++ rest = s.tokens ++ later) :
    r = s ∧ rest = later := by
  cases r <;> cases s <;> simp_all [tokens]

theorem tokens_inj {r s : WrittenRef} (h : r.tokens = s.tokens) : r = s :=
  (tokens_append_inj (congrArg (· ++ []) h)).1

theorem tokens_append_ne_keyword (r : WrittenRef) (rest later : List Token) (k : Keyword) :
    r.tokens ++ rest ≠ .keyword k :: later := by
  cases r <;> simp [tokens]

theorem message_notMem_tokens (r : WrittenRef) (text : String) : .message text ∉ r.tokens := by
  cases r <;> simp [tokens]

end WrittenRef

inductive WrittenSide where
  | leftOf (actor : WrittenRef)
  | rightOf (actor : WrittenRef)
  | overOne (actor : WrittenRef)
  | overTwo (actor other : WrittenRef)
deriving DecidableEq, Repr

namespace WrittenSide

def tokens : WrittenSide → List Token
  | leftOf actor => .keyword .left :: .keyword .of :: actor.tokens
  | rightOf actor => .keyword .right :: .keyword .of :: actor.tokens
  | overOne actor => .keyword .over :: actor.tokens
  | overTwo actor other => .keyword .over :: (actor.tokens ++ .comma :: other.tokens)

def alignment : WrittenSide → Alignment
  | leftOf _ => .left
  | rightOf _ => .right
  | overOne _ => .over
  | overTwo _ _ => .over

def actors : WrittenSide → List ActorRef
  | leftOf actor => [actor.ref]
  | rightOf actor => [actor.ref]
  | overOne actor => [actor.ref]
  | overTwo actor other => [actor.ref, other.ref]

theorem tokens_inj {side other : WrittenSide} (h : side.tokens = other.tokens) : side = other := by
  cases side <;> cases other <;> simp only [tokens, List.cons.injEq, Token.keyword.injEq, reduceCtorEq, false_and,
    true_and] at h
  case leftOf.leftOf | rightOf.rightOf | overOne.overOne => rw [WrittenRef.tokens_inj h]
  case overOne.overTwo r s t =>
    have hrest := (WrittenRef.tokens_append_inj ((List.append_nil r.tokens).trans h)).2
    contradiction
  case overTwo.overOne r s t =>
    have hrest := (WrittenRef.tokens_append_inj (h.trans (List.append_nil t.tokens).symm)).2
    contradiction
  case overTwo.overTwo =>
    obtain ⟨rfl, hrest⟩ := WrittenRef.tokens_append_inj h
    rw [WrittenRef.tokens_inj (List.cons.inj hrest).2]

theorem message_notMem_tokens (side : WrittenSide) (text : String) : .message text ∉ side.tokens := by
  cases side <;> simp [tokens, WrittenRef.message_notMem_tokens]

end WrittenSide

/-- The message of a statement that keeps apart an absent one and an empty one. -/
def Statement.optionalMessage? : Statement → Option (Option String)
  | leaf (.actor _ _ description) => some description
  | leaf (.gap _ text) => some text
  | _ => none

/-- What is written of a statement before its message, one constructor for each rule of the grammar. -/
inductive Clause where
  | title
  | participant (name : String) (attributes : List Attribute)
  | action (sender : WrittenRef) (stem : Stem) (head : Head) (receiver : WrittenRef)
  | note (side : WrittenSide)
  | divider (kind : DividerKind)
  | horizontal (kind : Option DividerKind)
  | alt
  | loop
  | elseAlt
  | otherwise
  | close
deriving DecidableEq, Repr

namespace Clause

def tokens : Clause → List Token
  | title => [.keyword .title]
  | participant name attributes => .keyword .participant :: .ident name :: attributes.flatMap Attribute.tokens
  | action sender stem head receiver => sender.tokens ++ stem.token :: head.token :: receiver.tokens
  | note side => .keyword .note :: side.tokens
  | divider kind => [.keyword kind.keyword]
  | horizontal kind => .keyword .horizontal :: kind.toList.map fun kind => .keyword kind.keyword
  | alt => [.keyword .alt]
  | loop => [.keyword .loop]
  | elseAlt => [.keyword .elseAlt]
  | otherwise => [.keyword .otherwise]
  | close => [.keyword .close]

/-- The statement that a clause makes with a message, or without one. A title and a note need one, an end has none,
and where a statement always has a text, that text is empty without one. -/
def statement? : Clause → (text : Option String) → Option Statement
  | title, some text => some (.leaf (.title text))
  | title, none => none
  | participant name attributes, text => some (.leaf (.actor name attributes text))
  | action sender stem head receiver, text =>
    some (.leaf (.action sender.ref receiver.ref ⟨stem, head⟩ (text.getD "")))
  | note side, some text => some (.leaf (.note side.actors side.alignment text))
  | note _, none => none
  | divider kind, text => some (.leaf (.gap kind text))
  | horizontal kind, text => some (.leaf (.gap (kind.getD .line) text))
  | alt, text => some (.opening ⟨.alt, "alt", text.getD ""⟩)
  | loop, text => some (.opening ⟨.loop, "loop", text.getD ""⟩)
  | elseAlt, text => some (.branch ⟨.otherwise, "else alt", text.getD ""⟩ false)
  | otherwise, text => some (.branch ⟨.otherwise, "else", text.getD ""⟩ true)
  | close, some _ => none
  | close, none => some .close

def line (clause : Clause) (text : Option String) : List Token := clause.tokens ++ Token.ofMessage? text

theorem message_notMem_tokens (clause : Clause) (text : String) : .message text ∉ clause.tokens := by
  cases clause with
  | participant name attributes => simp [tokens, Attribute.tokens]
  | action sender stem head receiver =>
    have hstem := (stem.token_ne_message text).symm
    have hhead := (head.token_ne_message text).symm
    simp [tokens, WrittenRef.message_notMem_tokens, hstem, hhead]
  | note side => simp [tokens, WrittenSide.message_notMem_tokens]
  | _ => simp [tokens]

end Clause

theorem Token.append_ofMessage?_eq_concat {before words : List Token} {text : Option String} {m : String}
    (hbefore : ∀ m, .message m ∉ before) (h : before ++ ofMessage? text = words ++ [.message m]) :
    before = words ∧ text = some m := by
  cases text with
  | none =>
    have hmem : .message m ∈ before := by simp [(List.append_nil before).symm.trans h]
    exact absurd hmem (hbefore m)
  | some n =>
    obtain ⟨hwords, hmessage⟩ := List.append_inj' h rfl
    cases hmessage
    exact ⟨hwords, rfl⟩

theorem Token.append_ofMessage?_inj {before after : List Token} {text more : Option String}
    (hbefore : ∀ m, .message m ∉ before) (hafter : ∀ m, .message m ∉ after)
    (h : before ++ ofMessage? text = after ++ ofMessage? more) : before = after ∧ text = more := by
  cases more with
  | some m => exact append_ofMessage?_eq_concat hbefore (h.trans rfl)
  | none =>
    cases text with
    | none => exact ⟨List.append_cancel_right h, rfl⟩
    | some m => cases (append_ofMessage?_eq_concat hafter h.symm).2

namespace Statement

theorem actorRef_written (w : WrittenRef) (rest : List Token) : actorRef (w.tokens ++ rest) = .ok (w.ref, rest) := by
  cases w <;> rfl

theorem written_of_actorRef {tokens rest : List Token} {r : ActorRef} (h : actorRef tokens = .ok (r, rest)) :
    ∃ w : WrittenRef, tokens = w.tokens ++ rest ∧ w.ref = r := by
  unfold actorRef at h
  split at h
  · cases h
    exact ⟨.plain _, rfl, rfl⟩
  · cases h
    exact ⟨.dotted _, rfl, rfl⟩
  · cases h
    exact ⟨.dottedLeft, rfl, rfl⟩
  · cases h
    exact ⟨.dottedRight, rfl, rfl⟩
  · contradiction
  · contradiction

theorem tokens_of_stem {tokens rest : List Token} {s : Stem} (h : stem tokens = .ok (s, rest)) :
    tokens = s.token :: rest := by
  unfold stem at h
  split at h <;> cases h <;> rfl

theorem tokens_of_head {tokens rest : List Token} {found : Head} (h : head tokens = .ok (found, rest)) :
    tokens = found.token :: rest := by
  unfold head at h
  split at h <;> cases h <;> rfl

theorem tokens_of_keyword {k : Keyword} {tokens rest : List Token} (h : keyword k tokens = .ok rest) :
    tokens = .keyword k :: rest := by
  unfold keyword at h
  split at h
  · split at h
    · rename_i hfound
      cases h
      rw [hfound]
    · contradiction
  · contradiction

theorem tokens_of_message {what : Expected} {tokens rest : List Token} {text : String}
    (h : message what tokens = .ok (text, rest)) : tokens = .message text :: rest := by
  unfold message at h
  split at h
  · cases h
    rfl
  · contradiction

theorem tokens_of_message? {tokens : List Token} {text : Option String} (h : message? tokens = (text, [])) :
    tokens = Token.ofMessage? text := by
  unfold message? at h
  split at h <;> cases h <;> rfl

theorem tokens_of_attributes {tokens rest : List Token} {attrs : List Attribute}
    (h : attributes tokens = .ok (attrs, rest)) : tokens = attrs.flatMap Attribute.tokens ++ rest := by
  fun_induction attributes tokens generalizing attrs rest with
  | case1 name value tokens ih =>
    obtain ⟨⟨more, after⟩, hmore, h⟩ := bind_eq_ok.mp h
    cases h
    rw [ih hmore]
    rfl
  | case2 => contradiction
  | case3 => contradiction
  | case4 =>
    cases h
    rfl

theorem written_of_participant {tokens : List Token} {content : Leaf} (h : participant tokens = .ok (content, [])) :
    ∃ name attrs text, tokens = .ident name :: (attrs.flatMap Attribute.tokens ++ Token.ofMessage? text) ∧
      content = .actor name attrs text := by
  unfold participant at h
  split at h
  · rename_i name rest
    obtain ⟨⟨attrs, after⟩, hattrs, h⟩ := bind_eq_ok.mp h
    cases hmessage : message? after
    simp only [hmessage] at h
    cases h
    rw [tokens_of_attributes hattrs, tokens_of_message? hmessage]
    exact ⟨name, attrs, _, rfl, rfl⟩
  · contradiction

theorem written_of_action {tokens : List Token} {content : Leaf} (h : action tokens = .ok (content, [])) :
    ∃ clause text, Clause.line clause text = tokens ∧ clause.statement? text = some (.leaf content) := by
  obtain ⟨⟨sender, afterSender⟩, hsender, h⟩ := bind_eq_ok.mp h
  obtain ⟨⟨stem, afterStem⟩, hstem, h⟩ := bind_eq_ok.mp h
  obtain ⟨⟨head, afterHead⟩, hhead, h⟩ := bind_eq_ok.mp h
  obtain ⟨⟨receiver, after⟩, hreceiver, h⟩ := bind_eq_ok.mp h
  cases hmessage : message? after
  simp only [hmessage] at h
  cases h
  obtain ⟨sender, rfl, rfl⟩ := written_of_actorRef hsender
  obtain ⟨receiver, rfl, rfl⟩ := written_of_actorRef hreceiver
  rw [tokens_of_stem hstem, tokens_of_head hhead, tokens_of_message? hmessage]
  exact ⟨.action sender stem head receiver, _, by simp [Clause.line, Clause.tokens], rfl⟩

theorem written_of_secondActor {tokens rest : List Token} {others : List ActorRef}
    (h : secondActor tokens = .ok (others, rest)) :
    others = [] ∧ tokens = rest ∨ ∃ w : WrittenRef, others = [w.ref] ∧ tokens = .comma :: (w.tokens ++ rest) := by
  unfold secondActor at h
  split at h
  · obtain ⟨⟨actor, after⟩, hactor, h⟩ := bind_eq_ok.mp h
    cases h
    obtain ⟨w, rfl, rfl⟩ := written_of_actorRef hactor
    exact .inr ⟨w, rfl, rfl⟩
  · cases h
    exact .inl ⟨rfl, rfl⟩

theorem written_of_noteSide {tokens rest : List Token} {alignment : Alignment} {actors : List ActorRef}
    (h : noteSide tokens = .ok ((alignment, actors), rest)) :
    ∃ side : WrittenSide, tokens = side.tokens ++ rest ∧ side.alignment = alignment ∧ side.actors = actors := by
  unfold noteSide at h
  split at h
  · obtain ⟨afterOf, hof, h⟩ := bind_eq_ok.mp h
    obtain ⟨⟨actor, after⟩, hactor, h⟩ := bind_eq_ok.mp h
    cases h
    obtain ⟨w, rfl, rfl⟩ := written_of_actorRef hactor
    rw [tokens_of_keyword hof]
    exact ⟨.leftOf w, rfl, rfl, rfl⟩
  · obtain ⟨afterOf, hof, h⟩ := bind_eq_ok.mp h
    obtain ⟨⟨actor, after⟩, hactor, h⟩ := bind_eq_ok.mp h
    cases h
    obtain ⟨w, rfl, rfl⟩ := written_of_actorRef hactor
    rw [tokens_of_keyword hof]
    exact ⟨.rightOf w, rfl, rfl, rfl⟩
  · obtain ⟨⟨actor, afterActor⟩, hactor, h⟩ := bind_eq_ok.mp h
    obtain ⟨⟨others, after⟩, hothers, h⟩ := bind_eq_ok.mp h
    cases h
    obtain ⟨w, rfl, rfl⟩ := written_of_actorRef hactor
    obtain ⟨rfl, rfl⟩ | ⟨other, rfl, rfl⟩ := written_of_secondActor hothers
    · exact ⟨.overOne w, rfl, rfl, rfl⟩
    · exact ⟨.overTwo w other, by simp [WrittenSide.tokens], rfl, rfl⟩
  · contradiction

theorem written_of_note {tokens : List Token} {content : Leaf} (h : note tokens = .ok (content, [])) :
    ∃ (side : WrittenSide) (text : String), tokens = side.tokens ++ [.message text] ∧
      content = .note side.actors side.alignment text := by
  obtain ⟨⟨⟨alignment, actors⟩, afterSide⟩, hside, h⟩ := bind_eq_ok.mp h
  obtain ⟨⟨text, after⟩, hmessage, h⟩ := bind_eq_ok.mp h
  cases h
  obtain ⟨side, rfl, rfl, rfl⟩ := written_of_noteSide hside
  rw [tokens_of_message hmessage]
  exact ⟨side, text, rfl, rfl⟩

theorem keyword_of_dividerKind? {t : Token} {kind : DividerKind} (h : dividerKind? t = some kind) :
    t = .keyword kind.keyword := by
  unfold dividerKind? at h
  split at h <;> cases h <;> rfl

theorem written_of_divider {kind : DividerKind} {tokens : List Token} {content : Leaf}
    (h : divider kind tokens = (content, [])) :
    ∃ text, tokens = Token.ofMessage? text ∧ content = .gap kind text := by
  unfold divider at h
  cases hmessage : message? tokens
  simp only [hmessage] at h
  cases h
  exact ⟨_, tokens_of_message? hmessage, rfl⟩

theorem written_of_horizontal {tokens : List Token} {content : Leaf} (h : horizontal tokens = (content, [])) :
    ∃ (kind : Option DividerKind) (text : Option String),
      tokens = (kind.toList.map fun kind => .keyword kind.keyword) ++ Token.ofMessage? text ∧
        content = .gap (kind.getD .line) text := by
  unfold horizontal at h
  split at h
  · obtain ⟨text, htokens, rfl⟩ := written_of_divider h
    exact ⟨none, text, htokens, rfl⟩
  · split at h
    · rename_i kind hkind
      obtain ⟨text, rfl, rfl⟩ := written_of_divider h
      exact ⟨some kind, text, by rw [keyword_of_dividerKind? hkind]; rfl, rfl⟩
    · obtain ⟨text, htokens, rfl⟩ := written_of_divider h
      exact ⟨none, text, htokens, rfl⟩

theorem written_of_heading {kind : SegmentKind} {label : String} {tokens : List Token} {found : Heading}
    (h : heading kind label tokens = (found, [])) :
    ∃ text, tokens = Token.ofMessage? text ∧ found = ⟨kind, label, text.getD ""⟩ := by
  unfold heading at h
  cases hmessage : message? tokens
  simp only [hmessage] at h
  cases h
  exact ⟨_, tokens_of_message? hmessage, rfl⟩

/-- A line that is read as a statement and used up is a clause and its message. -/
theorem exists_clause {tokens : List Token} {s : Statement} (h : start tokens = .ok (s, [])) :
    ∃ clause text, Clause.line clause text = tokens ∧ clause.statement? text = some s := by
  unfold start at h
  split at h
  case h_1 => contradiction
  case h_2 =>
    obtain ⟨⟨text, after⟩, hmessage, h⟩ := bind_eq_ok.mp h
    cases h
    rw [tokens_of_message hmessage]
    exact ⟨.title, some text, rfl, rfl⟩
  case h_3 =>
    obtain ⟨⟨content, after⟩, hparticipant, h⟩ := bind_eq_ok.mp h
    cases h
    obtain ⟨name, attrs, text, rfl, rfl⟩ := written_of_participant hparticipant
    exact ⟨.participant name attrs, text, rfl, rfl⟩
  case h_4 =>
    obtain ⟨⟨content, after⟩, hnote, h⟩ := bind_eq_ok.mp h
    cases h
    obtain ⟨side, text, rfl, rfl⟩ := written_of_note hnote
    exact ⟨.note side, some text, rfl, rfl⟩
  case h_5 rest =>
    cases hhorizontal : horizontal rest
    simp only [hhorizontal] at h
    cases h
    obtain ⟨kind, text, rfl, rfl⟩ := written_of_horizontal hhorizontal
    exact ⟨.horizontal kind, text, rfl, rfl⟩
  case h_6 rest =>
    cases hheading : heading .alt "alt" rest
    simp only [hheading] at h
    cases h
    obtain ⟨text, rfl, rfl⟩ := written_of_heading hheading
    exact ⟨.alt, text, rfl, rfl⟩
  case h_7 rest =>
    cases hheading : heading .loop "loop" rest
    simp only [hheading] at h
    cases h
    obtain ⟨text, rfl, rfl⟩ := written_of_heading hheading
    exact ⟨.loop, text, rfl, rfl⟩
  case h_8 rest =>
    cases hheading : heading .otherwise "else alt" rest
    simp only [hheading] at h
    cases h
    obtain ⟨text, rfl, rfl⟩ := written_of_heading hheading
    exact ⟨.elseAlt, text, rfl, rfl⟩
  case h_9 rest =>
    cases hheading : heading .otherwise "else" rest
    simp only [hheading] at h
    cases h
    obtain ⟨text, rfl, rfl⟩ := written_of_heading hheading
    exact ⟨.otherwise, text, rfl, rfl⟩
  case h_10 =>
    cases h
    exact ⟨.close, none, rfl, rfl⟩
  case h_11 =>
    obtain ⟨⟨content, after⟩, haction, h⟩ := bind_eq_ok.mp h
    cases h
    exact written_of_action haction
  case h_12 =>
    obtain ⟨⟨content, after⟩, haction, h⟩ := bind_eq_ok.mp h
    cases h
    exact written_of_action haction
  case h_13 token rest _ _ _ _ _ _ _ _ _ _ _ =>
    split at h
    · rename_i kind hkind
      cases hdivider : divider kind rest
      simp only [hdivider] at h
      cases h
      obtain ⟨text, rfl, rfl⟩ := written_of_divider hdivider
      exact ⟨.divider kind, text, by rw [keyword_of_dividerKind? hkind]; rfl, rfl⟩
    · contradiction

theorem action_written (sender receiver : WrittenRef) (stem : Stem) (head : Head) (text : Option String) :
    action (Clause.line (.action sender stem head receiver) text) =
      .ok (.action sender.ref receiver.ref ⟨stem, head⟩ (text.getD ""), []) := by
  simp only [Clause.line, Clause.tokens, List.append_assoc, List.cons_append]
  refine bind_eq_ok.mpr ⟨_, actorRef_written sender _, ?_⟩
  refine bind_eq_ok.mpr ⟨_, stem_token _ _, ?_⟩
  refine bind_eq_ok.mpr ⟨_, head_token _ _, ?_⟩
  refine bind_eq_ok.mpr ⟨_, actorRef_written receiver _, ?_⟩
  simp only [message?_ofMessage?]

theorem noteSide_written (side : WrittenSide) (text : String) :
    noteSide (side.tokens ++ [.message text]) = .ok ((side.alignment, side.actors), [.message text]) := by
  cases side with
  | leftOf actor | rightOf actor =>
    refine bind_eq_ok.mpr ⟨actor.tokens ++ [.message text], rfl, ?_⟩
    exact bind_eq_ok.mpr ⟨_, actorRef_written actor _, rfl⟩
  | overOne actor => exact bind_eq_ok.mpr ⟨_, actorRef_written actor _, rfl⟩
  | overTwo actor other =>
    have hsecond : secondActor (.comma :: (other.tokens ++ [.message text])) = .ok ([other.ref], [.message text]) :=
      bind_eq_ok.mpr ⟨_, actorRef_written other _, rfl⟩
    rw [WrittenSide.tokens, List.cons_append, List.append_assoc]
    exact bind_eq_ok.mpr ⟨_, actorRef_written actor _, bind_eq_ok.mpr ⟨_, hsecond, rfl⟩⟩

theorem start_line {clause : Clause} {text : Option String} {s : Statement} (h : clause.statement? text = some s) :
    start (clause.line text) = .ok (s, []) := by
  cases clause with
  | title =>
    cases text <;> cases h
    rfl
  | participant name attrs =>
    cases h
    exact bind_eq_ok.mpr ⟨_, participant_tokens name attrs text, rfl⟩
  | action sender stem head receiver =>
    cases h
    have haction := action_written sender receiver stem head text
    cases sender <;> exact bind_eq_ok.mpr ⟨_, haction, rfl⟩
  | note side =>
    cases text <;> cases h
    exact bind_eq_ok.mpr ⟨_, bind_eq_ok.mpr ⟨_, noteSide_written side _, rfl⟩, rfl⟩
  | divider kind =>
    cases h
    exact divider_tokens kind text
  | horizontal kind =>
    cases h
    rcases kind with _ | kind
    · cases text <;> rfl
    · cases kind <;> cases text <;> rfl
  | close =>
    cases text <;> cases h
    rfl
  | alt | loop | elseAlt | otherwise =>
    cases h
    cases text <;> rfl

theorem ofTokens_eq_ok_iff {tokens : List Token} {s : Statement} :
    ofTokens tokens = .ok s ↔ start tokens = .ok (s, []) := by
  unfold ofTokens
  constructor
  · intro h
    obtain ⟨⟨found, rest⟩, hstart, h⟩ := bind_eq_ok.mp h
    cases rest <;> cases h
    exact hstart
  · intro h
    exact bind_eq_ok.mpr ⟨_, h, rfl⟩

end Statement

namespace Clause

theorem attributes_inj {attrs others : List Attribute}
    (h : attrs.flatMap Attribute.tokens = others.flatMap Attribute.tokens) : attrs = others := by
  have hstop : Statement.attributes [] = .ok ([], []) := rfl
  have hattrs := Statement.attributes_tokens attrs hstop
  have hothers := Statement.attributes_tokens others hstop
  rw [h, hothers] at hattrs
  cases hattrs
  rfl

theorem tokens_inj {clause other : Clause} (h : clause.tokens = other.tokens) : clause = other := by
  -- two rules differ in their first token, except for the two written with a kind of divider
  cases clause <;> cases other <;> simp only [tokens, List.cons.injEq, Token.keyword.injEq, Token.ident.injEq,
    reduceCtorEq, false_and, and_false, true_and, and_true, WrittenRef.tokens_append_ne_keyword,
    (WrittenRef.tokens_append_ne_keyword _ _ _ _).symm] at h
  case title.title | alt.alt | loop.loop | elseAlt.elseAlt | otherwise.otherwise | close.close => rfl
  case participant.participant =>
    obtain ⟨rfl, hattrs⟩ := h
    rw [attributes_inj hattrs]
  case action.action =>
    obtain ⟨rfl, hrest⟩ := WrittenRef.tokens_append_inj h
    obtain ⟨hstem, hrest⟩ := List.cons.inj hrest
    obtain ⟨hhead, hreceiver⟩ := List.cons.inj hrest
    rw [Stem.token_inj hstem, Head.token_inj hhead, WrittenRef.tokens_inj hreceiver]
  case note.note => rw [WrittenSide.tokens_inj h]
  case divider.divider => rw [DividerKind.keyword_inj h]
  case horizontal.horizontal kind other =>
    cases kind <;> cases other
    case none.none => rfl
    case some.some => rw [DividerKind.keyword_inj (Token.keyword.inj (List.cons.inj h).1)]
    all_goals contradiction
  -- no other keyword is a kind of divider
  all_goals grind [cases DividerKind, DividerKind.keyword]

theorem line_inj {clause other : Clause} {text more : Option String} (h : clause.line text = other.line more) :
    clause = other ∧ text = more := by
  obtain ⟨hwords, hmessage⟩ := Token.append_ofMessage?_inj clause.message_notMem_tokens other.message_notMem_tokens h
  exact ⟨tokens_inj hwords, hmessage⟩

theorem statement?_empty {clause : Clause} {s t : Statement} (hs : clause.statement? none = some s)
    (ht : clause.statement? (some "") = some t) :
    s.optionalMessage? = none ∧ t = s ∨ s.optionalMessage? = some none ∧ t.optionalMessage? = some (some "") := by
  cases clause with
  | title | note | close => contradiction
  | participant | divider | horizontal =>
    cases hs
    cases ht
    exact .inr ⟨rfl, rfl⟩
  | action | alt | loop | elseAlt | otherwise =>
    cases hs
    cases ht
    exact .inl ⟨rfl, rfl⟩

end Clause

namespace Statement

theorem ofTokens_iff_clause {tokens : List Token} {s : Statement} :
    ofTokens tokens = .ok s ↔ ∃ clause text, Clause.line clause text = tokens ∧ clause.statement? text = some s := by
  rw [ofTokens_eq_ok_iff]
  constructor
  · exact exists_clause
  · rintro ⟨clause, text, rfl, h⟩
    exact start_line h

/-- Tokens of any origin are a statement exactly when the grammar gives them for it, all of them used. It gives them
in one way at most, and to leave out a message or to write an empty one is the same but where the statement keeps a
message that may be absent. -/
theorem ofTokens_exactly_grammar (tokens : List Token) :
    (∀ s, ofTokens tokens = .ok s ↔
      ∃ clause text, Clause.line clause text = tokens ∧ clause.statement? text = some s) ∧
    (∀ (clause other : Clause) (text more : Option String),
      clause.line text = tokens → other.line more = tokens → clause = other ∧ text = more) ∧
    ∀ s t, ofTokens tokens = .ok s → ofTokens (tokens ++ [.message ""]) = .ok t →
      s.optionalMessage? = none ∧ t = s ∨ s.optionalMessage? = some none ∧ t.optionalMessage? = some (some "") := by
  refine ⟨fun s => ofTokens_iff_clause, ?_, ?_⟩
  · intro clause other text more hclause hother
    exact Clause.line_inj (hclause.trans hother.symm)
  · intro s t hread hlonger
    obtain ⟨clause, text, rfl, hs⟩ := ofTokens_iff_clause.mp hread
    obtain ⟨other, more, hline, ht⟩ := ofTokens_iff_clause.mp hlonger
    -- a clause holds no message, so the last token is the message and the line before it has none
    obtain ⟨hwords, rfl⟩ := Token.append_ofMessage?_eq_concat other.message_notMem_tokens hline
    have hbare : other.line none = clause.line text := (List.append_nil _).trans hwords
    obtain ⟨rfl, rfl⟩ := Clause.line_inj hbare
    exact Clause.statement?_empty hs ht

theorem ofTokens_exactly_grammar_participantSample :
    let line : List Token := [.keyword .participant, .ident "A"]
    ofTokens line = .ok (.leaf (.actor "A" [] none)) ∧
      ∃ t, ofTokens (line ++ [.message ""]) = .ok t ∧ t.optionalMessage? = some (some "") := by
  intro line
  obtain ⟨hread, -, hempty⟩ := ofTokens_exactly_grammar line
  have hnone := (hread _).mpr ⟨.participant "A" [], none, rfl, rfl⟩
  have hkept := (hempty _ _ hnone rfl).resolve_left nofun
  exact ⟨hnone, _, rfl, hkept.2⟩

end Statement

end SequenceChart

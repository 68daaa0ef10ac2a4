import SequenceChart.Proofs.Diagram.Faults

/-! The items of a diagram as the image of its script. A relation between nodes and items states rule by rule what
each node becomes; the items of a diagram that was built are the only ones that stand in it to the nodes. -/

namespace SequenceChart

variable {ι : Type}

def Leaf.isItem : Leaf → Bool
  | .action _ _ _ _ | .note _ _ _ | .gap _ _ => true
  | .title _ | .actor _ _ _ | .instruction _ => false

theorem Step.exists_faults_eq_nil {b : Builder ι} {declared : List String} {steps : List Step}
    (h : faultsAll b declared steps = []) {step : Step} (hstep : step ∈ steps) :
    ∃ declared, step.faults b declared = [] := by
  induction steps generalizing declared with
  | nil => contradiction
  | cons first later ih =>
    obtain ⟨hfirst, hlater⟩ := List.append_eq_nil_iff.mp h
    obtain rfl | hstep := List.mem_cons.mp hstep
    · exact ⟨declared, hfirst⟩
    · exact ih hlater hstep

namespace Node

def isItem : Node → Bool
  | leaf _ content => content.isItem
  | block _ _ => true

def setting? : Node → Option Instruction
  | leaf _ content => content.setting?
  | block _ _ => none

mutual

def preorder : Node → List Node
  | .leaf line content => [.leaf line content]
  | .block line segments => .block line segments :: preorderSegments segments

def preorderSegments : List (Segment Node) → List Node
  | [] => []
  | ⟨_, body⟩ :: later => preorderAll body ++ preorderSegments later

def preorderAll : List Node → List Node
  | [] => []
  | node :: later => node.preorder ++ preorderAll later

end

theorem item?_of_not_isItem {node : Node} (h : node.isItem = false) (find : ActorRef → Participant) :
    node.item? find = none := by
  cases node with
  | leaf line content =>
    cases content with
    | title | actor | instruction => rfl
    | action | note | gap => contradiction
  | block => contradiction

theorem countP_preorder_of_not_isItem {node : Node} (h : node.isItem = false) :
    node.preorder.countP isItem = 0 := by
  cases node with
  | leaf line content => rw [preorder, List.countP_singleton, if_neg (by simp [h])]
  | block => contradiction

end Node

namespace Diagram

inductive Resolves (d : Diagram ι) : ActorRef → Participant → Prop
  | named {rank : Nat} {a : Actor ι} : d.actor? rank = some a → Resolves d (.named a.name) (.actor rank)
  | left {name : String} : Text.foldCase name = "left" → Resolves d (.pseudo name) .leftOffside
  | right {name : String} : Text.foldCase name = "right" → Resolves d (.pseudo name) .rightOffside

mutual

/-- The item that a node is shown as. -/
inductive Shows (d : Diagram ι) : Node → Item → Prop
  | action {line : Nat} {sender receiver : ActorRef} {p q : Participant} {arrow : Arrow} {message : String} :
      d.Resolves sender p → d.Resolves receiver q →
        Shows d (.leaf line (.action sender receiver arrow message)) (.action ⟨p, q, arrow, message⟩)
  | note {line : Nat} {ref : ActorRef} {p : Participant} {alignment : Alignment} {message : String} :
      d.Resolves ref p → Shows d (.leaf line (.note [ref] alignment message)) (.note ⟨p, none, alignment, message⟩)
  | noteTwice {line : Nat} {ref other : ActorRef} {p : Participant} {alignment : Alignment} {message : String} :
      d.Resolves ref p → d.Resolves other p →
        Shows d (.leaf line (.note [ref, other] alignment message)) (.note ⟨p, none, alignment, message⟩)
  | noteTwo {line : Nat} {ref other : ActorRef} {p q : Participant} {alignment : Alignment} {message : String} :
      d.Resolves ref p → d.Resolves other q → p ≠ q →
        Shows d (.leaf line (.note [ref, other] alignment message)) (.note ⟨p, some q, alignment, message⟩)
  | divider {line : Nat} {kind : DividerKind} {message : Option String} :
      Shows d (.leaf line (.gap kind message)) (.divider ⟨kind, message⟩)
  | block {line : Nat} {segments : List (Segment Node)} {built : List (Segment Item)} :
      ShowsSegments d segments built → Shows d (.block line segments) (.block built)

/-- Segments keep their headings, also those in which nothing is shown. -/
inductive ShowsSegments (d : Diagram ι) : List (Segment Node) → List (Segment Item) → Prop
  | nil : ShowsSegments d [] []
  | cons {heading : Heading} {body : List Node} {items : List Item} {later : List (Segment Node)}
      {built : List (Segment Item)} : ShowsAll d body items → ShowsSegments d later built →
        ShowsSegments d (⟨heading, body⟩ :: later) (⟨heading, items⟩ :: built)

/-- The nodes in their order, without those that leave no item. -/
inductive ShowsAll (d : Diagram ι) : List Node → List Item → Prop
  | nil : ShowsAll d [] []
  | skipped {node : Node} {later : List Node} {items : List Item} :
      node.isItem = false → ShowsAll d later items → ShowsAll d (node :: later) items
  | shown {node : Node} {item : Item} {later : List Node} {items : List Item} :
      Shows d node item → ShowsAll d later items → ShowsAll d (node :: later) (item :: items)

end

variable {d : Diagram ι}

theorem Resolves.eq_participant (h : (d.actors.map Actor.name).Nodup) {ref : ActorRef} {p : Participant}
    (hresolves : d.Resolves ref p) : p = d.participant ref := by
  cases hresolves with
  | @named rank a ha =>
    have hname : (d.actors.map Actor.name)[rank]? = some a.name := by
      rw [List.getElem?_map]
      exact congrArg (Option.map Actor.name) ha
    obtain ⟨hlt, hget⟩ := List.getElem?_eq_some_iff.mp hname
    rw [participant, ActorRef.participant, ← hget, h.idxOf_getElem rank hlt]
  | left hleft => rw [participant, ActorRef.participant, if_pos hleft]
  | right hright => rw [participant, ActorRef.participant, if_neg (by simp [hright])]

theorem resolves_participant (h : d.Ranked) {b : Builder ι} {declared : List String} {line : Nat} {ref : ActorRef}
    (hfaults : ref.faults b declared line = []) (hnames : ∀ name ∈ ref.names, name ∈ d.actors.map Actor.name) :
    d.Resolves ref (d.participant ref) := by
  cases ref with
  | named name =>
    obtain ⟨a, ha, rfl, hparticipant⟩ := participant_named h (hnames name List.mem_cons_self)
    rw [hparticipant]
    exact .named (actor?_rank h ha)
  | pseudo name =>
    have hmargin : Text.foldCase name ∈ ["left", "right"] := by
      by_contra hno
      simp only [ActorRef.faults, if_neg hno] at hfaults
      contradiction
    rw [participant, ActorRef.participant]
    split
    · exact .left ‹_›
    · refine .right ?_
      simpa [‹¬_›] using hmargin

mutual

theorem Shows.item?_eq (hnodup : (d.actors.map Actor.name).Nodup) {node : Node} {item : Item}
    (h : d.Shows node item) : node.item? d.participant = some item := by
  cases h with
  | action hsender hreceiver =>
    rw [hsender.eq_participant hnodup, hreceiver.eq_participant hnodup]
    rfl
  | note href =>
    rw [href.eq_participant hnodup]
    rfl
  | noteTwice href hother =>
    have hsame := (hother.eq_participant hnodup).symm.trans (href.eq_participant hnodup)
    rw [Node.item?, Leaf.item?, if_pos hsame, href.eq_participant hnodup]
  | noteTwo href hother hne =>
    rw [href.eq_participant hnodup, hother.eq_participant hnodup] at hne
    rw [Node.item?, Leaf.item?, if_neg hne.symm, href.eq_participant hnodup, hother.eq_participant hnodup]
  | divider => rfl
  | block hsegments => rw [Node.item?, hsegments.eq_itemsSegments hnodup]

theorem ShowsSegments.eq_itemsSegments (hnodup : (d.actors.map Actor.name).Nodup) {segments : List (Segment Node)}
    {built : List (Segment Item)} (h : d.ShowsSegments segments built) :
    built = Node.itemsSegments d.participant segments := by
  cases h with
  | nil => rfl
  | cons hbody hlater =>
    rw [Node.itemsSegments, ← hbody.eq_itemsAll hnodup, ← hlater.eq_itemsSegments hnodup]

theorem ShowsAll.eq_itemsAll (hnodup : (d.actors.map Actor.name).Nodup) {nodes : List Node} {items : List Item}
    (h : d.ShowsAll nodes items) : items = Node.itemsAll d.participant nodes := by
  cases h with
  | nil => rfl
  | skipped hskipped hlater =>
    rw [Node.itemsAll, Node.item?_of_not_isItem hskipped, ← hlater.eq_itemsAll hnodup]
    rfl
  | shown hshown hlater =>
    rw [Node.itemsAll, hshown.item?_eq hnodup, ← hlater.eq_itemsAll hnodup]
    rfl

end

mutual

theorem Shows.count_eq {node : Node} {item : Item} (h : d.Shows node item) :
    item.count = node.preorder.countP Node.isItem := by
  cases h with
  | block hsegments => rw [Item.count, Node.preorder, hsegments.count_eq, List.countP_cons_of_pos rfl, Nat.add_comm]
  | action | note | noteTwice | noteTwo | divider => rfl

theorem ShowsSegments.count_eq {segments : List (Segment Node)} {built : List (Segment Item)}
    (h : d.ShowsSegments segments built) :
    Item.countSegments built = (Node.preorderSegments segments).countP Node.isItem := by
  cases h with
  | nil => rfl
  | cons hbody hlater =>
    rw [Item.countSegments, Node.preorderSegments, List.countP_append, hbody.count_eq, hlater.count_eq]

theorem ShowsAll.count_eq {nodes : List Node} {items : List Item} (h : d.ShowsAll nodes items) :
    Item.countAll items = (Node.preorderAll nodes).countP Node.isItem := by
  cases h with
  | nil => rfl
  | skipped hskipped hlater =>
    rw [Node.preorderAll, List.countP_append, Node.countP_preorder_of_not_isItem hskipped, Nat.zero_add,
      hlater.count_eq]
  | shown hshown hlater =>
    rw [Item.countAll, Node.preorderAll, List.countP_append, hshown.count_eq, hlater.count_eq]

end

def Faithful (d : Diagram ι) (line : Nat) (content : Leaf) : Prop :=
  content.isItem = true → ∃ item, d.Shows (.leaf line content) item

theorem faithful_of_faults (h : d.Ranked) {b : Builder ι} {declared : List String} {line : Nat} {content : Leaf}
    (hfaults : content.faults b declared line = [])
    (hnames : ∀ name ∈ content.names, name ∈ d.actors.map Actor.name) : d.Faithful line content := by
  intro hitem
  cases content with
  | title | actor | instruction => contradiction
  | gap => exact ⟨_, .divider⟩
  | action sender receiver arrow message =>
    obtain ⟨hsender, hreceiver⟩ := List.append_eq_nil_iff.mp hfaults
    obtain ⟨hsenderNames, hreceiverNames⟩ := List.forall_mem_append.mp hnames
    exact ⟨_, .action (resolves_participant h hsender hsenderNames)
      (resolves_participant h hreceiver hreceiverNames)⟩
  | note actors alignment message =>
    obtain ⟨hcount, hactors⟩ := List.append_eq_nil_iff.mp hfaults
    have hresolves : ∀ ref ∈ actors, d.Resolves ref (d.participant ref) := by
      intro ref href
      exact resolves_participant h (List.flatMap_eq_nil_iff.mp hactors ref href) fun name hname =>
        hnames name (List.mem_flatMap.mpr ⟨ref, href, hname⟩)
    match actors, hresolves with
    | [], _ => contradiction
    | [ref], hresolves => exact ⟨_, .note (hresolves ref (by simp))⟩
    | [ref, other], hresolves =>
      have href := hresolves ref (by simp)
      have hother := hresolves other (by simp)
      by_cases hsame : d.participant ref = d.participant other
      · exact ⟨_, .noteTwice href (hsame ▸ hother)⟩
      · exact ⟨_, .noteTwo href hother hsame⟩
    | _ :: _ :: _ :: _, _ => simp at hcount

theorem exists_showsSegments {segments : List (Segment Node)}
    (hbodies : ∀ s ∈ segments, (∀ line content, .leaf line content ∈ Node.stepsAll s.body → d.Faithful line content) →
      ∃ items, d.ShowsAll s.body items)
    (h : ∀ line content, .leaf line content ∈ Node.stepsSegments segments → d.Faithful line content) :
    ∃ built, d.ShowsSegments segments built := by
  induction segments with
  | nil => exact ⟨[], .nil⟩
  | cons s later ih =>
    obtain ⟨heading, body⟩ := s
    obtain ⟨hbody, hlater⟩ := List.forall_mem_cons.mp hbodies
    rw [Node.stepsSegments] at h
    obtain ⟨items, hitems⟩ := hbody fun line content hmem => h line content (by simp [hmem])
    obtain ⟨built, hbuilt⟩ := ih hlater fun line content hmem => h line content (by simp [hmem])
    exact ⟨⟨heading, items⟩ :: built, .cons hitems hbuilt⟩

/-- Nodes are shown if each statement in them is. -/
theorem exists_showsAll {nodes : List Node}
    (h : ∀ line content, .leaf line content ∈ Node.stepsAll nodes → d.Faithful line content) :
    ∃ items, d.ShowsAll nodes items := by
  induction nodes using Node.forest_induction with
  | nil => exact ⟨[], .nil⟩
  | leaf line content later ih =>
    rw [Node.stepsAll, Node.steps, List.singleton_append] at h
    obtain ⟨items, hitems⟩ := ih fun line content hmem => h line content (List.mem_cons_of_mem _ hmem)
    cases hitem : content.isItem with
    | false => exact ⟨items, .skipped hitem hitems⟩
    | true =>
      obtain ⟨item, hshown⟩ := h line content List.mem_cons_self hitem
      exact ⟨item :: items, .shown hshown hitems⟩
  | block line segments later ihbodies ih =>
    rw [Node.stepsAll, Node.steps] at h
    obtain ⟨built, hbuilt⟩ := exists_showsSegments ihbodies fun line content hmem =>
      h line content (List.mem_append_left _ hmem)
    obtain ⟨items, hitems⟩ := ih fun line content hmem => h line content (List.mem_append_right _ hmem)
    exact ⟨.block built :: items, .shown (.block hbuilt) hitems⟩

theorem faithful_of_build {b : Builder ι} {nodes : List Node} (h : b.build nodes = .ok d) {line : Nat} {content : Leaf}
    (hmem : .leaf line content ∈ Node.stepsAll nodes) : d.Faithful line content := by
  have hnone : Node.faults b nodes = [] := (Builder.reports_build b nodes).of_ok h
  obtain ⟨declared, hfaults⟩ := Step.exists_faults_eq_nil hnone hmem
  refine faithful_of_faults (ranked_of_build h) hfaults fun name hname => ?_
  rw [names_of_build h, List.mem_eraseDups]
  exact List.mem_flatMap.mpr ⟨_, hmem, hname⟩

theorem showsAll_iff {b : Builder ι} {nodes : List Node} (h : b.build nodes = .ok d) (items : List Item) :
    d.ShowsAll nodes items ↔ items = d.items := by
  have hnodup : (d.actors.map Actor.name).Nodup := names_of_build h ▸ nodup_eraseDups _
  have hunique : ∀ {items}, d.ShowsAll nodes items → items = d.items := fun hshows =>
    (hshows.eq_itemsAll hnodup).trans (items_of_build h).symm
  constructor
  · exact hunique
  · rintro rfl
    obtain ⟨shown, hshown⟩ := exists_showsAll fun line content => faithful_of_build h
    exact hunique hshown ▸ hshown

end Diagram

namespace Builder

variable {b : Builder ι} {d later : Draft ι} {line : Nat}

theorem instructions_segments {segments : List (Segment Node)}
    (hbodies : ∀ s ∈ segments, ∀ {d later items}, b.nodes d s.body = .ok (later, items) →
      later.instructions = d.instructions ++ (Node.preorderAll s.body).filterMap Node.setting?)
    {built : List (Segment Item)} (h : b.segments d segments = .ok (later, built)) :
    later.instructions = d.instructions ++ (Node.preorderSegments segments).filterMap Node.setting? := by
  induction segments generalizing d built with
  | nil =>
    cases h
    exact (List.append_nil _).symm
  | cons s segments ih =>
    obtain ⟨heading, body⟩ := s
    obtain ⟨hbody, hrest⟩ := List.forall_mem_cons.mp hbodies
    obtain ⟨⟨middle, items⟩, hitems, h⟩ := bind_eq_ok.mp h
    obtain ⟨⟨last, rest⟩, hsegments, h⟩ := bind_eq_ok.mp h
    cases h
    rw [ih hrest hsegments, hbody hitems, Node.preorderSegments, List.filterMap_append, List.append_assoc]

theorem instructions_nodes {nodes : List Node} {items : List Item} (h : b.nodes d nodes = .ok (later, items)) :
    later.instructions = d.instructions ++ (Node.preorderAll nodes).filterMap Node.setting? := by
  induction nodes using Node.forest_induction generalizing d later items with
  | nil =>
    cases h
    exact (List.append_nil _).symm
  | leaf line content nodes ih =>
    obtain ⟨⟨middle, item⟩, hleaf, h⟩ := bind_eq_ok.mp h
    obtain ⟨⟨last, rest⟩, hnodes, h⟩ := bind_eq_ok.mp h
    cases h
    have hsetting : [Node.leaf line content].filterMap Node.setting? = content.setting?.toList := by
      rw [List.filterMap_cons, Node.setting?]
      cases content.setting? <;> rfl
    rw [ih hnodes, instructions_leaf hleaf, Node.preorderAll, Node.preorder, List.filterMap_append, hsetting,
      List.append_assoc]
  | block line segments nodes ihbodies ih =>
    obtain ⟨⟨middle, item⟩, hblock, h⟩ := bind_eq_ok.mp h
    obtain ⟨⟨last, rest⟩, hnodes, h⟩ := bind_eq_ok.mp h
    cases h
    obtain ⟨⟨inside, built⟩, hsegments, hblock⟩ := bind_eq_ok.mp hblock
    cases hblock
    rw [ih hnodes, instructions_segments ihbodies hsegments, Node.preorderAll, Node.preorder, List.cons_append,
      List.filterMap_cons, Node.setting?, List.filterMap_append, List.append_assoc]

end Builder

namespace Diagram

variable {d : Diagram ι}

theorem instructions_of_build {b : Builder ι} {nodes : List Node} (h : b.build nodes = .ok d) :
    d.instructions = (Node.preorderAll nodes).filterMap Node.setting? := by
  obtain ⟨⟨draft, items⟩, hnodes, h⟩ := bind_eq_ok.mp h
  cases h
  exact Builder.instructions_nodes hnodes

/-- The items of a diagram are the image of the nodes it was built from, and nothing else is: what happens is kept
in its place at every depth, and titles, declarations and settings leave nothing. The settings of the diagram are
those in the nodes, and the count of its items is that of the nodes that are kept. -/
theorem items_image {b : Builder ι} {nodes : List Node} {d : Diagram ι} (h : b.build nodes = .ok d) :
    (∀ items, d.ShowsAll nodes items ↔ items = d.items) ∧
    d.instructions = (Node.preorderAll nodes).filterMap Node.setting? ∧
    d.itemCount = (Node.preorderAll nodes).countP Node.isItem :=
  ⟨showsAll_iff h, instructions_of_build h, ((showsAll_iff h d.items).mpr rfl).count_eq⟩

def imageSample : List Node :=
  [.leaf 1 (.title "t"),
    .block 2 [⟨.alt "", [.leaf 3 (.instruction ⟨"style", "dark"⟩), .leaf 4 (.actor "a" [] none)]⟩,
      ⟨.otherwise "", [.block 6 [⟨.loop "", [.leaf 7 (.note [.named "a", .named "b"] .over "x")]⟩]]⟩],
    .leaf 10 (.note [.pseudo "left", .pseudo "LEFT"] .over "y"), .leaf 11 (.instruction ⟨"margin", "2"⟩)]

theorem items_image_imageSample :
    ∃ d : Diagram BuiltinIcon, ofNodes imageSample = .ok d ∧ d.ShowsAll imageSample d.items ∧
      d.instructions = [⟨"style", "dark"⟩, ⟨"margin", "2"⟩] ∧ d.itemCount = 4 := by
  have hok : (ofNodes imageSample).isOk := by decide +kernel
  obtain ⟨d, hbuild⟩ := isOk_iff.mp hok
  obtain ⟨himage, hinstructions, hcount⟩ := items_image hbuild
  exact ⟨d, hbuild, (himage _).mpr rfl, hinstructions, hcount⟩

end Diagram

end SequenceChart

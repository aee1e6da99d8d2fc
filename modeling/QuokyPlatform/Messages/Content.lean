import QuokyPlatform.Chunking.TokenEstimate

/-!
# Platform-neutral message content

A reply is a list of nodes: Quoky's own copy, spans whose presentation is the platform's, and
length budgets over nested content. `NodeShape` is one node with its nested contents abstracted,
so an evaluator is what it does with one shape whose contents are already evaluated, and
`MessageNode.fold` runs it over the tree.
-/

namespace QuokyPlatform.Messages
open Chunking
set_option autoImplicit false
set_option maxHeartbeats 250000

/-! ## Nodes -/

/-- How strictly an untrusted span is neutralized when rendered. -/
inductive UntrustedTextGuard where
  | markup
  | mentions
  | path
  | handles
  deriving DecidableEq, Repr

structure ConversationRefNode where
  platform : JsString
  direct : Bool
  /-- The channel or thread id, present only for a non-direct conversation with a safe id. -/
  id : Option JsString
  label : JsString
  deriving DecidableEq, Repr

inductive PlatformNoteTopic where
  | commandPrefix
  deriving DecidableEq, Repr

/-- How a budget counts characters. -/
inductive MessageLengthUnit where
  | utf16
  | codePoints
  deriving DecidableEq, Repr

/-- A line of a `fitLines` node; a droppable one may be left out when the lines do not fit. -/
structure FitLine (T : Type) where
  content : T
  droppable : Bool
  deriving DecidableEq, Repr

/-- A line of a `takeLines` node; an item is counted when it is left out. -/
structure TakeLine (T : Type) where
  content : T
  item : Bool
  deriving DecidableEq, Repr

/-- The closing line of a `takeLines` node: `before`, the number left out plus `hidden`, `after`. -/
structure Omitted where
  hidden : ℤ
  before : JsString
  after : JsString
  deriving DecidableEq, Repr

/-- One node over contents of type `T`. -/
inductive NodeShape (T : Type) where
  | text (value : JsString)
  | untrusted (text : JsString) (guard : UntrustedTextGuard)
  | link (url : JsString)
  | conversation (ref : ConversationRefNode)
  | platformNote (topic : PlatformNoteTopic)
  | clip (content : T) (maxChars : ℤ) (unit : MessageLengthUnit) (trim : Bool) (after : Option T)
  | fitLines (lines : List (FitLine T)) (maxChars : ℤ) (omittedNote : Option JsString)
  | takeLines (unit : MessageLengthUnit) (maxChars baseChars : ℤ) (head tail : List T)
      (lines : List (TakeLine T)) (headOnlyWithLines dropTrailingHeadings : Bool)
      (omitted : Option Omitted)
  | firstFit (candidates : List T) (maxChars : ℤ) (unit : MessageLengthUnit)
  deriving DecidableEq, Repr

/-- A node of a message; its contents are lists of nodes. -/
inductive MessageNode where
  | node (shape : NodeShape (List MessageNode))

abbrev MessageContent := List MessageNode

/-- What a renderer returns: plain Quoky copy, or content that carries platform-rendered spans. -/
inductive MessageBody where
  | text (value : JsString)
  | content (nodes : MessageContent)

/-! ## Shapes -/

section Shapes
variable {T U V : Type}

def FitLine.map (f : T → U) (line : FitLine T) : FitLine U := ⟨f line.content, line.droppable⟩

def TakeLine.map (f : T → U) (line : TakeLine T) : TakeLine U := ⟨f line.content, line.item⟩

namespace NodeShape

def map (f : T → U) : NodeShape T → NodeShape U
  | .text value => .text value
  | .untrusted value guard => .untrusted value guard
  | .link url => .link url
  | .conversation ref => .conversation ref
  | .platformNote topic => .platformNote topic
  | .clip content maxChars unit trim after =>
    .clip (f content) maxChars unit trim (after.map f)
  | .fitLines lines maxChars omittedNote => .fitLines (lines.map (FitLine.map f)) maxChars omittedNote
  | .takeLines unit maxChars baseChars head tail lines headOnly dropHeadings omitted =>
    .takeLines unit maxChars baseChars (head.map f) (tail.map f) (lines.map (TakeLine.map f))
      headOnly dropHeadings omitted
  | .firstFit candidates maxChars unit => .firstFit (candidates.map f) maxChars unit

/-- The contents nested directly in a node. -/
def contents : NodeShape T → List T
  | .clip content _ _ _ after => content :: after.toList
  | .fitLines lines _ _ => lines.map FitLine.content
  | .takeLines _ _ _ head tail lines _ _ _ => head ++ tail ++ lines.map TakeLine.content
  | .firstFit candidates _ _ => candidates
  | _ => []

theorem map_congr {f g : T → U} {shape : NodeShape T} (h : ∀ c ∈ shape.contents, f c = g c) :
    shape.map f = shape.map g := by
  cases shape with
  | clip content maxChars unit trim after =>
    have hcontent : f content = g content := h content (by simp [contents])
    have hafter : after.map f = after.map g := by
      cases after with
      | none => rfl
      | some a => simp [h a (by simp [contents])]
    simp [map, hcontent, hafter]
  | fitLines lines maxChars omittedNote =>
    have hlines : lines.map (FitLine.map f) = lines.map (FitLine.map g) := by
      apply List.map_congr_left
      intro line hline
      have hline' : f line.content = g line.content :=
        h line.content (List.mem_map_of_mem hline)
      simp [FitLine.map, hline']
    simp [map, hlines]
  | takeLines unit maxChars baseChars head tail lines headOnly dropHeadings omitted =>
    have hhead : head.map f = head.map g :=
      List.map_congr_left fun c hc => h c (by simp [contents, hc])
    have htail : tail.map f = tail.map g :=
      List.map_congr_left fun c hc => h c (by simp [contents, hc])
    have hlines : lines.map (TakeLine.map f) = lines.map (TakeLine.map g) := by
      apply List.map_congr_left
      intro line hline
      have hline' : f line.content = g line.content := by
        apply h
        simp only [contents, List.mem_append, List.mem_map]
        exact .inr ⟨line, hline, rfl⟩
      simp [TakeLine.map, hline']
    simp [map, hhead, htail, hlines]
  | firstFit candidates maxChars unit =>
    have hcandidates : candidates.map f = candidates.map g := List.map_congr_left h
    simp [map, hcandidates]
  | _ => rfl

theorem map_map (f : T → U) (g : U → V) (shape : NodeShape T) :
    (shape.map f).map g = shape.map (g ∘ f) := by
  cases shape <;> simp [map, FitLine.map, TakeLine.map, Function.comp_def]

theorem contents_map (f : T → U) (shape : NodeShape T) :
    (shape.map f).contents = shape.contents.map f := by
  cases shape with
  | clip content maxChars unit trim after => cases after <;> rfl
  | _ => simp [map, contents, FitLine.map, TakeLine.map, Function.comp_def]

end NodeShape
end Shapes

/-! ## Evaluation over the tree -/

section Fold
variable {T : Type} (layout : NodeShape T → T) (join : List T → T)

mutual

/-- Evaluate the contents of a node and then the node. -/
def MessageNode.fold : MessageNode → T
  | .node shape => layout (foldShape shape)

def foldShape : NodeShape (List MessageNode) → NodeShape T
  | .text value => .text value
  | .untrusted value guard => .untrusted value guard
  | .link url => .link url
  | .conversation ref => .conversation ref
  | .platformNote topic => .platformNote topic
  | .clip content maxChars unit trim after =>
    .clip (join (foldNodes content)) maxChars unit trim (foldAfter after)
  | .fitLines lines maxChars omittedNote => .fitLines (foldFitLines lines) maxChars omittedNote
  | .takeLines unit maxChars baseChars head tail lines headOnly dropHeadings omitted =>
    .takeLines unit maxChars baseChars (foldContents head) (foldContents tail)
      (foldTakeLines lines) headOnly dropHeadings omitted
  | .firstFit candidates maxChars unit => .firstFit (foldContents candidates) maxChars unit

def foldNodes : List MessageNode → List T
  | [] => []
  | node :: rest => node.fold :: foldNodes rest

def foldAfter : Option (List MessageNode) → Option T
  | none => none
  | some nodes => some (join (foldNodes nodes))

def foldContents : List (List MessageNode) → List T
  | [] => []
  | nodes :: rest => join (foldNodes nodes) :: foldContents rest

def foldFitLine : FitLine (List MessageNode) → FitLine T
  | ⟨content, droppable⟩ => ⟨join (foldNodes content), droppable⟩

def foldFitLines : List (FitLine (List MessageNode)) → List (FitLine T)
  | [] => []
  | line :: rest => foldFitLine line :: foldFitLines rest

def foldTakeLine : TakeLine (List MessageNode) → TakeLine T
  | ⟨content, item⟩ => ⟨join (foldNodes content), item⟩

def foldTakeLines : List (TakeLine (List MessageNode)) → List (TakeLine T)
  | [] => []
  | line :: rest => foldTakeLine line :: foldTakeLines rest

end

theorem foldNodes_eq (nodes : List MessageNode) :
    foldNodes layout join nodes = nodes.map (MessageNode.fold layout join) := by
  induction nodes with
  | nil => rfl
  | cons node rest ih => simp [foldNodes, ih]

/-- The value of a content: its nodes' values, joined. -/
def foldContent (nodes : MessageContent) : T := join (nodes.map (MessageNode.fold layout join))

theorem foldContents_eq (contents : List (List MessageNode)) :
    foldContents layout join contents = contents.map (foldContent layout join) := by
  induction contents with
  | nil => rfl
  | cons nodes rest ih => simp [foldContents, foldContent, foldNodes_eq, ih]

theorem foldFitLines_eq (lines : List (FitLine (List MessageNode))) :
    foldFitLines layout join lines = lines.map (FitLine.map (foldContent layout join)) := by
  induction lines with
  | nil => rfl
  | cons line rest ih =>
    cases line
    simp [foldFitLines, foldFitLine, FitLine.map, foldContent, foldNodes_eq, ih]

theorem foldTakeLines_eq (lines : List (TakeLine (List MessageNode))) :
    foldTakeLines layout join lines = lines.map (TakeLine.map (foldContent layout join)) := by
  induction lines with
  | nil => rfl
  | cons line rest ih =>
    cases line
    simp [foldTakeLines, foldTakeLine, TakeLine.map, foldContent, foldNodes_eq, ih]

/-- A node is evaluated on its evaluated contents. -/
theorem MessageNode.fold_node (shape : NodeShape (List MessageNode)) :
    MessageNode.fold layout join (.node shape) = layout (shape.map (foldContent layout join)) := by
  cases shape with
  | clip content maxChars unit trim after =>
    cases after <;> simp [fold, foldShape, NodeShape.map, foldAfter, foldContent, foldNodes_eq]
  | fitLines lines maxChars omittedNote =>
    simp [fold, foldShape, NodeShape.map, foldFitLines_eq]
  | takeLines unit maxChars baseChars head tail lines headOnly dropHeadings omitted =>
    simp [fold, foldShape, NodeShape.map, foldContents_eq, foldTakeLines_eq]
  | firstFit candidates maxChars unit =>
    simp [fold, foldShape, NodeShape.map, foldContents_eq]
  | _ => rfl

end Fold

/-- Induction on a message tree: every node nested in the contents of a node comes before it. -/
theorem MessageNode.contents_induction {P : MessageNode → Prop}
    (step : ∀ shape : NodeShape (List MessageNode),
      (∀ nodes ∈ shape.contents, ∀ node ∈ nodes, P node) → P (.node shape))
    (node : MessageNode) : P node := by
  apply MessageNode.rec (motive_1 := P)
    (motive_2 := fun shape => ∀ nodes ∈ shape.contents, ∀ node ∈ nodes, P node)
    (motive_3 := fun nodes => ∀ node ∈ nodes, P node)
    (motive_4 := fun after => ∀ nodes ∈ after, ∀ node ∈ nodes, P node)
    (motive_5 := fun lines => ∀ line ∈ lines, ∀ node ∈ line.content, P node)
    (motive_6 := fun contents => ∀ nodes ∈ contents, ∀ node ∈ nodes, P node)
    (motive_7 := fun lines => ∀ line ∈ lines, ∀ node ∈ line.content, P node)
    (motive_8 := fun line => ∀ node ∈ line.content, P node)
    (motive_9 := fun line => ∀ node ∈ line.content, P node)
  case node => exact step
  case clip =>
    intro content maxChars unit trim after hcontent hafter nodes hnodes
    simp only [NodeShape.contents, List.mem_cons, Option.mem_toList] at hnodes
    cases hnodes with
    | inl h => rw [h]; exact hcontent
    | inr h => exact hafter nodes h
  case fitLines =>
    intro lines maxChars omittedNote hlines
    simpa [NodeShape.contents] using hlines
  case takeLines =>
    intro unit maxChars baseChars head tail lines headOnly dropHeadings omitted hhead htail hlines
    simp only [NodeShape.contents, List.forall_mem_append, List.forall_mem_map]
    exact ⟨⟨hhead, htail⟩, hlines⟩
  case firstFit => exact fun candidates maxChars unit h => h
  -- the lists, options and lines between a node and the nodes of its contents
  case none | mk | mk => simp
  case some => exact fun nodes h => by simpa using h
  case nil | nil | nil | nil => simp
  case cons | cons | cons | cons => exact fun _ _ hhead htail => List.forall_mem_cons.mpr ⟨hhead, htail⟩
  all_goals simp [NodeShape.contents]

/-- `node` is one of `nodes` or nested in one of them. -/
inductive Occurs (node : MessageNode) : MessageContent → Prop
  | here {nodes : MessageContent} (h : node ∈ nodes) : Occurs node nodes
  | inside {nodes contents : MessageContent} {shape : NodeShape MessageContent}
      (h : MessageNode.node shape ∈ nodes) (hc : contents ∈ shape.contents)
      (ho : Occurs node contents) : Occurs node nodes

/-- Occurring in one node of a content is occurring in the content. -/
theorem Occurs.of_singleton {node member : MessageNode} {nodes : MessageContent}
    (h : Occurs node [member]) (hmember : member ∈ nodes) : Occurs node nodes := by
  cases h with
  | here hmem =>
    rw [List.mem_singleton.mp hmem]
    exact .here hmember
  | inside hmem hc ho =>
    rw [← List.mem_singleton.mp hmem] at hmember
    exact .inside hmember hc ho

/-! ## Building a message -/

/-- What the builders accept: a body, or a single node. -/
inductive MessagePart where
  | text (value : JsString)
  | content (nodes : MessageContent)
  | node (node : MessageNode)

def MessageBody.part : MessageBody → MessagePart
  | .text value => .text value
  | .content nodes => .content nodes

/-- Append a node; an empty string is dropped and a string after a string is merged into it. -/
def push (nodes : MessageContent) : MessageNode → MessageContent
  | .node (.text value) =>
    if value.length = 0 then nodes
    else
      match nodes.getLast? with
      | some (.node (.text last)) => nodes.dropLast ++ [.node (.text (last ++ value))]
      | _ => nodes ++ [.node (.text value)]
  | node => nodes ++ [node]

def pushPart (nodes : MessageContent) : MessagePart → MessageContent
  | .text value => push nodes (.node (.text value))
  | .content part => part.foldl push nodes
  | .node node => push nodes node

/-- Flatten parts into one content, merging adjacent strings and dropping empty ones. -/
def messageContent (parts : List MessagePart) : MessageContent := parts.foldl pushPart []

def asContent : MessagePart → MessageContent
  | .content nodes => nodes
  | part => messageContent [part]

/-- `parts` joined by `separator`. -/
def joinMessage (parts : List MessagePart) (separator : JsString) : MessageContent :=
  messageContent (parts.intersperse (.text separator))

end QuokyPlatform.Messages

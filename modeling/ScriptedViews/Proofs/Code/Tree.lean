import ScriptedViews.Code.Generate
import ScriptedViews.Proofs.Code.Interpolation

set_option autoImplicit false

/-! # Tokens of a tree

The tokens that a tree of nodes comes down to, told without a builder: a node adds the same tokens
wherever it stands, and the content of a call is the code of its tokens and nothing else. The code
that is generated for a tree is the emission of these tokens. -/

namespace ScriptedViews.Code

/-! ## Tokens -/

/-- The tokens of output. -/
def outputTokens (text : String) : List Token :=
  (alternate text.toList).tokens

/-- The tokens of an attribute of markup. -/
def attributeTokens (a : Attribute) : List Token :=
  outputTokens " " ++ outputTokens a.name.render ++ outputTokens "=\"" ++ outputTokens a.value
    ++ outputTokens "\""

/-- The tokens of the start of a tag with its attributes. -/
def startTokens (tag : String) (attributes : List Attribute) : List Token :=
  outputTokens "<" ++ outputTokens tag ++ attributes.flatMap attributeTokens

/-- The tokens of the end of a tag. -/
def endTokens (tag : String) : List Token :=
  outputTokens "</" ++ outputTokens tag ++ outputTokens ">"

/-- The tokens of text. -/
def textTokens (content : String) : List Token :=
  let minified := Text.minify content
  if minified = "" then [] else outputTokens minified

/-- The source of the function that places content with some tokens. -/
def contentSource (ts : List Token) : String :=
  "function()\n" ++ emit ts ++ "end"

mutual

/-- The tokens of a node. -/
def nodeTokens (namespaces : NamespaceTable) (uri : String) : Node → Except CompileError (List Token)
  | .text content => .ok (textTokens content)
  | .element name attributes children =>
    match roleOf namespaces name with
    | .error e => .error e
    | .ok .markup =>
      let opening := startTokens name.render attributes
      if children.isEmpty then .ok (opening ++ outputTokens "/>")
      else (nodesTokens namespaces uri children).map fun ts =>
        opening ++ outputTokens ">" ++ ts ++ endTokens name.render
    | .ok .script =>
      .ok [.statement "\n", .statement (Node.textOfAll children), .statement "\n"]
    | .ok .group => nodesTokens namespaces uri children
    | .ok .childContent => .ok [.statement childContentStatement]
    | .ok (.invocation qualifier url) => (nodesTokens namespaces uri children).map fun ts =>
        [.statement (invocationStatement (Uri.anchor uri url) name.localName
          (callAttributes qualifier attributes) (contentSource ts))]

/-- The tokens of nodes in order. -/
def nodesTokens (namespaces : NamespaceTable) (uri : String) :
    List Node → Except CompileError (List Token)
  | [] => .ok []
  | n :: ns =>
    match nodeTokens namespaces uri n with
    | .error e => .error e
    | .ok ts => (nodesTokens namespaces uri ns).map (ts ++ ·)

end

/-- What a function makes of an outcome comes of what the outcome is. -/
theorem exists_of_map {ε α β : Type} {r : Except ε α} {f : α → β} {b : β} (h : r.map f = .ok b) :
    ∃ a, r = .ok a ∧ f a = b := by
  cases r with
  | error e => cases h
  | ok a => exact ⟨a, rfl, Except.ok.inj h⟩

/-- The tokens of nodes are those of the first and those of the others. -/
theorem exists_of_nodesTokens_cons {namespaces : NamespaceTable} {uri : String} {n : Node}
    {nodes : List Node} {ts : List Token} (h : nodesTokens namespaces uri (n :: nodes) = .ok ts) :
    ∃ us vs, nodeTokens namespaces uri n = .ok us ∧ nodesTokens namespaces uri nodes = .ok vs
      ∧ us ++ vs = ts := by
  rw [nodesTokens] at h
  cases hn : nodeTokens namespaces uri n with
  | error e => simp [hn] at h
  | ok us =>
    rw [hn] at h
    obtain ⟨vs, hvs, rfl⟩ := exists_of_map h
    exact ⟨us, vs, rfl, hvs, rfl⟩

/-! ## Emission around a statement -/

/-- A statement separates: what stands before it and after it is code of its own. -/
theorem emit_append_statement (ts us : List Token) (code : String) :
    emit (ts ++ .statement code :: us) = emit ts ++ code ++ emit us := by
  rw [← Builder.finish_tokens_new, Builder.tokens_append, Builder.tokens_cons,
    Builder.finish_tokens, ← Builder.finish_tokens_new ts]
  simp only [Builder.token, Builder.statement_eq, Builder.finish, Builder.flush_eq,
    emit_empty_literal]

/-! ## The builder -/

theorem Builder.output_eq (b : Builder) (text : String) :
    b.output text = b.tokens (outputTokens text) :=
  b.outputChars_eq text.toList

theorem Builder.markupAttribute_eq (b : Builder) (a : Attribute) :
    b.markupAttribute a = b.tokens (attributeTokens a) := by
  simp only [Builder.markupAttribute, attributeTokens, Builder.output_eq, Builder.tokens_append]

theorem Builder.foldl_markupAttribute_eq (b : Builder) (attributes : List Attribute) :
    attributes.foldl Builder.markupAttribute b = b.tokens (attributes.flatMap attributeTokens) := by
  induction attributes generalizing b with
  | nil => rfl
  | cons a attributes ih =>
    rw [List.foldl_cons, ih, List.flatMap_cons, Builder.tokens_append, Builder.markupAttribute_eq]

theorem Builder.startTag_eq (b : Builder) (tag : String) (attributes : List Attribute) :
    b.startTag tag attributes = b.tokens (startTokens tag attributes) := by
  simp only [Builder.startTag, startTokens, Builder.foldl_markupAttribute_eq, Builder.output_eq,
    Builder.tokens_append]

theorem Builder.text_eq (b : Builder) (content : String) :
    b.text content = b.tokens (textTokens content) := by
  unfold Builder.text textTokens
  by_cases h : Text.minify content = ""
  · simp [h]
  · simp only [h, if_false, Builder.output_eq]

/-- The content of a call, as the builder makes it, has the source that its tokens tell. -/
theorem Builder.finish_content (ts : List Token) :
    (((({} : Builder).statement "function()\n").tokens ts).statement "end").finish
      = contentSource ts := by
  have h : (((({} : Builder).statement "function()\n").tokens ts).statement "end")
      = ({} : Builder).tokens ([] ++ .statement "function()\n" :: (ts ++ [.statement "end"])) := by
    rw [List.nil_append, Builder.tokens_cons, Builder.tokens_append]
    rfl
  rw [h, Builder.finish_tokens_new, emit_append_statement, emit_append_statement, contentSource,
    emit, String.empty_append, String.append_empty, String.append_assoc]

mutual

/-- Generating appends the tokens of a node, whatever the builder holds. -/
theorem generateNode_eq (namespaces : NamespaceTable) (uri : String) (b : Builder) (n : Node) :
    generateNode namespaces uri b n = (nodeTokens namespaces uri n).map b.tokens := by
  cases n with
  | text content =>
    rw [generateNode, nodeTokens, Builder.text_eq]
    rfl
  | element name attributes children =>
    rw [generateNode, nodeTokens]
    cases hr : roleOf namespaces name with
    | error e => rfl
    | ok role =>
      cases role with
      | markup =>
        simp only
        by_cases hc : children.isEmpty
        · simp only [hc, if_true, Builder.startTag_eq, Builder.output_eq, Except.map,
            Builder.tokens_append]
        · simp only [hc, Bool.false_eq_true, if_false, generateNodes_eq]
          cases nodesTokens namespaces uri children with
          | error e => rfl
          | ok ts =>
            simp only [Except.map, bind, Except.bind, pure, Except.pure, Builder.startTag_eq,
              Builder.output_eq, endTokens, Builder.tokens_append]
      | script => rfl
      | group => exact generateNodes_eq namespaces uri b children
      | childContent => rfl
      | invocation qualifier url =>
        simp only [generateNodes_eq]
        cases nodesTokens namespaces uri children with
        | error e => rfl
        | ok ts =>
          simp only [Except.map, bind, Except.bind, pure, Except.pure, Builder.finish_content]
          rfl

/-- Generating appends the tokens of some nodes, whatever the builder holds. -/
theorem generateNodes_eq (namespaces : NamespaceTable) (uri : String) (b : Builder)
    (ns : List Node) :
    generateNodes namespaces uri b ns = (nodesTokens namespaces uri ns).map b.tokens := by
  cases ns with
  | nil => rfl
  | cons n ns =>
    rw [generateNodes, nodesTokens, generateNode_eq]
    cases nodeTokens namespaces uri n with
    | error e => rfl
    | ok ts =>
      simp only [Except.map, bind, Except.bind, generateNodes_eq]
      cases nodesTokens namespaces uri ns with
      | error e => rfl
      | ok us => simp only [Builder.tokens_append]

end

/-- The code of a view is the emission of the tokens of its root. -/
theorem generate_eq (root : Element) (namespaces : NamespaceTable) (uri : String) :
    generate root namespaces uri = (nodeTokens namespaces uri root.toNode).map emit := by
  rw [generate, generateNode_eq]
  cases nodeTokens namespaces uri root.toNode with
  | error e => rfl
  | ok ts => simp only [Except.map, Builder.finish_tokens_new]

/-- The code that a new builder makes of some nodes is the emission of their tokens. -/
theorem generateNodes_finish (namespaces : NamespaceTable) (uri : String) (ns : List Node) :
    (generateNodes namespaces uri {} ns).map Builder.finish
      = (nodesTokens namespaces uri ns).map emit := by
  rw [generateNodes_eq]
  cases nodesTokens namespaces uri ns with
  | error e => rfl
  | ok ts => simp only [Except.map, Builder.finish_tokens_new]

end ScriptedViews.Code

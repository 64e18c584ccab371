import ScriptedViews.Proofs.Code.Tree
import ScriptedViews.Proofs.Render.Expansion

set_option autoImplicit false

/-! # Statements of plain views

The code of a view without expressions and script is a list of three kinds of statements: prints of
text, the place of the caller's content, and calls. What the statements stand for, one after the
other, is what the nodes stand for. -/

namespace ScriptedViews.Code

open Expansion (expandNode expandNodes IsPlainNode ArePlainNodes IsPlainAttribute)

/-- A statement of the code of a plain view. -/
inductive Directive where
  | print (text : String)
  /-- The caller's content goes here. -/
  | place
  /-- A call of a view, with the element's children and the source of the function that places
      them. -/
  | call (base tag : String) (children : List Node) (content : String)

namespace Directive

/-- The table of attributes of a call that passes none. -/
def noAttributes : String :=
  "(function() local map = \x7b\x7d return map end)()"

/-- The code of a statement. -/
def source : Directive → String
  | .print text => printStatement (literal text)
  | .place => childContentStatement
  | .call base tag _ content => invocationStatement base tag noAttributes content

/-- The code of some statements. -/
def sources : List Directive → String
  | [] => ""
  | d :: ds => d.source ++ sources ds

/-- The statement as a token. -/
def token : Directive → Token
  | .print text => .literal text
  | d => .statement d.source

/-- What a statement stands for. -/
def expand (call : String → String → List Node → Option String) (placed : Option String) :
    Directive → Option String
  | .print text => some text
  | .place => placed
  | .call base tag children _ => call base tag children

/-- What statements stand for, one after the other. -/
def expandAll (call : String → String → List Node → Option String) (placed : Option String) :
    List Directive → Option String
  | [] => some ""
  | d :: ds => do
    let first ← d.expand call placed
    let rest ← expandAll call placed ds
    return first ++ rest

theorem expandAll_append (call : String → String → List Node → Option String)
    (placed : Option String) (ds es : List Directive) :
    expandAll call placed (ds ++ es)
      = (expandAll call placed ds).bind fun a =>
          (expandAll call placed es).map fun b => a ++ b := by
  induction ds with
  | nil =>
    cases h : expandAll call placed es <;> simp [expandAll, h]
  | cons d ds ih =>
    rw [List.cons_append, expandAll, expandAll, ih]
    cases d.expand call placed <;> cases expandAll call placed ds <;>
      cases expandAll call placed es <;> simp [String.append_assoc]

/-! ## Prints that follow each other -/

/-- The print of some text, unless it is empty. -/
def printOf (text : String) : List Directive :=
  if text = "" then [] else [.print text]

/-- The statements with neighbouring prints made one, after some text that waits to be printed. -/
def joined : String → List Directive → List Directive
  | pending, [] => printOf pending
  | pending, .print text :: ds => joined (pending ++ text) ds
  | pending, d :: ds => printOf pending ++ d :: joined "" ds

theorem sources_append (ds es : List Directive) : sources (ds ++ es) = sources ds ++ sources es := by
  induction ds with
  | nil => rw [List.nil_append, sources, String.empty_append]
  | cons d ds ih => rw [List.cons_append, sources, sources, ih, String.append_assoc]

theorem sources_printOf (text : String) : sources (printOf text) = printText text := by
  unfold printOf printText
  split
  · rfl
  · rw [sources, sources, String.append_empty, source]

/-- Emission makes one print of neighbouring prints. -/
theorem emit_map_token (pending : String) (ds : List Directive) :
    emit (.literal pending :: ds.map token) = sources (joined pending ds) := by
  induction ds generalizing pending with
  | nil => rw [List.map_nil, emit_literal_nil, joined, sources_printOf]
  | cons d ds ih =>
    cases d with
    | print text => rw [List.map_cons, token, emit_literal_literal, ih, joined]
    | place =>
      rw [List.map_cons, token, emit_literal_statement, ← emit_empty_literal, ih, joined,
        sources_append, sources_printOf, sources, String.append_assoc]
      all_goals simp
    | call base tag children content =>
      rw [List.map_cons, token, emit_literal_statement, ← emit_empty_literal, ih, joined,
        sources_append, sources_printOf, sources, String.append_assoc]
      all_goals simp

theorem expandAll_printOf (call : String → String → List Node → Option String)
    (placed : Option String) (text : String) : expandAll call placed (printOf text) = some text := by
  unfold printOf
  split
  · rw [expandAll, ‹text = ""›]
  · simp [expandAll, expand]

/-- Joining prints does not change what is printed. -/
theorem expandAll_joined (call : String → String → List Node → Option String)
    (placed : Option String) (pending : String) (ds : List Directive) :
    expandAll call placed (joined pending ds)
      = (expandAll call placed ds).map fun text => pending ++ text := by
  induction ds generalizing pending with
  | nil => simp [joined, expandAll_printOf, expandAll]
  | cons d ds ih =>
    cases d with
    | print text =>
      rw [joined, ih, expandAll]
      cases expandAll call placed ds <;> simp [expand, String.append_assoc]
    | place =>
      rw [joined, expandAll_append, expandAll_printOf, expandAll, expandAll, ih]
      · cases expand call placed .place <;> cases expandAll call placed ds <;> simp
      · simp
    | call base tag children content =>
      rw [joined, expandAll_append, expandAll_printOf, expandAll, expandAll, ih]
      · cases expand call placed (.call base tag children content) <;>
          cases expandAll call placed ds <;> simp
      · simp

end Directive

/-! ## Statements of nodes -/

/-- The prints of the start of a tag. -/
def startDirectives (tag : String) (attributes : List Attribute) : List Directive :=
  [.print "<", .print tag] ++ attributes.flatMap fun a =>
    [.print " ", .print a.name.render, .print "=\"", .print a.value, .print "\""]

mutual

/-- The statements of a node of a plain view. -/
def nodeDirectives (namespaces : NamespaceTable) (uri : String) : Node → List Directive
  | .text content =>
    let minified := Text.minify content
    if minified = "" then [] else [.print minified]
  | .element name attributes children =>
    match roleOf namespaces name with
    | .ok .markup =>
      let opening := startDirectives name.render attributes
      if children.isEmpty then opening ++ [.print "/>"]
      else opening ++ [.print ">"] ++ nodesDirectives namespaces uri children
        ++ [.print "</", .print name.render, .print ">"]
    | .ok .group => nodesDirectives namespaces uri children
    | .ok .childContent => [.place]
    | .ok (.invocation _ url) =>
      let content := (nodesDirectives namespaces uri children).map Directive.token
      [.call (Uri.anchor uri url) name.localName children (contentSource content)]
    | _ => []

/-- The statements of nodes of a plain view. -/
def nodesDirectives (namespaces : NamespaceTable) (uri : String) : List Node → List Directive
  | [] => []
  | n :: ns => nodeDirectives namespaces uri n ++ nodesDirectives namespaces uri ns

end

theorem outputTokens_of_not_hasExpression {text : String} (h : ¬ HasExpression text.toList) :
    outputTokens text = [.literal text] := by
  rw [outputTokens, alternate_of_not_hasExpression h]
  simp [Alternation.tokens]

/-- A text without a dollar sign has no expression. -/
theorem not_hasExpression_of_not_mem {cs : List Char} (h : '$' ∉ cs) : ¬ HasExpression cs := by
  rintro ⟨a, b, c, rfl⟩
  exact h (by simp [openMark])

theorem startTokens_eq {tag : String} {attributes : List Attribute}
    (htag : ¬ HasExpression tag.toList) (h : ∀ a ∈ attributes, IsPlainAttribute a) :
    startTokens tag attributes = (startDirectives tag attributes).map Directive.token := by
  have hlit (t : String) (ht : '$' ∉ t.toList) : outputTokens t = [.literal t] :=
    outputTokens_of_not_hasExpression (not_hasExpression_of_not_mem ht)
  have hattributes : attributes.flatMap attributeTokens
      = (attributes.flatMap fun a => [.print " ", .print a.name.render, .print "=\"",
          .print a.value, .print "\""]).map Directive.token := by
    induction attributes with
    | nil => rfl
    | cons a rest ih =>
      obtain ⟨hname, hvalue⟩ := h a List.mem_cons_self
      rw [List.flatMap_cons, List.flatMap_cons, List.map_append,
        ih fun b hb => h b (List.mem_cons_of_mem a hb), attributeTokens,
        outputTokens_of_not_hasExpression hname, outputTokens_of_not_hasExpression hvalue,
        hlit " " (by decide), hlit "=\"" (by decide), hlit "\"" (by decide)]
      rfl
  rw [startTokens, startDirectives, List.map_append, hattributes,
    outputTokens_of_not_hasExpression htag, hlit "<" (by decide)]
  rfl

theorem passAttributes_of_not_isPassed {qualifier : String} {attributes : List Attribute}
    (h : ∀ a ∈ attributes, isPassed qualifier a = false) (i : Nat) :
    passAttributes qualifier i attributes = "" := by
  induction attributes generalizing i with
  | nil => rfl
  | cons a rest ih =>
    rw [passAttributes, h a List.mem_cons_self, ih fun b hb => h b (List.mem_cons_of_mem a hb)]
    rfl

theorem callAttributes_of_not_isPassed {qualifier : String} {attributes : List Attribute}
    (h : ∀ a ∈ attributes, isPassed qualifier a = false) :
    callAttributes qualifier attributes = Directive.noAttributes := by
  unfold callAttributes Directive.noAttributes
  rw [passAttributes_of_not_isPassed h]
  simp only [String.append_empty, String.reduceAppend]

mutual

/-- The tokens of a plain node are those of its statements. -/
theorem nodeTokens_of_isPlainNode (namespaces : NamespaceTable) (uri : String) (inContent : Bool)
    (n : Node) (h : IsPlainNode namespaces inContent n) :
    nodeTokens namespaces uri n = .ok ((nodeDirectives namespaces uri n).map Directive.token) := by
  cases n with
  | text content =>
    rw [IsPlainNode] at h
    rw [nodeTokens, nodeDirectives, textTokens]
    by_cases hm : Text.minify content = ""
    · simp [hm]
    · simp only [hm, if_false, outputTokens_of_not_hasExpression h]
      rfl
  | element name attributes children =>
    rw [IsPlainNode] at h
    rw [nodeTokens, nodeDirectives]
    cases hr : roleOf namespaces name with
    | error e => simp [hr] at h
    | ok role =>
      cases role with
      | markup =>
        simp only [hr] at h
        obtain ⟨hname, hattributes, hchildren⟩ := h
        have hlit (t : String) (ht : '$' ∉ t.toList) : outputTokens t = [.literal t] :=
          outputTokens_of_not_hasExpression (not_hasExpression_of_not_mem ht)
        by_cases hc : children.isEmpty
        · simp only [hc, if_true, startTokens_eq hname hattributes, hlit "/>" (by decide),
            List.map_append]
          rfl
        · simp only [hc, Bool.false_eq_true, if_false, startTokens_eq hname hattributes,
            nodesTokens_of_arePlainNodes namespaces uri inContent children hchildren, Except.map,
            endTokens, hlit ">" (by decide), hlit "</" (by decide),
            outputTokens_of_not_hasExpression hname, List.map_append]
          rfl
      | script => simp [hr] at h
      | group =>
        simp only [hr] at h
        exact nodesTokens_of_arePlainNodes namespaces uri inContent children h
      | childContent => rfl
      | invocation qualifier url =>
        simp only [hr] at h
        simp only [nodesTokens_of_arePlainNodes namespaces uri true children h.2, Except.map,
          callAttributes_of_not_isPassed h.1]
        rfl

/-- The tokens of plain nodes are those of their statements. -/
theorem nodesTokens_of_arePlainNodes (namespaces : NamespaceTable) (uri : String)
    (inContent : Bool) (ns : List Node) (h : ArePlainNodes namespaces inContent ns) :
    nodesTokens namespaces uri ns
      = .ok ((nodesDirectives namespaces uri ns).map Directive.token) := by
  cases ns with
  | nil => rfl
  | cons n ns =>
    rw [ArePlainNodes] at h
    rw [nodesTokens, nodesDirectives, nodeTokens_of_isPlainNode namespaces uri inContent n h.1,
      nodesTokens_of_arePlainNodes namespaces uri inContent ns h.2, List.map_append]
    rfl

end

/-! ## What nodes stand for -/

open Directive (expandAll)

theorem expandAll_print_cons (call : String → String → List Node → Option String)
    (placed : Option String) (text : String) (ds : List Directive) :
    expandAll call placed (.print text :: ds)
      = (expandAll call placed ds).map fun rest => text ++ rest := by
  rw [expandAll]
  cases expandAll call placed ds <;> rfl

theorem expandAll_startDirectives (call : String → String → List Node → Option String)
    (placed : Option String) (tag : String) (attributes : List Attribute) :
    expandAll call placed (startDirectives tag attributes)
      = some (Expansion.startText tag attributes) := by
  have h : expandAll call placed (attributes.flatMap fun a =>
      [.print " ", .print a.name.render, .print "=\"", .print a.value, .print "\""])
        = some (Expansion.attributesText attributes) := by
    induction attributes with
    | nil => rfl
    | cons a rest ih =>
      simp only [List.flatMap_cons, List.cons_append, List.nil_append, expandAll_print_cons, ih,
        Option.map_some, Expansion.attributesText, String.append_assoc]
  simp only [startDirectives, List.cons_append, List.nil_append, expandAll_print_cons, h,
    Option.map_some, Expansion.startText, String.append_assoc]

mutual

/-- A plain node stands for what its statements stand for. -/
theorem expandNode_eq (v : View) (call : String → String → List Node → Option String)
    (placed : Option String) (inContent : Bool) (n : Node)
    (h : IsPlainNode v.namespaces inContent n) :
    expandNode v call placed n = expandAll call placed (nodeDirectives v.namespaces v.uri n) := by
  cases n with
  | text content =>
    rw [expandNode, nodeDirectives]
    by_cases hm : Text.minify content = ""
    · simp [hm, expandAll]
    · simp [hm, expandAll_print_cons, expandAll]
  | element name attributes children =>
    rw [IsPlainNode] at h
    rw [expandNode, nodeDirectives]
    cases hr : roleOf v.namespaces name with
    | error e => simp [hr] at h
    | ok role =>
      cases role with
      | markup =>
        simp only [hr] at h
        by_cases hc : children.isEmpty
        · simp [hc, Directive.expandAll_append, expandAll_startDirectives, expandAll,
            Directive.expand]
        · simp only [hc, Bool.false_eq_true, if_false, Directive.expandAll_append,
            expandAll_startDirectives, expandAll, Directive.expand,
            expandNodes_eq v call placed inContent children h.2.2]
          cases expandAll call placed (nodesDirectives v.namespaces v.uri children) <;>
            simp [String.append_assoc]
      | script => simp [hr] at h
      | group =>
        simp only [hr] at h
        exact expandNodes_eq v call placed inContent children h
      | childContent => simp [expandAll, Directive.expand]
      | invocation qualifier url => simp [expandAll, Directive.expand]

/-- Plain nodes stand for what their statements stand for. -/
theorem expandNodes_eq (v : View) (call : String → String → List Node → Option String)
    (placed : Option String) (inContent : Bool) (ns : List Node)
    (h : ArePlainNodes v.namespaces inContent ns) :
    expandNodes v call placed ns = expandAll call placed (nodesDirectives v.namespaces v.uri ns) := by
  cases ns with
  | nil => rfl
  | cons n ns =>
    rw [ArePlainNodes] at h
    rw [expandNodes, nodesDirectives, Directive.expandAll_append,
      expandNode_eq v call placed inContent n h.1, expandNodes_eq v call placed inContent ns h.2]
    cases expandAll call placed (nodeDirectives v.namespaces v.uri n) <;>
      cases expandAll call placed (nodesDirectives v.namespaces v.uri ns) <;> rfl

end

end ScriptedViews.Code

import ScriptedViews.Proofs.Code.Directives
import ScriptedViews.Proofs.Text.Minify
import ScriptedViews.Proofs.Xml.Tags

set_option autoImplicit false

/-! # Markup

Views of nothing but markup: elements without prefixes, and text without references and expressions.
The code of such a view is one print, of the text that is told here by recursion on the tree. -/

namespace ScriptedViews

open Code (HasExpression)
open Xml (isXmlChar)

/-! ## Markup -/

/-- Whether a name is a name of XML without a prefix and without blanks. -/
structure QName.IsUnprefixed (n : QName) : Prop where
  qualifier : n.qualifier = none
  localName : Xml.IsPartName n.localName.toList
  solid : ∀ c ∈ n.localName.toList, Text.isBlank c = false

/-- Whether an attribute is written back as it was read. -/
structure Attribute.IsMarkup (a : Attribute) : Prop where
  name : a.name.IsUnprefixed
  notXmlns : a.name.localName ≠ "xmlns"
  value : ∀ c ∈ a.value.toList, isXmlChar c ∧ c ∉ ['<', '&', '"', '\t', '\n', '\r']
  plain : ¬ HasExpression a.value.toList

/-- Whether a text is written back as it was read. -/
structure IsMarkupText (content : String) : Prop where
  blank : Text.isBlankText content = false
  chars : ∀ c ∈ content.toList, isXmlChar c ∧ c ∉ ['<', '&', '\r']
  open' : ¬ "]]>".toList <:+: content.toList
  plain : ¬ HasExpression content.toList

/-- Whether a node is text. -/
def Node.isText : Node → Bool
  | .text _ => true
  | .element .. => false

mutual

/-- Whether a node is markup without references, expressions and prefixes. -/
def Node.IsMarkup : Node → Prop
  | .text content => IsMarkupText content
  | .element name attributes children =>
    name.IsUnprefixed ∧ (∀ a ∈ attributes, a.IsMarkup) ∧ (attributes.map (·.name)).Nodup
      ∧ Node.AreMarkup children

/-- Whether some nodes are markup. No two texts stand next to each other. -/
def Node.AreMarkup : List Node → Prop
  | [] => True
  | n :: ns => n.IsMarkup ∧ Node.AreMarkup ns ∧ (n.isText → ns.head?.any Node.isText = false)

end

mutual

/-- A node with its texts minified. -/
def Node.minified : Node → Node
  | .text content => .text (Text.minify content)
  | .element name attributes children => .element name attributes (Node.minifiedAll children)

/-- Some nodes with their texts minified. -/
def Node.minifiedAll : List Node → List Node
  | [] => []
  | n :: ns => n.minified :: Node.minifiedAll ns

end

/-- An element with its texts minified. -/
def Element.minified (e : Element) : Element :=
  ⟨e.name, e.attributes, Node.minifiedAll e.children⟩

theorem Element.toNode_minified (e : Element) : e.minified.toNode = e.toNode.minified := by
  rw [Element.toNode, Element.toNode, Node.minified]
  rfl

theorem Element.toNode_injective {a b : Element} (h : a.toNode = b.toNode) : a = b := by
  obtain ⟨name, attributes, children⟩ := a
  cases h
  rfl

/-! ## The text of markup -/

mutual

/-- The text that markup prints. -/
def Node.markup : Node → String
  | .text content => Text.minify content
  | .element name attributes children =>
    Expansion.startText name.render attributes
      ++ if children.isEmpty then "/>"
        else ">" ++ Node.markupAll children ++ "</" ++ name.render ++ ">"

/-- The text that markup prints, one node after the other. -/
def Node.markupAll : List Node → String
  | [] => ""
  | n :: ns => n.markup ++ Node.markupAll ns

end

namespace Code

/-- Whether some statements print a text and do nothing else. -/
def ArePrints (ds : List Directive) (text : String) : Prop :=
  ∃ texts : List String, ds = texts.map .print ∧ text = String.join texts

theorem ArePrints.nil : ArePrints [] "" :=
  ⟨[], rfl, rfl⟩

theorem ArePrints.cons {ds : List Directive} {text : String} (first : String)
    (h : ArePrints ds text) : ArePrints (.print first :: ds) (first ++ text) := by
  obtain ⟨texts, rfl, rfl⟩ := h
  exact ⟨first :: texts, rfl, by rw [String.join_cons]⟩

theorem ArePrints.append {ds es : List Directive} {a b : String} (ha : ArePrints ds a)
    (hb : ArePrints es b) : ArePrints (ds ++ es) (a ++ b) := by
  obtain ⟨texts, rfl, rfl⟩ := ha
  induction texts with
  | nil => simpa using hb
  | cons first texts ih =>
    rw [List.map_cons, List.cons_append, String.join_cons, String.append_assoc]
    exact ih.cons first

theorem ArePrints.joined {ds : List Directive} {text : String} (h : ArePrints ds text)
    (pending : String) : Directive.joined pending ds = Directive.printOf (pending ++ text) := by
  obtain ⟨texts, rfl, rfl⟩ := h
  induction texts generalizing pending with
  | nil => simp [Directive.joined]
  | cons first texts ih =>
    rw [List.map_cons, Directive.joined, ih, String.join_cons, String.append_assoc]

theorem arePrints_startDirectives (tag : String) (attributes : List Attribute) :
    ArePrints (startDirectives tag attributes) (Expansion.startText tag attributes) := by
  have hattributes : ArePrints (attributes.flatMap fun a =>
      [.print " ", .print a.name.render, .print "=\"", .print a.value, .print "\""])
      (Expansion.attributesText attributes) := by
    induction attributes with
    | nil => exact .nil
    | cons a rest ih =>
      rw [List.flatMap_cons, Expansion.attributesText]
      simp only [String.append_assoc]
      exact ((((ih.cons "\"").cons a.value).cons "=\"").cons a.name.render).cons " "
  rw [startDirectives, Expansion.startText, String.append_assoc]
  exact (hattributes.cons tag).cons "<"

theorem roleOf_of_isUnprefixed {name : QName} (h : name.IsUnprefixed)
    (namespaces : NamespaceTable) : roleOf namespaces name = .ok .markup := by
  rw [roleOf, h.qualifier]

mutual

/-- Markup is printed. -/
theorem arePrints_node (namespaces : NamespaceTable) (uri : String) (n : Node) (h : n.IsMarkup) :
    ArePrints (nodeDirectives namespaces uri n) n.markup := by
  cases n with
  | text content =>
    rw [nodeDirectives, Node.markup]
    by_cases hminified : Text.minify content = ""
    · rw [hminified]
      exact .nil
    · simp only [hminified, if_false]
      simpa using ArePrints.nil.cons (Text.minify content)
  | element name attributes children =>
    rw [Node.IsMarkup] at h
    have hstart := arePrints_startDirectives name.render attributes
    rw [nodeDirectives, roleOf_of_isUnprefixed h.1, Node.markup]
    by_cases hchildren : children.isEmpty
    · simp only [hchildren, if_true]
      refine hstart.append ?_
      simpa using ArePrints.nil.cons "/>"
    · simp only [hchildren, Bool.false_eq_true, if_false]
      have hcontent := arePrints_nodes namespaces uri children h.2.2.2
      have hend : ArePrints [.print "</", .print name.render, .print ">"]
          ("</" ++ name.render ++ ">") := by
        rw [String.append_assoc]
        simpa using ((ArePrints.nil.cons ">").cons name.render).cons "</"
      have hall := hstart.append ((hcontent.append hend).cons ">")
      simpa [String.append_assoc] using hall

/-- Markup is printed one node after the other. -/
theorem arePrints_nodes (namespaces : NamespaceTable) (uri : String) (ns : List Node)
    (h : Node.AreMarkup ns) :
    ArePrints (nodesDirectives namespaces uri ns) (Node.markupAll ns) := by
  cases ns with
  | nil => exact .nil
  | cons n ns =>
    rw [Node.AreMarkup] at h
    rw [nodesDirectives, Node.markupAll]
    exact (arePrints_node namespaces uri n h.1).append (arePrints_nodes namespaces uri ns h.2.1)

end

/-! ## Markup without expressions -/

theorem not_hasExpression_render {name : QName} (h : name.IsUnprefixed) :
    ¬ HasExpression name.render.toList := by
  have hrender : name.render = name.localName := by
    rw [QName.render, h.qualifier]
  rw [hrender]
  exact not_hasExpression_of_not_mem (h.localName.not_mem (by decide))

theorem not_mem_of_isMarkupText {content : String} (h : IsMarkupText content) {c : Char}
    (hc : c ∈ ['<', '&', '\r']) : c ∉ content.toList :=
  fun hmem => (h.chars c hmem).2 hc

mutual

theorem isPlainNode_of_isMarkup (namespaces : NamespaceTable) (inContent : Bool) (n : Node)
    (h : n.IsMarkup) : Expansion.IsPlainNode namespaces inContent n := by
  cases n with
  | text content =>
    rw [Node.IsMarkup] at h
    rw [Expansion.IsPlainNode]
    have hreturn : '\r' ∉ content.toList := not_mem_of_isMarkupText h (by simp)
    exact fun hexpression => h.plain ((Text.within_minify hreturn).expression hexpression)
  | element name attributes children =>
    rw [Node.IsMarkup] at h
    rw [Expansion.IsPlainNode, roleOf_of_isUnprefixed h.1]
    exact ⟨not_hasExpression_render h.1,
      fun a ha => ⟨not_hasExpression_render (h.2.1 a ha).name, (h.2.1 a ha).plain⟩,
      arePlainNodes_of_areMarkup namespaces inContent children h.2.2.2⟩

theorem arePlainNodes_of_areMarkup (namespaces : NamespaceTable) (inContent : Bool)
    (ns : List Node) (h : Node.AreMarkup ns) :
    Expansion.ArePlainNodes namespaces inContent ns := by
  cases ns with
  | nil => trivial
  | cons n ns =>
    rw [Node.AreMarkup] at h
    exact ⟨isPlainNode_of_isMarkup namespaces inContent n h.1,
      arePlainNodes_of_areMarkup namespaces inContent ns h.2.1⟩

end

/-- The code of markup is the print of its text. -/
theorem generate_of_isMarkup {root : Element} (h : root.toNode.IsMarkup)
    (namespaces : NamespaceTable) (uri : String) :
    generate root namespaces uri
      = .ok (Directive.sources (Directive.printOf root.toNode.markup)) := by
  have hplain := isPlainNode_of_isMarkup namespaces false root.toNode h
  have hprints := arePrints_node namespaces uri root.toNode h
  rw [generate_eq, nodeTokens_of_isPlainNode namespaces uri false _ hplain]
  have hemit := Directive.emit_map_token "" (nodeDirectives namespaces uri root.toNode)
  rw [emit_empty_literal, hprints.joined, String.empty_append] at hemit
  rw [← hemit]
  rfl

end Code

end ScriptedViews

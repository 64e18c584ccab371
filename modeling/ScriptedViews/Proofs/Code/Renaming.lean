import ScriptedViews.Proofs.Code.Roles
import ScriptedViews.Proofs.Code.Tree
import ScriptedViews.Proofs.Document.Renaming

set_option autoImplicit false

/-! # Code under other qualifiers

Qualifiers leave no trace in code: a tree and a table whose qualifiers are renamed become the code
that they became before, and where there is none the error names the same tag in its new form. Only
markup shows how its attributes are written, so there they have to be plain. -/

namespace ScriptedViews

open Code (CompileError Role roleOf nodeTokens nodesTokens)
open Vocabulary (sameName)

namespace Renaming

variable (r : Renaming)

/-! ## Trees -/

/-- A name with its qualifier renamed. -/
def name (n : QName) : QName :=
  { n with qualifier := n.qualifier.map r.qualifier }

/-- An attribute with the qualifier of its name renamed. -/
def attributeOf (a : Attribute) : Attribute :=
  { a with name := r.name a.name }

mutual

/-- A node with all qualifiers renamed. -/
def node : Node → Node
  | .text content => .text content
  | .element name attributes children =>
    .element (r.name name) (attributes.map r.attributeOf) (nodes children)

/-- Nodes with all qualifiers renamed. -/
def nodes : List Node → List Node
  | [] => []
  | n :: ns => node n :: nodes ns

end

/-- A root with all qualifiers renamed. -/
def element (e : Element) : Element :=
  { name := r.name e.name
    attributes := e.attributes.map r.attributeOf
    children := r.nodes e.children }

/-- An error about the renamed tag. -/
def error : CompileError → CompileError
  | .unknownTag tag => .unknownTag (r.name (QName.parse tag)).render

end Renaming

mutual

/-- Whether the names of elements in a node are qualified with what can be a qualifier, and markup
    has plain attributes. -/
def Node.IsQualified : Node → Prop
  | .text _ => True
  | .element name attributes children =>
    (∀ q, name.qualifier = some q → IsQualifier q)
      ∧ (name.qualifier = none → ∀ a ∈ attributes, a.name.qualifier = none)
      ∧ Node.AreQualified children

/-- Whether all of some nodes are qualified so. -/
def Node.AreQualified : List Node → Prop
  | [] => True
  | n :: ns => n.IsQualified ∧ Node.AreQualified ns

end

namespace Renaming

variable (r : Renaming) {namespaces : NamespaceTable} {uri : String}

theorem isEmpty_nodes (ns : List Node) : (r.nodes ns).isEmpty = ns.isEmpty := by
  cases ns <;> rfl

mutual

theorem textContent_node (n : Node) : (r.node n).textContent = n.textContent := by
  cases n with
  | text content => rfl
  | element name attributes children => exact textOfAll_nodes children

theorem textOfAll_nodes (ns : List Node) : Node.textOfAll (r.nodes ns) = Node.textOfAll ns := by
  cases ns with
  | nil => rfl
  | cons n ns => rw [nodes, Node.textOfAll, Node.textOfAll, textContent_node n, textOfAll_nodes ns]

end

theorem name_of_none {n : QName} (h : n.qualifier = none) : r.name n = n := by
  obtain ⟨qualifier, localName⟩ := n
  cases h
  rfl

theorem map_attributeOf_of_none {as : List Attribute} (h : ∀ a ∈ as, a.name.qualifier = none) :
    as.map r.attributeOf = as := by
  refine (List.map_congr_left fun a ha => ?_).trans (List.map_id as)
  rw [attributeOf, r.name_of_none (h a ha)]
  rfl

/-! ## Roles -/

/-- The role of a renamed element. -/
def role : Role → Role
  | .invocation q url => .invocation (r.qualifier q) url
  | role => role

theorem error_unknownTag {n : QName} (h : ∀ q, n.qualifier = some q → IsQualifier q)
    (hq : n.qualifier ≠ none) :
    r.error (.unknownTag n.render) = .unknownTag (r.name n).render := by
  obtain ⟨qualifier, localName⟩ := n
  obtain ⟨q, rfl⟩ := Option.ne_none_iff_exists'.1 hq
  rw [error, QName.parse_render (h q rfl)]

theorem roleOf_name {n : QName} (h : ∀ q, n.qualifier = some q → IsQualifier q) :
    roleOf (r.table namespaces) (r.name n)
      = ((roleOf namespaces n).map r.role).mapError r.error := by
  have herror := r.error_unknownTag h
  cases hq : n.qualifier with
  | none =>
    have hname := r.name_of_none hq
    simp [roleOf, hname, hq, Except.map, Except.mapError, role]
  | some q =>
    have herror : r.error (.unknownTag n.render) = .unknownTag (r.name n).render :=
      herror (by simp [hq])
    have hqualifier : (r.name n).qualifier = some (r.qualifier q) := by simp [name, hq]
    have hlocal : (r.name n).localName = n.localName := rfl
    simp only [roleOf, hqualifier, hq, r.get?_table, hlocal, ← herror]
    cases namespaces.get? q with
    | none => rfl
    | some ns =>
      simp only
      split
      · split
        · rfl
        split
        · rfl
        split <;> rfl
      · cases ns.url <;> rfl

/-! ## Attributes of a call -/

theorem isNamespaceDeclaration_name (n : QName) :
    (r.name n).isNamespaceDeclaration = n.isNamespaceDeclaration := by
  obtain ⟨qualifier, localName⟩ := n
  cases qualifier with
  | none => rfl
  | some q =>
    have h := r.beq_qualifier (p := q) (q := Vocabulary.xmlnsPrefix)
    rw [r.qualifier_xmlns] at h
    exact h

theorem isPassed_attributeOf (q : String) (a : Attribute) :
    Code.isPassed (r.qualifier q) (r.attributeOf a) = Code.isPassed q a := by
  have hname : (r.attributeOf a).name = r.name a.name := rfl
  have hgetD : (r.name a.name).qualifier.getD (r.qualifier q)
      = r.qualifier (a.name.qualifier.getD q) := by
    simp only [name]
    cases a.name.qualifier <;> rfl
  rw [Code.isPassed, Code.isPassed, hname, isNamespaceDeclaration_name, hgetD, sameName_qualifier]

/-- An attribute is handed on under its local name. -/
theorem passAttribute_congr (i : Nat) {a b : Attribute} (hvalue : a.value = b.value)
    (hlocal : a.name.localName = b.name.localName) :
    Code.passAttribute i a = Code.passAttribute i b := by
  unfold Code.passAttribute
  rw [hvalue, hlocal]

theorem callAttributes_map (q : String) (as : List Attribute) :
    Code.callAttributes (r.qualifier q) (as.map r.attributeOf) = Code.callAttributes q as := by
  have hpass (i : Nat) : Code.passAttributes (r.qualifier q) i (as.map r.attributeOf)
      = Code.passAttributes q i as := by
    induction as generalizing i with
    | nil => rfl
    | cons a as ih =>
      have hpassed : Code.passAttribute i (r.attributeOf a) = Code.passAttribute i a :=
        passAttribute_congr i rfl rfl
      rw [List.map_cons, Code.passAttributes, Code.passAttributes, isPassed_attributeOf, hpassed,
        ih]
  unfold Code.callAttributes
  rw [hpass]

/-! ## Tokens -/

mutual

theorem nodeTokens_node {n : Node} (h : n.IsQualified) :
    nodeTokens (r.table namespaces) uri (r.node n)
      = (nodeTokens namespaces uri n).mapError r.error := by
  cases n with
  | text content => rfl
  | element name attributes children =>
    rw [Node.IsQualified] at h
    obtain ⟨hq, hplain, hchildren⟩ := h
    have htokens := nodesTokens_nodes hchildren
    rw [node, nodeTokens, nodeTokens, r.roleOf_name hq, htokens]
    cases hr : roleOf namespaces name with
    | error e => rfl
    | ok role =>
      cases role with
      | markup =>
        have hnone : name.qualifier = none := by
          have hrole := Code.hasRole_roleOf namespaces name
          rw [hr] at hrole
          cases hrole with
          | markup hq => exact hq
        rw [r.name_of_none hnone, r.map_attributeOf_of_none (hplain hnone)]
        simp only [Except.map, Except.mapError, Renaming.role, isEmpty_nodes]
        split
        · rfl
        · cases nodesTokens namespaces uri children <;> rfl
      | script =>
        rw [textOfAll_nodes]
        rfl
      | group => rfl
      | childContent => rfl
      | invocation q url =>
        simp only [Except.map, Except.mapError, Renaming.role, callAttributes_map]
        cases nodesTokens namespaces uri children <;> rfl

theorem nodesTokens_nodes {ns : List Node} (h : Node.AreQualified ns) :
    nodesTokens (r.table namespaces) uri (r.nodes ns)
      = (nodesTokens namespaces uri ns).mapError r.error := by
  cases ns with
  | nil => rfl
  | cons n ns =>
    rw [Node.AreQualified] at h
    rw [nodes, nodesTokens, nodesTokens, nodeTokens_node h.1, nodesTokens_nodes h.2]
    cases nodeTokens namespaces uri n with
    | error e => rfl
    | ok ts => cases nodesTokens namespaces uri ns <;> rfl

end

/-! ## Code -/

/-- The qualifiers of a view are of no account. With others in its tree and in the attributes of its
    root, the schema locations fail as they failed before, and else the view has the code that it
    had, or it has none because of the same tag, which now has its new name. -/
theorem generate_renamed {root : Element} (hroot : root.toNode.IsQualified)
    (attributes : List (String × String)) (uri : String) :
    (∀ e, NamespaceTable.resolve (r.attributes attributes) = .error e
        ↔ NamespaceTable.resolve attributes = .error e)
      ∧ ∀ namespaces namespaces', NamespaceTable.resolve attributes = .ok namespaces →
          NamespaceTable.resolve (r.attributes attributes) = .ok namespaces' →
        Code.generate (r.element root) namespaces' uri
          = (Code.generate root namespaces uri).mapError r.error := by
  rw [resolve_attributes]
  cases NamespaceTable.resolve attributes with
  | error e => exact ⟨fun _ => Iff.rfl, fun _ _ h => by cases h⟩
  | ok namespaces =>
    refine ⟨fun e => iff_of_false (by intro h; cases h) (by intro h; cases h), ?_⟩
    intro _ _ hold hnew
    cases hold
    cases hnew
    have htokens : nodeTokens (r.table namespaces) uri (r.element root).toNode
        = (nodeTokens namespaces uri root.toNode).mapError r.error := r.nodeTokens_node hroot
    rw [Code.generate_eq, Code.generate_eq, htokens]
    cases nodeTokens namespaces uri root.toNode <;> rfl

/-- A page with a call in markup, and a directive in the content of the call. -/
def exampleRoot : Element where
  name := ⟨none, "p"⟩
  attributes := [⟨⟨none, "id"⟩, "1"⟩]
  children := [.element ⟨some "c", "card"⟩ [⟨⟨some "C", "title"⟩, "1"⟩, ⟨⟨some "x", "note"⟩, "2"⟩]
    [.element ⟨some "x", "script"⟩ [] [.text "f()"], .element ⟨some "x", "print"⟩ [] []]]

/-- What the prefixes of the page mean. -/
def exampleAttributes : List (String × String) :=
  [("xmlns:x", "xview"), ("XMLNS:c", "/c/"), ("x:color", "red")]

/-- The table of the page. -/
def exampleTable : NamespaceTable :=
  [("x", { target := some "xview", url := some "xview", attributes := [("color", "red")] }),
    ("c", { target := some "/c/", url := some "/c/" })]

/-- The page with a letter in front of each qualifier. -/
theorem generate_renamed_example :
    exampleRoot.toNode.IsQualified
      ∧ NamespaceTable.resolve exampleAttributes = .ok exampleTable
      ∧ NamespaceTable.resolve (lengthened.attributes exampleAttributes)
        = .ok (lengthened.table exampleTable)
      ∧ Code.generate (lengthened.element exampleRoot) (lengthened.table exampleTable) "/page.xview"
        = (Code.generate exampleRoot exampleTable "/page.xview").mapError lengthened.error := by
  have hroot : exampleRoot.toNode.IsQualified := by
    have hc : IsQualifier "c" := by decide
    have hx : IsQualifier "x" := by decide
    simp [exampleRoot, Element.toNode, Node.IsQualified, Node.AreQualified, hc, hx]
  have hold : NamespaceTable.resolve exampleAttributes = .ok exampleTable := by rfl
  have hnew : NamespaceTable.resolve (lengthened.attributes exampleAttributes)
      = .ok (lengthened.table exampleTable) := by
    rw [resolve_attributes, hold]
    rfl
  exact ⟨hroot, hold, hnew,
    (lengthened.generate_renamed hroot exampleAttributes "/page.xview").2 _ _ hold hnew⟩

end Renaming

end ScriptedViews

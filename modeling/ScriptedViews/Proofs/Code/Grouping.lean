import ScriptedViews.Proofs.Code.Roles
import ScriptedViews.Proofs.Code.Tree

set_option autoImplicit false

/-! # Groups

A group may give way to its children wherever it stands: the children become the same code, or fail
in the same way, among its siblings as inside of it. Three things are made of nodes, their tokens,
their text and whether they are any at all, and nothing else is asked of the children of an element;
a group with children agrees with them in all three. -/

namespace ScriptedViews.Code

open Vocabulary (viewTag)

/-- Whether some nodes become others when one group with children, at any depth, gives way to its
    children. -/
inductive Ungroups (namespaces : NamespaceTable) : List Node → List Node → Prop where
  | here {name : QName} {attributes : List Attribute} {children : List Node}
      (before after : List Node) (hview : IsDirective namespaces name viewTag)
      (hne : children ≠ []) : Ungroups namespaces
        (before ++ .element name attributes children :: after) (before ++ children ++ after)
  | inside {name : QName} {attributes : List Attribute} {children children' : List Node}
      (before after : List Node) (h : Ungroups namespaces children children') :
      Ungroups namespaces (before ++ .element name attributes children :: after)
        (before ++ .element name attributes children' :: after)

/-! ## Nodes one after the other -/

section Tokens

variable (namespaces : NamespaceTable) (uri : String)

theorem nodesTokens_append (ns ms : List Node) : nodesTokens namespaces uri (ns ++ ms)
    = nodesTokens namespaces uri ns >>= fun ts =>
      (nodesTokens namespaces uri ms).map (ts ++ ·) := by
  induction ns with
  | nil =>
    cases h : nodesTokens namespaces uri ms with
    | error e => simp [nodesTokens, h, Except.map, bind, Except.bind]
    | ok us => simp [nodesTokens, h, Except.map, bind, Except.bind]
  | cons n ns ih =>
    rw [List.cons_append, nodesTokens, nodesTokens, ih]
    cases nodeTokens namespaces uri n with
    | error e => rfl
    | ok ts =>
      cases nodesTokens namespaces uri ns with
      | error e => rfl
      | ok us =>
        cases nodesTokens namespaces uri ms with
        | error e => rfl
        | ok vs => simp [Except.map, bind, Except.bind]

theorem nodesTokens_singleton (n : Node) :
    nodesTokens namespaces uri [n] = nodeTokens namespaces uri n := by
  rw [nodesTokens]
  cases nodeTokens namespaces uri n with
  | error e => rfl
  | ok ts => simp [nodesTokens, Except.map]

end Tokens

/-! ## Nodes that nothing tells apart -/

/-- Whether the same is made of two lists of nodes, whatever element they are the children of. -/
structure Agree (namespaces : NamespaceTable) (uri : String) (ns ms : List Node) : Prop where
  tokens : nodesTokens namespaces uri ns = nodesTokens namespaces uri ms
  text : Node.textOfAll ns = Node.textOfAll ms
  isEmpty : ns.isEmpty = ms.isEmpty

namespace Agree

variable {namespaces : NamespaceTable} {uri : String} {ns ms : List Node}

theorem among (h : Agree namespaces uri ns ms) (before after : List Node) :
    Agree namespaces uri (before ++ ns ++ after) (before ++ ms ++ after) where
  tokens := by simp only [nodesTokens_append, h.tokens]
  text := by simp only [Node.textOfAll_append, h.text]
  isEmpty := by
    have hnil : ns = [] ↔ ms = [] := by
      rw [← List.isEmpty_iff, h.isEmpty, List.isEmpty_iff]
    rw [Bool.eq_iff_iff]
    simp only [List.isEmpty_iff, List.append_eq_nil_iff, hnil]

/-- An element asks nothing else of its children. -/
theorem nodeTokens_eq (h : Agree namespaces uri ns ms) (name : QName)
    (attributes : List Attribute) : nodeTokens namespaces uri (.element name attributes ns)
      = nodeTokens namespaces uri (.element name attributes ms) := by
  rw [nodeTokens, nodeTokens, h.tokens, h.text, h.isEmpty]

theorem element (h : Agree namespaces uri ns ms) (name : QName) (attributes : List Attribute) :
    Agree namespaces uri [.element name attributes ns] [.element name attributes ms] where
  tokens := by rw [nodesTokens_singleton, nodesTokens_singleton, h.nodeTokens_eq]
  text := by simp only [Node.textOfAll, Node.textContent, h.text]
  isEmpty := rfl

theorem group {name : QName} (hview : IsDirective namespaces name viewTag) (hne : ns ≠ [])
    (attributes : List Attribute) : Agree namespaces uri [.element name attributes ns] ns where
  tokens := by rw [nodesTokens_singleton, nodeTokens, hview.roleOf_eq_group]
  text := by simp only [Node.textOfAll, Node.textContent, String.append_empty]
  isEmpty := (List.isEmpty_eq_false_iff.2 hne).symm

end Agree

theorem Ungroups.agree {namespaces : NamespaceTable} {ns ms : List Node}
    (h : Ungroups namespaces ns ms) (uri : String) : Agree namespaces uri ns ms := by
  induction h with
  | @here name attributes children before after hview hne =>
    rw [List.append_cons]
    exact (Agree.group hview hne attributes).among before after
  | @inside name attributes children children' before after _ ih =>
    rw [List.append_cons, List.append_cons before (.element name attributes children')]
    exact (ih.element name attributes).among before after

/-! ## Code without a group -/

/-- A view keeps its code, or its error, when a group below its root gives way to its children. -/
theorem generate_ungrouped {namespaces : NamespaceTable} {root : Element} {children : List Node}
    (h : Ungroups namespaces root.children children) (uri : String) :
    generate { root with children } namespaces uri = generate root namespaces uri := by
  rw [generate_eq, generate_eq]
  exact congrArg (Except.map emit) ((h.agree uri).nodeTokens_eq root.name root.attributes).symm

/-- The prefix `x` of directives, and `c` with views of its own. -/
def cardTable : NamespaceTable :=
  [("x", { target := some "xview" }), ("c", { target := some "/c/", url := some "/c/" })]

/-- A page that calls a view with some content. -/
def cardPage (content : List Node) : Element :=
  { name := ⟨none, "p"⟩, attributes := [], children := [.element ⟨some "c", "card"⟩ [] content] }

/-- A group in the content of a call gives way to a text and a tag. -/
theorem generate_ungrouped_card :
    Ungroups cardTable
        (cardPage [.text "a", .element ⟨some "x", "View"⟩ [⟨⟨none, "id"⟩, "1"⟩]
          [.text "b", .element ⟨none, "br"⟩ [] []], .text "c"]).children
        (cardPage [.text "a", .text "b", .element ⟨none, "br"⟩ [] [], .text "c"]).children
      ∧ generate (cardPage [.text "a", .text "b", .element ⟨none, "br"⟩ [] [], .text "c"]) cardTable
          "/page.xview"
        = generate (cardPage [.text "a", .element ⟨some "x", "View"⟩ [⟨⟨none, "id"⟩, "1"⟩]
          [.text "b", .element ⟨none, "br"⟩ [] []], .text "c"]) cardTable "/page.xview" := by
  have hview : IsDirective cardTable ⟨some "x", "View"⟩ viewTag :=
    ⟨{ target := some "xview" }, ⟨"x", rfl, by decide⟩, by decide, by decide⟩
  have h : Ungroups cardTable
      (cardPage [.text "a", .element ⟨some "x", "View"⟩ [⟨⟨none, "id"⟩, "1"⟩]
        [.text "b", .element ⟨none, "br"⟩ [] []], .text "c"]).children
      (cardPage [.text "a", .text "b", .element ⟨none, "br"⟩ [] [], .text "c"]).children :=
    .inside [] [] (.here [.text "a"] [.text "c"] hview (by simp))
  exact ⟨h, generate_ungrouped h "/page.xview"⟩

end ScriptedViews.Code

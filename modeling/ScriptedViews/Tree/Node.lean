import ScriptedViews.Tree.QName

set_option autoImplicit false

/-! # Element trees

The tree that a view is read into: elements with their attributes as written, namespace
declarations among them, and the text between them. -/

namespace ScriptedViews

/-- An attribute as written. -/
structure Attribute where
  name : QName
  value : String
deriving DecidableEq, Repr, Inhabited

/-- A node of a view: text, or an element with its attributes and children. -/
inductive Node where
  | text (content : String)
  | element (name : QName) (attributes : List Attribute) (children : List Node)
deriving Repr, Inhabited

/-- An element on its own, such as the root of a view. -/
structure Element where
  name : QName
  attributes : List Attribute
  children : List Node
deriving Repr, Inhabited

namespace Element

/-- The element as a node of a tree. -/
def toNode (e : Element) : Node :=
  .element e.name e.attributes e.children

/-- The value of the first attribute with the written name. -/
def attribute? (e : Element) (written : String) : Option String :=
  (e.attributes.find? fun a => a.name = QName.parse written).map (·.value)

/-- Whether the element has any child. -/
def hasChildren (e : Element) : Bool :=
  !e.children.isEmpty

end Element

mutual

/-- All text in a node, in document order. -/
def Node.textContent : Node → String
  | .text content => content
  | .element _ _ children => Node.textOfAll children

/-- All text in a list of nodes, in document order. -/
def Node.textOfAll : List Node → String
  | [] => ""
  | n :: ns => Node.textContent n ++ Node.textOfAll ns

end

theorem Node.textOfAll_append (ns ms : List Node) :
    textOfAll (ns ++ ms) = textOfAll ns ++ textOfAll ms := by
  induction ns with
  | nil => exact String.empty_append.symm
  | cons n ns ih => simp only [List.cons_append, textOfAll, ih, String.append_assoc]

/-- All text inside an element, in document order. -/
def Element.textContent (e : Element) : String :=
  Node.textOfAll e.children

end ScriptedViews

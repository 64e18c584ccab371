import ScriptedViews.Namespace
import ScriptedViews.Tree.Node
import ScriptedViews.Xml.Reader
import ScriptedViews.Xml.StartTag

set_option autoImplicit false

/-! # View documents

A view's text as a tree. Comments, processing instructions and blank text are left out; names keep
the prefixes they were written with, and namespace declarations stay among the attributes. -/

namespace ScriptedViews

/-- Why a text is no view document. -/
inductive DocumentError where
  | parse (reason : Xml.XmlError)
  | namespaces (reason : NamespaceError)
deriving DecidableEq, Repr

namespace Document

/-- Give the attributes of a start tag their values. A declaration has the URI that its prefix is
    bound to; the others take the values of the document's attributes in turn, and end where those
    end. -/
def pairValues (scope : Xml.Scope) : List QName → List String → List Attribute
  | [], _ => []
  | name :: names, values =>
    if name.isNamespaceDeclaration then
      let uri := scope.uri? (name.qualifier.map fun _ => name.localName)
      ⟨name, uri.getD ""⟩ :: pairValues scope names values
    else match values with
      | value :: values => ⟨name, value⟩ :: pairValues scope names values
      | [] => []

/-- The name and attributes of the element that starts at `source`. -/
def readTag (source : List Char) (scope : Xml.Scope) (attributes : List Xml.PlainAttribute) :
    QName × List Attribute :=
  let tag := Xml.StartTag.scan source
  (QName.parse (String.ofList tag.name),
    pairValues scope (tag.attributes.map fun w => QName.parse (String.ofList w))
      (attributes.map (·.value)))

mutual

/-- A node of a document as a node of a view, if it is one. -/
def convert : Xml.Node → List Node
  | .text content => if Text.isBlankText content then [] else [.text content]
  | .element source _ attributes scope children =>
    let tag := readTag source scope attributes
    [.element tag.1 tag.2 (convertAll children)]

/-- The nodes of a view among the nodes of a document. -/
def convertAll : List Xml.Node → List Node
  | [] => []
  | n :: ns => convert n ++ convertAll ns

end

/-- The element that a document's root becomes. -/
def convertRoot : Xml.Node → Element
  | .element source _ attributes scope children =>
    let tag := readTag source scope attributes
    ⟨tag.1, tag.2, convertAll children⟩
  | .text _ => default

/-- Read the text of a view. -/
def parse (text : String) : Except DocumentError Element :=
  match Xml.parse text with
  | .ok root => .ok (convertRoot root)
  | .error e => .error (.parse e)

end Document

/-- The attributes of an element by their written names. -/
def Element.writtenAttributes (e : Element) : List (String × String) :=
  e.attributes.map fun a => (a.name.render, a.value)

/-- The namespaces that a view's root declares. -/
def Element.namespaces (root : Element) : Except DocumentError NamespaceTable :=
  match NamespaceTable.resolve root.writtenAttributes with
  | .ok table => .ok table
  | .error e => .error (.namespaces e)

end ScriptedViews

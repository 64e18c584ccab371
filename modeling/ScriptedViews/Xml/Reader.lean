import ScriptedViews.Xml.Token

set_option autoImplicit false

/-! # Reading documents

A document becomes a tree of elements and text, read from left to right; the first failure is the
one reported. Elements remember the text they start at, and which namespaces are in scope in
them. -/

namespace ScriptedViews.Xml

/-! ## Namespaces in scope -/

/-- Prefixes with the URIs they are bound to; no prefix stands for the default namespace. The
    first entry for a prefix counts. -/
abbrev Scope := List (Option String × String)

/-- The URI that a prefix is bound to. -/
def Scope.uri? (scope : Scope) (p : Option String) : Option String :=
  List.lookup p scope

/-- The URI of the prefix `xml`. -/
def xmlUri : String := "http://www.w3.org/XML/1998/namespace"

/-- The URI of the prefix `xmlns`. -/
def xmlnsUri : String := "http://www.w3.org/2000/xmlns/"

/-- The prefix that a declaration without one stands for. -/
def prefixOf (written : String) : Option String :=
  if written = "" then none else some written

/-! ## The tree -/

/-- An attribute that is no namespace declaration, with its value normalised. -/
structure PlainAttribute where
  name : WrittenName
  value : String
deriving Repr, Inhabited

/-- A node of a document. -/
inductive Node where
  | text (content : String)
  /-- An element, with the text that starts with its start tag. -/
  | element (source : List Char) (name : WrittenName) (attributes : List PlainAttribute)
      (scope : Scope) (children : List Node)
deriving Inhabited, Repr

/-! ## Start tags -/

/-- How a start tag ends. -/
inductive TagEnd where
  | opened
  | empty
  /-- The text is over before the tag is. -/
  | missing
deriving DecidableEq, Repr

/-- What a start tag says so far: the namespaces it declares, in order, and its other
    attributes. -/
structure TagContent where
  declared : Scope := []
  attributes : List PlainAttribute := []
deriving Repr, Inhabited

/-- Add an attribute to what a start tag says. -/
def TagContent.add (t : TagContent) (a : RawAttribute) : Except XmlError TagContent := do
  let value := String.ofList (← normalizeValue a.value.length a.value)
  if a.name.qualifier = "xmlns" then
    if value = xmlnsUri then .error .unexpectedXmlnsUri
    else if a.name.localName = "xml" ∧ value ≠ xmlUri then .error .invalidXmlPrefixUri
    else if a.name.localName ≠ "xml" ∧ value = xmlUri then .error .unexpectedXmlUri
    else if (t.declared.uri? (some a.name.localName)).isSome then .error .duplicatedNamespace
    else if value = xmlUri then .ok t
    else .ok { t with declared := t.declared ++ [(some a.name.localName, value)] }
  else if a.name.localName = "xmlns" then
    if value = xmlUri then .error .unexpectedXmlUri
    else if value = xmlnsUri then .error .unexpectedXmlnsUri
    else .ok { t with declared := t.declared ++ [(none, value)] }
  else .ok { t with attributes := t.attributes ++ [⟨a.name, value⟩] }

/-- Read a start tag after its name. The fuel bounds the attributes. -/
def readTagContent : Nat → TagContent → List Char →
    Except XmlError ((TagContent × TagEnd) × List Char)
  | 0, _, _ => .error .malformed
  | _ + 1, t, [] => .ok ((t, .missing), [])
  | fuel + 1, t, c :: cs =>
    match skipSpace (c :: cs) with
    | '/' :: '>' :: rest => .ok ((t, .empty), rest)
    | '>' :: rest => .ok ((t, .opened), rest)
    | rest =>
      if isSpace c then do
        let (a, rest) ← readAttribute rest
        readTagContent fuel (← t.add a) rest
      else .error .malformed

/-- The namespaces in scope in an element, from those of its parent. -/
def inherit (declared outer : Scope) : Scope :=
  declared ++ outer.filter fun e => (declared.uri? e.1).isNone

/-- The namespace of a prefixed name; an unprefixed one has none that a declaration gives it. -/
def namespaceOf (scope : Scope) (qualifier : String) : Except XmlError (Option String) :=
  if qualifier = "" then .ok none
  else match scope.uri? (some qualifier) with
    | some uri => .ok (some uri)
    | none => .error .unknownNamespace

/-- Check that the prefixes of attributes are bound and that no two have one expanded name. -/
def checkAttributes (scope : Scope) :
    List (Option String × String) → List PlainAttribute → Except XmlError Unit
  | _, [] => .ok ()
  | seen, a :: rest => do
    let uri ← if a.name.qualifier = "xml" then .ok (some xmlUri)
      else namespaceOf scope a.name.qualifier
    if seen.contains (uri, a.name.localName) then .error .duplicatedAttribute
    else checkAttributes scope ((uri, a.name.localName) :: seen) rest

/-! ## Content -/

/-- An element that is open: what its start tag says, its children so far in reverse, and the text
    that the next character data would join. -/
structure OpenElement where
  source : List Char
  name : WrittenName
  attributes : List PlainAttribute
  scope : Scope
  children : List Node := []
  run : Option (List Char) := none
deriving Repr, Inhabited

namespace OpenElement

/-- Close the text that character data would join. -/
def endRun (e : OpenElement) : OpenElement :=
  match e.run with
  | some cs => { e with children := .text (String.ofList cs) :: e.children, run := none }
  | none => e

/-- Add character data. -/
def addText (e : OpenElement) (cs : List Char) : OpenElement :=
  { e with run := some (e.run.getD [] ++ cs) }

/-- Add a child element. -/
def addNode (e : OpenElement) (n : Node) : OpenElement :=
  let e := e.endRun
  { e with children := n :: e.children }

/-- The finished element. -/
def close (e : OpenElement) : Node :=
  .element e.source e.name e.attributes e.scope e.endRun.children.reverse

end OpenElement

/-- Read a start tag that stands at the start, in a place where `outer` is in scope. -/
def readStartTag (outer : Scope) (cs : List Char) :
    Except XmlError ((OpenElement × TagEnd) × List Char) := do
  let (name, rest) ← readQName (cs.drop 1)
  if name.qualifier = "xmlns" then .error .invalidElementNamePrefix
  else
    let ((content, tagEnd), rest) ← readTagContent (rest.length + 1) {} rest
    let scope := inherit content.declared outer
    if tagEnd = .missing then
      return ((⟨cs, name, content.attributes, scope, [], none⟩, tagEnd), rest)
    checkAttributes scope [] content.attributes
    let _ ← namespaceOf scope name.qualifier
    return ((⟨cs, name, content.attributes, scope, [], none⟩, tagEnd), rest)

/-- Read an end tag that stands at the start. -/
def readEndTag (cs : List Char) : Except XmlError (WrittenName × List Char) := do
  let (name, rest) ← readQName (cs.drop 2)
  match skipSpace rest with
  | '>' :: rest => .ok (name, rest)
  | _ => .error .malformed

/-- Read content up to the end tag of the outermost open element. `e` is the innermost open
    element, `outer` the ones around it. The fuel bounds the pieces of content. -/
def readContent : Nat → OpenElement → List OpenElement → List Char →
    Except XmlError (Node × List Char)
  | 0, _, _, _ => .error .malformed
  | _ + 1, _, _, [] => .error .unclosedRootNode
  | fuel + 1, e, outer, cs =>
    match cs with
    | '<' :: '!' :: _ =>
      if startsWith "<!--" cs then do
        readContent fuel e.endRun outer (← skipComment cs)
      else if startsWith "<![CDATA[" cs then do
        let (text, rest) ← readUntil (startsWith "]]>") (cs.drop 9)
        let rest ← skipWord "]]>" rest
        readContent fuel (e.addText (normalizeLines text)) outer rest
      else .error .malformed
    | '<' :: '?' :: _ => do readContent fuel e.endRun outer (← skipInstruction cs)
    | '<' :: '/' :: _ => do
      let (name, rest) ← readEndTag cs
      if name.qualifier ≠ e.name.qualifier ∨ name.localName ≠ e.name.localName then
        .error .unexpectedCloseTag
      else match outer with
        | [] => .ok (e.close, rest)
        | parent :: outer => readContent fuel (parent.addNode e.close) outer rest
    | ['<'] => .error .malformed
    | '<' :: _ => do
      let ((child, tagEnd), rest) ← readStartTag e.scope cs
      match tagEnd with
      | .opened => readContent fuel child (e.endRun :: outer) rest
      | .empty => readContent fuel (e.addNode child.close) outer rest
      | .missing => .error .unclosedRootNode
    | _ => do
      let (text, rest) ← readUntil (fun l => l.head? == some '<') cs
      if containsWord "]]>" text then .error .malformed
      else
        let text ← normalizeText text.length false [] text
        readContent fuel (e.addText text) outer rest

/-! ## Documents -/

/-- What is left after white space, comments and processing instructions. -/
def skipMisc : Nat → List Char → Except XmlError (List Char)
  | 0, cs => .ok cs
  | fuel + 1, cs =>
    let cs := skipSpace cs
    if startsWith "<!--" cs then do skipMisc fuel (← skipComment cs)
    else if startsWith "<?" cs then do skipMisc fuel (← skipInstruction cs)
    else .ok cs

/-- White space, unless the XML declaration ends here. -/
def declarationSpace (cs : List Char) : Except XmlError (List Char) :=
  if cs.head?.any isSpace then .ok (skipSpace cs)
  else if startsWith "?>" cs then .ok cs
  else .error .malformed

/-- What is left after an XML declaration, which stands at the start. -/
def skipDeclaration (cs : List Char) : Except XmlError (List Char) := do
  let cs ← declarationSpace (cs.drop 5)
  if !startsWith "version" cs then .error .malformed
  else
    let (_, cs) ← readAttribute cs
    let cs ← declarationSpace cs
    let cs ← if startsWith "encoding" cs then do
        let (_, cs) ← readAttribute cs
        declarationSpace cs
      else .ok cs
    let cs ← if startsWith "standalone" cs then do
        let (_, cs) ← readAttribute cs
        .ok cs
      else .ok cs
    skipWord "?>" (skipSpace cs)

/-- Read the root element, which stands at the start. -/
def readRoot (cs : List Char) : Except XmlError (Node × List Char) := do
  let ((e, tagEnd), rest) ← readStartTag [] cs
  match tagEnd with
  | .opened => readContent (rest.length + 1) e [] rest
  | .empty => .ok (e.close, rest)
  | .missing => .error .noRootNode

/-- Read a document: an optional byte order mark and XML declaration, the root element, and
    around it white space, comments and processing instructions. -/
def parse (text : String) : Except XmlError Node := do
  let cs := match text.toList with
    | '\ufeff' :: cs => cs
    | cs => cs
  let cs ← if startsWith "<?xml " cs then skipDeclaration cs else .ok cs
  let cs ← skipMisc cs.length cs
  if startsWith "<!DOCTYPE" cs then .error .dtdDetected
  else match cs with
    | '<' :: _ => do
      let (root, rest) ← readRoot cs
      let rest ← skipMisc rest.length rest
      if rest.isEmpty then .ok root else .error .malformed
    | [] => .error .noRootNode
    | _ => .error .malformed

end ScriptedViews.Xml

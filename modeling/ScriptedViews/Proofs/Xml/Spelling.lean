import ScriptedViews.Document

set_option autoImplicit false

/-! # How documents are spelled

A document with nothing of its text left out: every name with its colon, every attribute with the
white space and the quotes around it, every piece of character data, comment and processing
instruction in its place. A document spells one text, and what it means as a tree of a view is told
by recursion on its pieces, with nothing of how texts are read. -/

namespace ScriptedViews.Xml

/-! ## Names -/

/-- Whether the characters are a name without a colon. -/
def IsPartName (cs : List Char) : Prop :=
  cs ≠ [] ∧ startsName cs ∧ ∀ c ∈ cs, isNameChar c

namespace WrittenName

/-- The characters of a name. -/
def spell (n : WrittenName) : List Char :=
  if n.hasColon then n.qualifier.toList ++ ':' :: n.localName.toList else n.localName.toList

/-- The name as a name of a view's tree. -/
def toQName (n : WrittenName) : QName :=
  QName.parse (String.ofList n.spell)

/-- Whether the name follows the grammar. What stands before its colon may be empty. -/
structure IsValid (n : WrittenName) : Prop where
  localName : IsPartName n.localName.toList
  qualifier : n.qualifier ≠ "" → n.hasColon ∧ IsPartName n.qualifier.toList

/-- Whether no character of the name is blank. -/
def IsSolid (n : WrittenName) : Prop :=
  ∀ c ∈ n.spell, Text.isBlank c = false

end WrittenName

/-! ## Start tags -/

/-- An attribute with all that is written of it, from the white space before it on. -/
structure SpelledAttribute where
  space : List Char
  name : WrittenName
  beforeEquals : List Char
  afterEquals : List Char
  quote : Char
  /-- What stands between the quotes. -/
  raw : List Char

namespace SpelledAttribute

/-- The characters of an attribute. -/
def spell (a : SpelledAttribute) : List Char :=
  a.space ++ a.name.spell ++ a.beforeEquals ++ '=' :: a.afterEquals ++ a.quote :: a.raw
    ++ [a.quote]

/-- What is between the quotes as the application sees it, unless a reference in it is broken. -/
def value? (a : SpelledAttribute) : Except XmlError (List Char) :=
  normalizeValue a.raw.length a.raw

/-- The normalised value. -/
def value (a : SpelledAttribute) : String :=
  match a.value? with
  | .ok cs => String.ofList cs
  | .error _ => ""

/-- The attribute as an attribute of a view's tree. -/
def toAttribute (a : SpelledAttribute) : Attribute :=
  ⟨a.name.toQName, a.value⟩

/-- Whether the attribute follows the grammar. -/
structure IsValid (a : SpelledAttribute) : Prop where
  space_ne : a.space ≠ []
  space : ∀ c ∈ a.space, isSpace c
  name : a.name.IsValid
  beforeEquals : ∀ c ∈ a.beforeEquals, isSpace c
  afterEquals : ∀ c ∈ a.afterEquals, isSpace c
  quote : a.quote = '"' ∨ a.quote = '\''
  raw : ∀ c ∈ a.raw, isXmlChar c ∧ c ≠ a.quote ∧ c ≠ '<'
  references : ∃ cs, a.value? = .ok cs

end SpelledAttribute

/-- A start tag, from after its opening bracket to before what closes it. -/
structure SpelledTag where
  name : WrittenName
  attributes : List SpelledAttribute
  space : List Char

namespace SpelledTag

/-- The characters of a start tag between its brackets. -/
def spell (t : SpelledTag) : List Char :=
  t.name.spell ++ t.attributes.flatMap SpelledAttribute.spell ++ t.space

/-- Whether the start tag follows the grammar. -/
structure IsValid (t : SpelledTag) : Prop where
  name : t.name.IsValid
  attributes : ∀ a ∈ t.attributes, a.IsValid
  space : ∀ c ∈ t.space, isSpace c

/-- Whether names can be told apart by blanks, the default namespace is declared at most once, and
    nothing looks like a declaration that is none: the prefix `xml` is not declared, and no name
    has the local part `xmlns` after a colon. -/
structure IsPlain (t : SpelledTag) : Prop where
  name : t.name.IsSolid
  names : ∀ a ∈ t.attributes, a.name.IsSolid
  xmlnsOnce : (t.attributes.map (·.name.spell)).count "xmlns".toList ≤ 1
  notXml : ∀ a ∈ t.attributes, a.name.spell ≠ "xmlns:xml".toList
  notXmlns : ∀ a ∈ t.attributes, a.name.localName = "xmlns" → a.name.hasColon = false

end SpelledTag

/-! ## Content -/

/-- A piece of content with all that is written of it. -/
inductive Piece where
  /-- Character data, up to the next bracket. -/
  | chars (cs : List Char)
  /-- Character data in which nothing is markup. -/
  | section (cs : List Char)
  | comment (cs : List Char)
  | instruction (cs : List Char)
  /-- An element that its start tag closes. -/
  | empty (tag : SpelledTag)
  /-- An element with content, and the name and the white space in its end tag. -/
  | element (tag : SpelledTag) (content : List Piece) (closing : WrittenName) (space : List Char)

namespace Piece

/-- The characters of a comment. -/
def spellComment (cs : List Char) : List Char :=
  "<!--".toList ++ cs ++ "-->".toList

/-- The characters of a section in which nothing is markup. -/
def spellSection (cs : List Char) : List Char :=
  "<![CDATA[".toList ++ cs ++ "]]>".toList

/-- The characters of a processing instruction. -/
def spellInstruction (cs : List Char) : List Char :=
  "<?".toList ++ cs ++ "?>".toList

/-- The characters of an end tag. -/
def spellEndTag (closing : WrittenName) (space : List Char) : List Char :=
  '<' :: '/' :: closing.spell ++ space ++ ['>']

mutual

/-- The characters of a piece. -/
def spell : Piece → List Char
  | .chars cs => cs
  | .section cs => spellSection cs
  | .comment cs => spellComment cs
  | .instruction cs => spellInstruction cs
  | .empty tag => '<' :: tag.spell ++ ['/', '>']
  | .element tag content closing space =>
    '<' :: tag.spell ++ '>' :: spellAll content ++ spellEndTag closing space

/-- The characters of some pieces. -/
def spellAll : List Piece → List Char
  | [] => []
  | p :: ps => spell p ++ spellAll ps

end

/-- Whether the piece is character data that ends at a bracket. -/
def isChars : Piece → Bool
  | .chars _ => true
  | _ => false

/-- Whether the piece is an element. -/
def isElement : Piece → Bool
  | .empty _ => true
  | .element .. => true
  | _ => false

/-- What character data is once line ends are normalised, unless a reference in it is broken. -/
def normalized? (cs : List Char) : Except XmlError (List Char) :=
  normalizeText cs.length false [] cs

/-- Whether the characters are character data: no markup, and every reference is one. -/
structure IsCharData (cs : List Char) : Prop where
  ne : cs ≠ []
  chars : ∀ c ∈ cs, isXmlChar c ∧ c ≠ '<'
  open' : ¬ "]]>".toList <:+: cs
  references : ∃ text, normalized? cs = .ok text

/-- Whether the characters can be a section in which nothing is markup. -/
structure IsSectionText (cs : List Char) : Prop where
  chars : ∀ c ∈ cs, isXmlChar c
  open' : ¬ "]]>".toList <:+: cs

/-- Whether the characters can be a comment. -/
structure IsCommentText (cs : List Char) : Prop where
  chars : ∀ c ∈ cs, isXmlChar c
  open' : ¬ "--".toList <:+: cs
  last : cs.getLast? ≠ some '-'

/-- Whether the characters can be a processing instruction, which starts with a name. -/
structure IsInstructionText (cs : List Char) : Prop where
  chars : ∀ c ∈ cs, isXmlChar c
  open' : ¬ "?>".toList <:+: cs
  name : cs.head?.any fun c => isNameStart c || c == ':'
  notXml : ¬ "xml ".toList <+: cs

/-- Whether an end tag closes what a start tag opens: the parts of their names are the same. -/
structure Closes (closing : WrittenName) (space : List Char) (tag : SpelledTag) : Prop where
  name : closing.IsValid
  qualifier : closing.qualifier = tag.name.qualifier
  localName : closing.localName = tag.name.localName
  space : ∀ c ∈ space, isSpace c

mutual

/-- Whether a piece follows the grammar. -/
def IsValid : Piece → Prop
  | .chars cs => IsCharData cs
  | .section cs => IsSectionText cs
  | .comment cs => IsCommentText cs
  | .instruction cs => IsInstructionText cs
  | .empty tag => tag.IsValid
  | .element tag content closing space =>
    tag.IsValid ∧ AreValid content ∧ Closes closing space tag

/-- Whether some pieces follow the grammar. Character data goes as far as it can. -/
def AreValid : List Piece → Prop
  | [] => True
  | p :: ps => IsValid p ∧ AreValid ps ∧ (p.isChars → ps.head?.any isChars = false)

end

mutual

/-- Whether all start tags in a piece are plain. -/
def IsPlain : Piece → Prop
  | .empty tag => tag.IsPlain
  | .element tag content _ _ => tag.IsPlain ∧ ArePlain content
  | _ => True

/-- Whether all start tags in some pieces are plain. -/
def ArePlain : List Piece → Prop
  | [] => True
  | p :: ps => IsPlain p ∧ ArePlain ps

end

/-! ## Trees -/

/-- Text that stands between tags, comments and instructions, as nodes: none if it is blank. -/
def textNodes : Option (List Char) → List ScriptedViews.Node
  | none => []
  | some cs => if Text.isBlankText (String.ofList cs) then [] else [.text (String.ofList cs)]

/-- Text with more character data after it. -/
def joinText (text : Option (List Char)) (cs : List Char) : Option (List Char) :=
  some (text.getD [] ++ cs)

/-- The nodes of some pieces after text that theirs would join: their elements, and their text
    unless it is blank, in order. Comments and instructions end a text and are left out. -/
def nodesAfter : Option (List Char) → List Piece → List ScriptedViews.Node
  | text, [] => textNodes text
  | text, .chars cs :: ps => nodesAfter (joinText text ((normalized? cs).toOption.getD [])) ps
  | text, .section cs :: ps => nodesAfter (joinText text (normalizeLines cs)) ps
  | text, .comment _ :: ps => textNodes text ++ nodesAfter none ps
  | text, .instruction _ :: ps => textNodes text ++ nodesAfter none ps
  | text, .empty tag :: ps =>
    textNodes text ++ .element tag.name.toQName (tag.attributes.map (·.toAttribute)) []
      :: nodesAfter none ps
  | text, .element tag content _ _ :: ps =>
    textNodes text ++ .element tag.name.toQName (tag.attributes.map (·.toAttribute))
      (nodesAfter none content) :: nodesAfter none ps

/-- The nodes of some pieces. -/
def nodes (ps : List Piece) : List ScriptedViews.Node :=
  nodesAfter none ps

end Piece

/-! ## Documents -/

/-- A document with all that is written of it. -/
structure SpelledDocument where
  /-- Whether a mark of the byte order comes first. -/
  hasMark : Bool
  /-- What the XML declaration says, if there is one. -/
  declaration : Option (List Char)
  before : List Piece
  root : Piece
  after : List Piece

namespace SpelledDocument

/-- The characters of a mark of the byte order, if there is one. -/
def spellMark (hasMark : Bool) : List Char :=
  if hasMark then ['\ufeff'] else []

/-- The characters of an XML declaration, if there is one. -/
def spellDeclaration : Option (List Char) → List Char
  | some cs => "<?xml ".toList ++ cs ++ "?>".toList
  | none => []

/-- The characters of a document after its declaration. -/
def spellBody (d : SpelledDocument) : List Char :=
  Piece.spellAll d.before ++ (d.root.spell ++ Piece.spellAll d.after)

/-- The characters of a document. -/
def spell (d : SpelledDocument) : List Char :=
  spellMark d.hasMark ++ (spellDeclaration d.declaration ++ d.spellBody)

/-- Whether a piece may stand outside of the root: white space, comments and instructions. -/
def IsOutside : Piece → Prop
  | .chars cs => ∀ c ∈ cs, isSpace c
  | .comment _ => True
  | .instruction _ => True
  | _ => False

/-- Whether some pieces may stand around the root. -/
def AreOutside (ps : List Piece) : Prop :=
  Piece.AreValid ps ∧ ∀ p ∈ ps, IsOutside p

/-- Whether the document follows the grammar. -/
structure IsValid (d : SpelledDocument) : Prop where
  declaration : ∀ cs ∈ d.declaration, '<' ∉ cs
  before : AreOutside d.before
  root : d.root.IsValid ∧ d.root.isElement
  after : AreOutside d.after

end SpelledDocument

end ScriptedViews.Xml

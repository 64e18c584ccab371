import ScriptedViews.Vocabulary

set_option autoImplicit false

/-! # Qualified names

Names of elements and attributes in the form they were written in: what stands before the first
colon qualifies what stands after it. -/

namespace ScriptedViews

/-- A name with an optional qualifier. -/
structure QName where
  /-- What stands before the colon. -/
  qualifier : Option String
  /-- What stands after the colon, or the whole name. -/
  localName : String
deriving DecidableEq, Repr, Inhabited

namespace QName

/-- A name from its parts; an empty qualifier is none. -/
def ofParts (qualifier : Option String) (localName : String) : QName :=
  ⟨qualifier.filter (· ≠ ""), localName⟩

/-- What stands before and after the first colon. -/
def splitColon : List Char → Option (List Char × List Char)
  | [] => none
  | c :: cs =>
    if c = ':' then some ([], cs)
    else (splitColon cs).map fun p => (c :: p.1, p.2)

/-- Read a written name: its first colon ends the qualifier. -/
def parse (written : String) : QName :=
  match splitColon written.toList with
  | some (q, l) => ofParts (some (String.ofList q)) (String.ofList l)
  | none => ofParts none written

/-- The name as it is written. -/
def render (n : QName) : String :=
  match n.qualifier with
  | some q => q ++ ":" ++ n.localName
  | none => n.localName

/-- Whether an attribute of this name declares a namespace: `xmlns` or `xmlns:p`. -/
def isNamespaceDeclaration (n : QName) : Bool :=
  match n.qualifier with
  | some q => q == Vocabulary.xmlnsPrefix
  | none => n.localName == Vocabulary.xmlnsPrefix

end QName

end ScriptedViews

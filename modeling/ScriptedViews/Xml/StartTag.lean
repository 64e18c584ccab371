import ScriptedViews.Text.Blank

set_option autoImplicit false

/-! # Start tags as written

The names in a start tag in the form they have in the source. A document that has been read tells
what a prefix means but not how it was spelled where several mean the same, so the names are taken
from the text, which is known to be well formed. -/

namespace ScriptedViews.Xml

/-- The names in a start tag: the element's and its attributes', in order. -/
structure StartTag where
  name : List Char
  attributes : List (List Char)
deriving DecidableEq, Repr, Inhabited

namespace StartTag

/-- A character that ends the name of an element. -/
def endsName (c : Char) : Bool :=
  Text.isBlank c || c == '/' || c == '>'

/-- A character that ends the name of an attribute. -/
def endsAttributeName (c : Char) : Bool :=
  c == '=' || Text.isBlank c

/-- What follows a quoted value whose equals sign may stand at the start, or nothing if there is no
    whole value. -/
def afterValue? (cs : List Char) : Option (List Char) :=
  let cs := Text.trimStart cs
  let cs := Text.trimStart (match cs with | '=' :: rest => rest | cs => cs)
  match cs with
  | quote :: rest =>
    if quote = '"' ∨ quote = '\'' then
      match rest.dropWhile (· ≠ quote) with
      | _ :: after => some after
      | [] => none
    else none
  | [] => none

/-- The names of the attributes that follow. The fuel bounds their number. -/
def scanAttributes : Nat → List Char → List (List Char)
  | 0, _ => []
  | fuel + 1, cs =>
    match Text.trimStart cs with
    | [] => []
    | c :: cs =>
      if c = '/' ∨ c = '>' then []
      else
        let name := (c :: cs).takeWhile (!endsAttributeName ·)
        match afterValue? ((c :: cs).dropWhile (!endsAttributeName ·)) with
        | some rest => name :: scanAttributes fuel rest
        | none => [name]

/-- The names of the start tag that stands at the start of a text. -/
def scan (cs : List Char) : StartTag :=
  let cs := match cs with | '<' :: rest => rest | cs => cs
  let rest := cs.dropWhile (!endsName ·)
  ⟨cs.takeWhile (!endsName ·), scanAttributes rest.length rest⟩

end StartTag

end ScriptedViews.Xml

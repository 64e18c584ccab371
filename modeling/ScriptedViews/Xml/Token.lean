import ScriptedViews.Xml.Char
import ScriptedViews.Xml.Error

set_option autoImplicit false

/-! # Tokens of a document

Readers for the pieces a document is made of: names, references, comments, attributes. Each takes
the characters that are left and gives what it read with the characters after it. -/

namespace ScriptedViews.Xml

/-- What is left after white space. -/
def skipSpace (cs : List Char) : List Char :=
  cs.dropWhile isSpace

/-- Whether the characters start with `word`. -/
def startsWith (word : String) (cs : List Char) : Bool :=
  word.toList.isPrefixOf cs

/-- What is left after `word`, which must stand at the start. -/
def skipWord (word : String) (cs : List Char) : Except XmlError (List Char) :=
  if startsWith word cs then .ok (cs.drop word.length) else .error .malformed

/-- Characters up to the place where `stop` holds of what is left. -/
def readUntil (stop : List Char → Bool) : List Char → Except XmlError (List Char × List Char)
  | [] => .ok ([], [])
  | c :: cs =>
    if !isXmlChar c then .error .malformed
    else if stop (c :: cs) then .ok ([], c :: cs)
    else (readUntil stop cs).map fun r => (c :: r.1, r.2)

/-! ## Names -/

/-- A name in which colons have no meaning. -/
def readName (cs : List Char) : Except XmlError (List Char × List Char) :=
  match cs with
  | c :: rest =>
    if isNameStart c || c == ':' then
      let tail := fun d => isNameChar d || d == ':'
      .ok (c :: rest.takeWhile tail, rest.dropWhile tail)
    else .error .malformed
  | [] => .error .malformed

/-- A name as it is written: what stands before its colon, if it has one, and the local part. -/
structure WrittenName where
  /-- The part before the colon; empty also where a name starts with its colon. -/
  qualifier : String
  localName : String
  /-- Whether there is a colon. -/
  hasColon : Bool
deriving DecidableEq, Repr, Inhabited

/-- A part of a qualified name: it does not start with a character that only follows in names. -/
def startsName (cs : List Char) : Bool :=
  cs.head?.all isNameStart

/-- A name with at most one colon. The part after it may not be empty. -/
def readQName (cs : List Char) : Except XmlError (WrittenName × List Char) :=
  let part := cs.takeWhile isNameChar
  match cs.dropWhile isNameChar with
  | ':' :: rest =>
    let localPart := rest.takeWhile isNameChar
    match rest.dropWhile isNameChar with
    | ':' :: _ => .error .malformed
    | rest =>
      if startsName part && startsName localPart && !localPart.isEmpty then
        .ok (⟨String.ofList part, String.ofList localPart, true⟩, rest)
      else .error .malformed
  | rest =>
    if startsName part && !part.isEmpty then .ok (⟨"", String.ofList part, false⟩, rest)
    else .error .malformed

/-! ## References -/

/-- What a reference stands for. -/
inductive Reference where
  | char (c : Char)
  | entity (name : String)
deriving DecidableEq, Repr

/-- The value of a hexadecimal digit. -/
def hexValue (c : Char) : Nat :=
  if c.isDigit then c.toNat - '0'.toNat
  else if c.toNat < 'a'.toNat then c.toNat - 'A'.toNat + 10
  else c.toNat - 'a'.toNat + 10

/-- Whether `c` is a hexadecimal digit. -/
def isHexDigit (c : Char) : Bool :=
  c.isDigit || ('a' ≤ c && c ≤ 'f') || ('A' ≤ c && c ≤ 'F')

/-- The number that digits of the given radix stand for. -/
def numberOf (radix : Nat) (digits : List Char) : Nat :=
  digits.foldl (fun n c => n * radix + hexValue c) 0

/-- The character with a code point; the replacement character where there is none. -/
def charOf (code : Nat) : Char :=
  if code.isValidChar then Char.ofNat code else '\ufffd'

/-- The character that a numeric reference with these digits stands for. -/
def charReference? (radix : Nat) (digits : List Char) : Option Char :=
  if digits.isEmpty || 0x100000000 ≤ numberOf radix digits then none
  else some (charOf (numberOf radix digits)) |>.filter isXmlChar

/-- What a name between ampersand and semicolon stands for. -/
def namedReference : String → Reference
  | "quot" => .char '"'
  | "amp" => .char '&'
  | "apos" => .char '\''
  | "lt" => .char '<'
  | "gt" => .char '>'
  | name => .entity name

/-- The semicolon that ends a reference. -/
def endReference (r : Reference) : List Char → Option (Reference × List Char)
  | ';' :: rest => some (r, rest)
  | _ => none

/-- A reference whose ampersand has been read. -/
def reference? : List Char → Option (Reference × List Char)
  | '#' :: 'x' :: rest =>
    (charReference? 16 (rest.takeWhile isHexDigit)).bind fun c =>
      endReference (.char c) (rest.dropWhile isHexDigit)
  | '#' :: rest =>
    (charReference? 10 (rest.takeWhile Char.isDigit)).bind fun c =>
      endReference (.char c) (rest.dropWhile Char.isDigit)
  | cs =>
    match readName cs with
    | .ok (name, rest) => endReference (namedReference (String.ofList name)) rest
    | .error _ => none

/-- A reference to a character, whose ampersand has been read. -/
def readCharReference (cs : List Char) : Except XmlError (Char × List Char) :=
  match reference? cs with
  | some (.char c, rest) => .ok (c, rest)
  | some (.entity _, _) => .error .unknownEntityReference
  | none => .error .malformed

/-! ## Attribute values -/

/-- The value of an attribute as the application sees it: each line end or tab is one space, and a
    character reference stands for its character untouched. The fuel bounds the characters. -/
def normalizeValue : Nat → List Char → Except XmlError (List Char)
  | 0, _ => .ok []
  | _ + 1, [] => .ok []
  | fuel + 1, c :: cs =>
    if c = '&' then do
      let (c, rest) ← readCharReference cs
      let value ← normalizeValue fuel rest
      return c :: value
    else if c = '\r' ∧ cs.head? = some '\n' then normalizeValue fuel cs
    else do
      let value ← normalizeValue fuel cs
      return (if c = '\n' ∨ c = '\r' ∨ c = '\t' then ' ' else c) :: value

/-- An attribute with its value as written between the quotes. -/
structure RawAttribute where
  name : WrittenName
  value : List Char
deriving Repr, Inhabited

/-- A name, an equals sign and a quoted value. -/
def readAttribute (cs : List Char) : Except XmlError (RawAttribute × List Char) := do
  let (name, rest) ← readQName cs
  match skipSpace rest with
  | '=' :: rest =>
    match skipSpace rest with
    | quote :: rest =>
      if quote = '"' ∨ quote = '\'' then do
        let (value, rest) ← readUntil (fun l => l.head?.any fun c => c == quote || c == '<') rest
        match rest with
        | c :: rest => if c = quote then .ok (⟨name, value⟩, rest) else .error .malformed
        | [] => .error .malformed
      else .error .malformed
    | [] => .error .malformed
  | _ => .error .malformed

/-! ## Text -/

/-- Text as the application sees it, with line ends normalised. A carriage return waits in the
    buffer, which is in reverse, until the next literal character shows what it becomes. Characters
    of references, and the one literal character after a reference, are taken as they are. -/
def normalizeText : Nat → Bool → List Char → List Char → Except XmlError (List Char)
  | 0, _, buffer, _ => .ok buffer.reverse
  | _ + 1, _, buffer, [] => .ok buffer.reverse
  | fuel + 1, asIs, buffer, c :: cs =>
    if c = '&' then do
      let (c, rest) ← readCharReference cs
      normalizeText fuel true (c :: buffer) rest
    else if asIs then normalizeText fuel false (c :: buffer) cs
    else normalizeText fuel false (pushLiteral buffer c cs.isEmpty) cs
where
  /-- Put a literal character into the buffer; `last` says that nothing follows it. -/
  pushLiteral (buffer : List Char) (c : Char) (last : Bool) : List Char :=
    let settled := match buffer with
      | '\r' :: before => '\n' :: before
      | _ => buffer
    let afterReturn := buffer.head? = some '\r'
    if last ∧ c = '\r' then '\n' :: settled
    else if afterReturn ∧ c = '\n' then settled
    else c :: settled

/-- Character data that holds no references, with line ends normalised. -/
def normalizeLines (cs : List Char) : List Char :=
  go [] cs
where
  /-- The buffer is in reverse. -/
  go (buffer : List Char) : List Char → List Char
    | [] => buffer.reverse
    | c :: cs => go (normalizeText.pushLiteral buffer c cs.isEmpty) cs

/-! ## Comments and instructions -/

/-- Whether `word` stands somewhere in the text. -/
def containsWord (word : String) : List Char → Bool
  | [] => word.isEmpty
  | c :: cs => startsWith word (c :: cs) || containsWord word cs

/-- What is left after a comment, which stands at the start. -/
def skipComment (cs : List Char) : Except XmlError (List Char) := do
  let (text, rest) ← readUntil (startsWith "-->") (cs.drop 4)
  let rest ← skipWord "-->" rest
  if containsWord "--" text || text.getLast? == some '-' then .error .malformed else .ok rest

/-- What is left after a processing instruction, which stands at the start. -/
def skipInstruction (cs : List Char) : Except XmlError (List Char) := do
  if startsWith "<?xml " cs then .error .malformed
  else
    let (_, rest) ← readName (cs.drop 2)
    let (_, rest) ← readUntil (startsWith "?>") (skipSpace rest)
    skipWord "?>" rest

end ScriptedViews.Xml

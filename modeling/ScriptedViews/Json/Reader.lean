import ScriptedViews.Json.Value

set_option autoImplicit false

/-! # Reading JSON

The grammar of JSON texts. Each reader takes the characters that are left and gives what it read
with the characters after it, or nothing if they do not start with what it reads. -/

namespace ScriptedViews.Json

/-- The four characters that may stand between tokens. -/
def isSpace (c : Char) : Bool :=
  c == ' ' || c == '\t' || c == '\n' || c == '\r'

/-- What is left after white space. -/
def skipSpace (cs : List Char) : List Char :=
  cs.dropWhile isSpace

/-! ## Numbers -/

/-- The digits at the start, and the rest. -/
def takeDigits (cs : List Char) : List Char × List Char :=
  (cs.takeWhile Char.isDigit, cs.dropWhile Char.isDigit)

/-- One digit or more. -/
def digits? (cs : List Char) : Option (List Char × List Char) :=
  match takeDigits cs with
  | ([], _) => none
  | r => some r

/-- The digits before the point: a zero stands alone. -/
def intPart? : List Char → Option (List Char × List Char)
  | '0' :: cs => if cs.head?.any Char.isDigit then none else some (['0'], cs)
  | cs => digits? cs

/-- A point with the digits after it, if there is one. -/
def fraction? : List Char → Option (List Char × List Char)
  | '.' :: cs => (digits? cs).map fun r => ('.' :: r.1, r.2)
  | cs => some ([], cs)

/-- An exponent with its sign and digits, if there is one. -/
def exponent? : List Char → Option (List Char × List Char)
  | c :: cs =>
    if c = 'e' ∨ c = 'E' then
      match cs with
      | s :: rest =>
        if s = '+' ∨ s = '-' then (digits? rest).map fun r => (c :: s :: r.1, r.2)
        else (digits? cs).map fun r => (c :: r.1, r.2)
      | [] => none
    else some ([], c :: cs)
  | [] => some ([], [])

/-- A number as it is written. -/
def number? (cs : List Char) : Option (List Char × List Char) := do
  let (sign, cs) := match cs with
    | '-' :: rest => (['-'], rest)
    | cs => ([], cs)
  let (whole, cs) ← intPart? cs
  let (fraction, cs) ← fraction? cs
  let (exponent, cs) ← exponent? cs
  some (sign ++ whole ++ fraction ++ exponent, cs)

/-! ## Strings -/

/-- The value of a hexadecimal digit. -/
def hexDigit? (c : Char) : Option Nat :=
  if c.isDigit then some (c.toNat - '0'.toNat)
  else if 'a' ≤ c ∧ c ≤ 'f' then some (c.toNat - 'a'.toNat + 10)
  else if 'A' ≤ c ∧ c ≤ 'F' then some (c.toNat - 'A'.toNat + 10)
  else none

/-- Four hexadecimal digits. -/
def hexFour? : List Char → Option (Nat × List Char)
  | a :: b :: c :: d :: cs => do
    let a ← hexDigit? a
    let b ← hexDigit? b
    let c ← hexDigit? c
    let d ← hexDigit? d
    some (((a * 16 + b) * 16 + c) * 16 + d, cs)
  | _ => none

/-- What the letter after a backslash stands for, but for `u`. -/
def simpleEscape? : Char → Option Char
  | '"' => some '"'
  | '\\' => some '\\'
  | '/' => some '/'
  | 'b' => some '\x08'
  | 'f' => some '\x0c'
  | 'n' => some '\n'
  | 'r' => some '\r'
  | 't' => some '\t'
  | _ => none

/-- One unit of a string between quotes: a character, or half of a surrogate pair. -/
inductive StringUnit where
  | char (c : Char)
  | half (code : Nat)
deriving DecidableEq, Repr

/-- The units of a string whose opening quote has been read, up to its closing quote. -/
def units? : Nat → List Char → Option (List StringUnit × List Char)
  | 0, _ => none
  | _ + 1, [] => none
  | fuel + 1, c :: cs =>
    if c = '"' then some ([], cs)
    else if c.toNat < 0x20 then none
    else if c = '\\' then
      match cs with
      | 'u' :: cs => do
        let (code, cs) ← hexFour? cs
        let (us, cs) ← units? fuel cs
        let unit := if 0xd800 ≤ code ∧ code ≤ 0xdfff then .half code else .char (Char.ofNat code)
        some (unit :: us, cs)
      | e :: cs => do
        let e ← simpleEscape? e
        let (us, cs) ← units? fuel cs
        some (.char e :: us, cs)
      | [] => none
    else do
      let (us, cs) ← units? fuel cs
      some (.char c :: us, cs)

/-- The text of a string's units. A high half must be followed by a low one. -/
def pairUp : List StringUnit → Option (List Char)
  | [] => some []
  | .char c :: us => (pairUp us).map (c :: ·)
  | .half hi :: .half lo :: us =>
    if hi < 0xdc00 ∧ 0xdc00 ≤ lo then
      (pairUp us).map (Char.ofNat (0x10000 + (hi - 0xd800) * 0x400 + (lo - 0xdc00)) :: ·)
    else none
  | .half _ :: _ => none

/-- A string whose opening quote has been read: its text, if it is text, and the rest. -/
def stringBody? (cs : List Char) : Option (Option String × List Char) :=
  (units? (cs.length + 1) cs).map fun r => ((pairUp r.1).map String.ofList, r.2)

/-! ## Values -/

/-- What is left after a word that stands at the start. -/
def dropWord? : List Char → List Char → Option (List Char)
  | [], cs => some cs
  | _ :: _, [] => none
  | w :: ws, c :: cs => if w = c then dropWord? ws cs else none

/-- The object with the given entries, if all the keys are texts. -/
def objectOf (entries : List (Option String × Json)) : Json :=
  match entries.mapM fun e => e.1.map fun key => (key, e.2) with
  | some es => .obj es
  | none => .unpaired

mutual

/-- A value at the start of the characters, after white space. The fuel bounds the nesting. -/
def value? : Nat → List Char → Option (Json × List Char)
  | 0, _ => none
  | fuel + 1, cs =>
    match skipSpace cs with
    | 'n' :: rest => (dropWord? ['u', 'l', 'l'] rest).map fun r => (.null, r)
    | 't' :: rest => (dropWord? ['r', 'u', 'e'] rest).map fun r => (.bool true, r)
    | 'f' :: rest => (dropWord? ['a', 'l', 's', 'e'] rest).map fun r => (.bool false, r)
    | '"' :: rest => (stringBody? rest).map fun r =>
        ((match r.1 with | some s => .str s | none => .unpaired), r.2)
    | '[' :: rest =>
      match skipSpace rest with
      | ']' :: rest => some (.arr [], rest)
      | rest => (items? fuel rest).map fun r => (.arr r.1, r.2)
    | '\x7b' :: rest =>
      match skipSpace rest with
      | '\x7d' :: rest => some (.obj [], rest)
      | rest => (entries? fuel rest).map fun r => (objectOf r.1, r.2)
    | cs => (number? cs).map fun r => (.number (String.ofList r.1), r.2)

/-- The items of a list up to its closing bracket. -/
def items? : Nat → List Char → Option (List Json × List Char)
  | 0, _ => none
  | fuel + 1, cs => do
    let (v, cs) ← value? fuel cs
    match skipSpace cs with
    | ',' :: rest => do
      let (vs, rest) ← items? fuel rest
      some (v :: vs, rest)
    | ']' :: rest => some ([v], rest)
    | _ => none

/-- The entries of an object up to its closing brace. -/
def entries? : Nat → List Char → Option (List (Option String × Json) × List Char)
  | 0, _ => none
  | fuel + 1, cs =>
    match skipSpace cs with
    | '"' :: rest => do
      let (key, rest) ← stringBody? rest
      match skipSpace rest with
      | ':' :: rest => do
        let (v, rest) ← value? fuel rest
        match skipSpace rest with
        | ',' :: rest => do
          let (es, rest) ← entries? fuel rest
          some ((key, v) :: es, rest)
        | '\x7d' :: rest => some ([(key, v)], rest)
        | _ => none
      | _ => none
    | _ => none

end

/-- Read a JSON text: one value with nothing but white space around it. -/
def parse? (text : String) : Option Json :=
  match value? (2 * text.length + 2) text.toList with
  | some (v, rest) => if skipSpace rest = [] then some v else none
  | none => none

end ScriptedViews.Json

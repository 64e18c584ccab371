import ScriptedViews.Json.Value

set_option autoImplicit false

/-! # Writing JSON

The compact form of a JSON value: no white space, and in strings only what must be escaped is. -/

namespace ScriptedViews.Json

/-- A hexadecimal digit, written small. -/
def hexChar (n : Nat) : Char :=
  if n < 10 then Char.ofNat ('0'.toNat + n) else Char.ofNat ('a'.toNat + (n - 10))

/-- How one character stands in a string: quotes, backslashes and control characters are escaped,
    those with a short form by it. -/
def escapeChar (c : Char) : List Char :=
  if c = '"' then ['\\', '"']
  else if c = '\\' then ['\\', '\\']
  else if c = '\x08' then ['\\', 'b']
  else if c = '\x0c' then ['\\', 'f']
  else if c = '\n' then ['\\', 'n']
  else if c = '\r' then ['\\', 'r']
  else if c = '\t' then ['\\', 't']
  else if c.toNat < 0x20 then ['\\', 'u', '0', '0', hexChar (c.toNat / 16), hexChar (c.toNat % 16)]
  else [c]

/-- A string with its quotes. -/
def quote (s : String) : String :=
  "\"" ++ String.ofList (s.toList.flatMap escapeChar) ++ "\""

mutual

/-- The compact text of a value. -/
def render : Json → String
  | .null => "null"
  | .bool b => if b then "true" else "false"
  | .number written => written
  | .str s => quote s
  | .unpaired => "null"
  | .arr items => "[" ++ renderItems items ++ "]"
  | .obj entries => "\x7b" ++ renderEntries entries ++ "\x7d"

/-- The items of a list with commas between them. -/
def renderItems : List Json → String
  | [] => ""
  | [v] => render v
  | v :: vs => render v ++ "," ++ renderItems vs

/-- The entries of an object with commas between them. -/
def renderEntries : List (String × Json) → String
  | [] => ""
  | [(k, v)] => quote k ++ ":" ++ render v
  | (k, v) :: es => quote k ++ ":" ++ render v ++ "," ++ renderEntries es

end

end ScriptedViews.Json

set_option autoImplicit false

/-! # JSON values

A JSON text as a value. Numbers keep the text they were written with, because whether a number has
a point or an exponent decides what it becomes; objects keep their entries in order, repeated keys
included. -/

namespace ScriptedViews

/-- A JSON value. -/
inductive Json where
  | null
  | bool (b : Bool)
  | number (written : String)
  | str (s : String)
  /-- A string that escapes one half of a surrogate pair, so that it is no text, or an object with
      such a key. -/
  | unpaired
  | arr (items : List Json)
  | obj (entries : List (String × Json))
deriving Inhabited, Repr

namespace Json

/-- The entry of an object with the given key; of repeated keys the last one counts. -/
def get? (j : Json) (key : String) : Option Json :=
  match j with
  | .obj entries => (entries.reverse.find? fun e => e.1 == key).map (·.2)
  | _ => none

/-- The text of a string. -/
def text? : Json → Option String
  | .str s => some s
  | _ => none

/-- The value of a truth value. -/
def bool? : Json → Option Bool
  | .bool b => some b
  | _ => none

/-- The items of a list. -/
def list? : Json → Option (List Json)
  | .arr items => some items
  | _ => none

/-- The entries of an object. -/
def object? : Json → Option (List (String × Json))
  | .obj entries => some entries
  | _ => none

end Json

/-- The number that a run of decimal digits stands for. -/
def decimalValue (digits : List Char) : Nat :=
  digits.foldl (fun n c => 10 * n + (c.toNat - '0'.toNat)) 0

namespace Json

/-- The value of a number written with decimal digits alone. -/
def nat? : Json → Option Nat
  | .number written =>
    if written.toList.all Char.isDigit && written ≠ "" then some (decimalValue written.toList)
    else none
  | _ => none

/-- The value of a number written without point and exponent. -/
def int? : Json → Option Int
  | .number written =>
    match written.toList with
    | '-' :: digits => if digits.all Char.isDigit then some (-(decimalValue digits : Int)) else none
    | digits => if digits.all Char.isDigit then some (decimalValue digits : Int) else none
  | _ => none

end Json

end ScriptedViews

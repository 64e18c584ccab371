import ScriptedViews.Script.Arithmetic

set_option autoImplicit false

/-! # Values

What a variable of the script language can hold. Tables, functions made by code, and objects of the
host live on a heap and are held by reference; they are equal only to themselves. Text is bytes. -/

namespace ScriptedViews.Script

/-- The bytes of a text. -/
abbrev Bytes := List UInt8

/-- The bytes that encode a text. -/
def utf8 (s : String) : Bytes :=
  s.toUTF8.data.toList

/-- The functions of the library. -/
inductive Builtin where
  | assert
  | error
  | getmetatable
  | ipairs
  | ipairsStep
  | load
  | next
  | pairs
  | pcall
  | print
  | rawequal
  | rawget
  | rawlen
  | rawset
  | select
  | setmetatable
  | tonumber
  | tostring
  | type
  | stringByte
  | stringChar
  | stringFormat
  | stringLen
  | stringLower
  | stringRep
  | stringReverse
  | stringSub
  | stringUpper
  | tableConcat
  | tableInsert
  | tablePack
  | tableRemove
  | tableSort
  | tableUnpack
  | mathAbs
  | mathCeil
  | mathFloor
  | mathFmod
  | mathMax
  | mathMin
  | mathSqrt
  | mathToInteger
  | mathType
deriving DecidableEq, Repr

/-- What a variable can hold. -/
inductive Value where
  | nil
  | bool (b : Bool)
  | number (n : Number)
  | text (bytes : Bytes)
  /-- The table with this number. -/
  | table (ref : Nat)
  /-- The function made by code with this number. -/
  | function (ref : Nat)
  /-- A function of the library. -/
  | builtin (b : Builtin)
  /-- A function that the host's objects have under this name. -/
  | method (name : Bytes)
  /-- The object of the host with this number. -/
  | object (ref : Nat)
deriving Inhabited

namespace Value

/-- An integer. -/
abbrev int (n : Int64) : Value :=
  .number (.int n)

/-- A floating point number. -/
abbrev float (x : Float) : Value :=
  .number (.float x)

/-- A count as an integer. -/
def ofNat (n : Nat) : Value :=
  .int (Int64.ofInt n)

/-- The text of a string. -/
def ofString (s : String) : Value :=
  .text (utf8 s)

/-! ## Kinds -/

/-- Whether the value is nil. -/
def isNil : Value → Bool
  | .nil => true
  | _ => false

/-- Whether a condition with this value holds: all but nil and false do. -/
def isTrue : Value → Bool
  | .nil => false
  | .bool b => b
  | _ => true

/-- Whether the value is a function of any sort. -/
def isFunction : Value → Bool
  | .function _ => true
  | .builtin _ => true
  | .method _ => true
  | _ => false

/-- The name of the value's type. -/
def typeName : Value → String
  | .nil => "nil"
  | .bool _ => "boolean"
  | .number _ => "number"
  | .text _ => "string"
  | .table _ => "table"
  | .function _ => "function"
  | .builtin _ => "function"
  | .method _ => "function"
  | .object _ => "userdata"

/-! ## Equality -/

/-- Whether two values are equal without asking either of them. -/
def same : Value → Value → Bool
  | .nil, .nil => true
  | .bool a, .bool b => a == b
  | .number a, .number b => a.same b
  | .text a, .text b => a == b
  | .table a, .table b => a == b
  | .function a, .function b => a == b
  | .builtin a, .builtin b => a == b
  | .method a, .method b => a == b
  | .object a, .object b => a == b
  | _, _ => false

/-- A key as tables hold it: a floating point number that is an integer becomes one. -/
def normalKey : Value → Value
  | .number (.float x) =>
    match floatInt? x with
    | some n => .int n
    | none => .float x
  | v => v

/-! ## Conversions -/

/-- The value as a number: a number, or a text that is a numeral. -/
def toNumber? : Value → Option Number
  | .number n => some n
  | .text bytes => readNumber? bytes
  | _ => none

/-- The value as an integer: a number or numeral with an integral value. -/
def toInt? (v : Value) : Option Int64 :=
  v.toNumber?.bind Number.toInt?

/-- The value as text: a text, or a number in its written form. -/
def toText? : Value → Option Bytes
  | .text bytes => some bytes
  | .number n => some (utf8 n.text)
  | _ => none

/-- An address in a text that identifies a value held by reference. -/
def address (ref : Nat) : String :=
  let ds := Nat.toDigits 16 (0x5581a0000000 + 0x40 * ref)
  "0x" ++ String.ofList (List.replicate (14 - ds.length) '0' ++ ds)

/-- A text for any value, without asking it. -/
def describe : Value → Bytes
  | .nil => utf8 "nil"
  | .bool true => utf8 "true"
  | .bool false => utf8 "false"
  | .number n => utf8 n.text
  | .text bytes => bytes
  | .table ref => utf8 ("table: " ++ address ref)
  | .function ref => utf8 ("function: " ++ address (1000000 + ref))
  | .builtin _ => utf8 "function: builtin"
  | .method name => utf8 "function: " ++ name
  | .object ref => utf8 ("userdata: " ++ address (2000000 + ref))

end Value

/-- The first of some values, or nil. -/
def firstValue (vs : List Value) : Value :=
  vs.headD .nil

end ScriptedViews.Script

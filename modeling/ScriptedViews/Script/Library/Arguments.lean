import ScriptedViews.Script.Heap

set_option autoImplicit false

/-! # Arguments

How the functions of the library are named, and how they look at what they were called with. A
function that does not get what it wants fails with a report of which argument is wrong. -/

namespace ScriptedViews.Script

/-- The functions that are global variables. -/
def globalBuiltins : List (String × Builtin) :=
  [("assert", .assert), ("error", .error), ("getmetatable", .getmetatable), ("ipairs", .ipairs),
   ("load", .load), ("next", .next), ("pairs", .pairs), ("pcall", .pcall), ("print", .print),
   ("rawequal", .rawequal), ("rawget", .rawget), ("rawlen", .rawlen), ("rawset", .rawset),
   ("select", .select), ("setmetatable", .setmetatable), ("tonumber", .tonumber),
   ("tostring", .tostring), ("type", .type)]

/-- The functions on texts. -/
def textBuiltins : List (String × Builtin) :=
  [("byte", .stringByte), ("char", .stringChar), ("format", .stringFormat), ("len", .stringLen),
   ("lower", .stringLower), ("rep", .stringRep), ("reverse", .stringReverse), ("sub", .stringSub),
   ("upper", .stringUpper)]

/-- The functions on tables. -/
def tableBuiltins : List (String × Builtin) :=
  [("concat", .tableConcat), ("insert", .tableInsert), ("pack", .tablePack),
   ("remove", .tableRemove), ("sort", .tableSort), ("unpack", .tableUnpack)]

/-- The functions on numbers. -/
def mathBuiltins : List (String × Builtin) :=
  [("abs", .mathAbs), ("ceil", .mathCeil), ("floor", .mathFloor), ("fmod", .mathFmod),
   ("max", .mathMax), ("min", .mathMin), ("sqrt", .mathSqrt), ("tointeger", .mathToInteger),
   ("type", .mathType)]

/-- What reports call a function. -/
def Builtin.name (b : Builtin) : String :=
  let all := globalBuiltins ++ textBuiltins ++ tableBuiltins ++ mathBuiltins
  match all.find? fun e => e.2 == b with
  | some e => e.1
  | none => "?"

/-- The arguments of a call of a library function. -/
structure Arguments where
  /-- The function that was called. -/
  callee : Builtin
  values : List Value

namespace Arguments

/-- An argument, counted from zero; nil if there is none. -/
def get (a : Arguments) (i : Nat) : Value :=
  a.values.getD i .nil

/-- Fail because of an argument. -/
def bad {α : Type} (a : Arguments) (i : Nat) (reason : String) : Except String α :=
  .error ("bad argument #" ++ toString (i + 1) ++ " to '" ++ a.callee.name ++ "' (" ++ reason
    ++ ")")

/-- Fail because an argument is not of the type that it should be. -/
def mistyped {α : Type} (a : Arguments) (i : Nat) (expected : String) : Except String α :=
  let got := if i < a.values.length then (a.get i).typeName else "no value"
  a.bad i (expected ++ " expected, got " ++ got)

/-- An argument that has to be there. -/
def any (a : Arguments) (i : Nat) : Except String Value :=
  if i < a.values.length then .ok (a.get i) else a.bad i "value expected"

/-- An argument that has to be a table. -/
def table (a : Arguments) (i : Nat) : Except String Nat :=
  match a.get i with
  | .table ref => .ok ref
  | _ => a.mistyped i "table"

/-- An argument that has to be a number or a numeral. -/
def number (a : Arguments) (i : Nat) : Except String Number :=
  match (a.get i).toNumber? with
  | some n => .ok n
  | none => a.mistyped i "number"

/-- An argument that has to be an integer in value. -/
def int (a : Arguments) (i : Nat) : Except String Int :=
  match (a.get i).toNumber? with
  | none => a.mistyped i "number"
  | some n =>
    match n.toInt? with
    | some n => .ok n.toInt
    | none => a.bad i ArithmeticError.noInteger.message

/-- An argument that is an integer in value, or left out. -/
def intOr (a : Arguments) (i : Nat) (default : Int) : Except String Int :=
  if (a.get i).isNil then .ok default else a.int i

/-- An argument that has to be a text or a number. -/
def text (a : Arguments) (i : Nat) : Except String Bytes :=
  match (a.get i).toText? with
  | some bytes => .ok bytes
  | none => a.mistyped i "string"

/-- An argument that is a text or a number, or left out. -/
def textOr (a : Arguments) (i : Nat) (default : Bytes) : Except String Bytes :=
  if (a.get i).isNil then .ok default else a.text i

end Arguments

end ScriptedViews.Script

import ScriptedViews.Script.Library.Format
import ScriptedViews.Script.Library.Tables
import ScriptedViews.Script.Library.Text

set_option autoImplicit false

/-! # The library

The functions that need nothing but their arguments and the heap, and the heap that code starts
with. The functions that call other functions, or raise errors of their own, belong to the
machine. -/

namespace ScriptedViews.Script

namespace BasicLibrary

/-- The value of a letter or digit, if it is a digit of a radix. -/
def digit? (radix : Nat) (b : UInt8) : Option Nat :=
  if (isDigitByte b || isAlphaByte b) && b != 0x5f then
    let lower := TextLibrary.lowerByte b
    (some (digitValue lower)).filter (· < radix)
  else none

/-- The integer that digits of a radix stand for, with blanks and a minus sign around them. -/
def readRadix? (radix : Nat) (bytes : Bytes) : Option Int64 :=
  let body := trimBytes bytes
  let (negative, ds) := match body with
    | 0x2d :: ds => (true, ds)
    | ds => (false, ds)
  if ds = [] then none
  else (ds.mapM (digit? radix)).map fun values =>
    let n : Nat := values.foldl (fun n d => n * radix + d) 0
    Int64.ofInt (if negative then -(n : Int) else (n : Int))

/-- A value as a number, or nil. -/
def tonumber (a : Arguments) : Except String (List Value) := do
  if (a.get 1).isNil then
    match (← a.any 0).toNumber? with
    | some n => return [.number n]
    | none => return [.nil]
  else
    let radix ← a.int 1
    match a.get 0 with
    | .text bytes =>
      if 2 ≤ radix ∧ radix ≤ 36 then
        match readRadix? radix.toNat bytes with
        | some n => return [.int n]
        | none => return [.nil]
      else a.bad 1 "base out of range"
    | _ => a.mistyped 0 "string"

/-- The number of the arguments after the first, or those from a position on. -/
def select (a : Arguments) : Except String (List Value) := do
  let rest := a.values.drop 1
  if (match a.get 0 with
    | .text bytes => bytes == ascii "#"
    | _ => false) then return [.ofNat rest.length]
  else
    let n ← a.int 0
    if 0 < n then return rest.drop (n.toNat - 1)
    else if n < 0 ∧ -n ≤ rest.length then return rest.drop (rest.length - (-n).toNat)
    else a.bad 0 "index out of range"

/-- The name of a value's type. -/
def type (a : Arguments) : Except String (List Value) := do
  return [.ofString (← a.any 0).typeName]

end BasicLibrary

/-- What a library function gives for its arguments, and the heap as it leaves it; `none` for the
    functions of the machine. -/
def Arguments.run? {ω : Type} (h : Heap ω) (a : Arguments) :
    Option (Except String (List Value × Heap ω)) :=
  let only (r : Except String (List Value)) : Option (Except String (List Value × Heap ω)) :=
    some (r.map fun vs => (vs, h))
  match a.callee with
  | .getmetatable => some (TableLibrary.getmetatable h a)
  | .next => some (TableLibrary.next h a)
  | .print => only (.ok [])
  | .rawequal => some (TableLibrary.rawequal h a)
  | .rawget => some (TableLibrary.rawget h a)
  | .rawlen => some (TableLibrary.rawlen h a)
  | .rawset => some (TableLibrary.rawset h a)
  | .select => only (BasicLibrary.select a)
  | .setmetatable => some (TableLibrary.setmetatable h a)
  | .tonumber => only (BasicLibrary.tonumber a)
  | .type => only (BasicLibrary.type a)
  | .stringByte => only (TextLibrary.byte a)
  | .stringChar => only (TextLibrary.char a)
  | .stringLen => only (TextLibrary.len a)
  | .stringLower => only (TextLibrary.mapBytes TextLibrary.lowerByte a)
  | .stringRep => only (TextLibrary.rep a)
  | .stringReverse => only (TextLibrary.reverse a)
  | .stringSub => only (TextLibrary.sub a)
  | .stringUpper => only (TextLibrary.mapBytes TextLibrary.upperByte a)
  | .tableConcat => some (TableLibrary.concat h a)
  | .tableInsert => some (TableLibrary.insert h a)
  | .tablePack => some (TableLibrary.pack h a)
  | .tableRemove => some (TableLibrary.remove h a)
  | .tableUnpack => some (TableLibrary.unpack h a)
  | .mathAbs => only (MathLibrary.abs a)
  | .mathCeil => only (MathLibrary.rounded Float.ceil a)
  | .mathFloor => only (MathLibrary.rounded Float.floor a)
  | .mathFmod => only (MathLibrary.fmod a)
  | .mathMax => only (MathLibrary.extreme (fun w v => MathLibrary.less v w) a)
  | .mathMin => only (MathLibrary.extreme MathLibrary.less a)
  | .mathSqrt => only (MathLibrary.sqrt a)
  | .mathToInteger => only (MathLibrary.toInteger a)
  | .mathType => only (MathLibrary.type a)
  | _ => none

namespace Heap

/-! ## The start -/

/-- The tables that code starts with: the global variables, the metatable of texts, the parts of
    the library, and the metatable of lists that the host makes. -/
def libraryTables : Array Table :=
  let functions (fs : List (String × Builtin)) : List (String × Value) :=
    fs.map fun f => (f.1, .builtin f.2)
  #[.ofEntries (functions globalBuiltins ++ [("_G", .table 0), ("_VERSION", .ofString "Lua 5.4"),
      ("string", .table 2), ("table", .table 3), ("math", .table 4)]),
    .ofEntries [("__index", .table 2)],
    .ofEntries (functions textBuiltins),
    .ofEntries (functions tableBuiltins),
    .ofEntries (functions mathBuiltins ++ [("huge", .float (1.0 / 0.0)),
      ("maxinteger", .int Int64.maxValue), ("mininteger", .int Int64.minValue),
      ("pi", .float 3.141592653589793)]),
    .ofEntries [("__metatable", .bool false)]]

/-- The heap that code starts with. -/
def start {ω : Type} : Heap ω :=
  { tables := libraryTables }

end Heap

end ScriptedViews.Script

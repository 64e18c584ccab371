import ScriptedViews.Script.Library.Arguments

set_option autoImplicit false

/-! # Functions on numbers -/

namespace ScriptedViews.Script.MathLibrary

/-- A floating point number without a fraction, as an integer if it fits. -/
def integral (x : Float) : Value :=
  match floatInt? x with
  | some n => .int n
  | none => .float x

/-- A number rounded to an integer by `f`. -/
def rounded (f : Float → Float) (a : Arguments) : Except String (List Value) := do
  match a.get 0 with
  | .number (.int n) => return [.int n]
  | _ => return [integral (f (← a.number 0).toFloat)]

/-- A number without its sign. -/
def abs (a : Arguments) : Except String (List Value) := do
  match ← a.number 0 with
  | .int n => return [.int (if n < 0 then 0 - n else n)]
  | .float x => return [.float x.abs]

/-- The remainder with the sign of the dividend. -/
def fmod (a : Arguments) : Except String (List Value) := do
  match ← a.number 0, ← a.number 1 with
  | .int n, .int m =>
    if m = 0 then a.bad 1 "zero" else return [.int (Int64.ofInt (n.toInt.tmod m.toInt))]
  | n, m =>
    let (x, y) := (n.toFloat, m.toFloat)
    let r := match ScriptedViews.Number.kind x, ScriptedViews.Number.kind y with
      | .finite, .infinite => x
      | .finite, .finite => if y == 0.0 then 0.0 / 0.0 else ScriptedViews.Number.remainder x y
      | _, _ => 0.0 / 0.0
    return [.float r]

/-- The square root. -/
def sqrt (a : Arguments) : Except String (List Value) := do
  return [.float (← a.number 0).toFloat.sqrt]

/-- The integer that a number is, or nil. -/
def toInteger (a : Arguments) : Except String (List Value) := do
  match (← a.any 0).toInt? with
  | some n => return [.int n]
  | none => return [.nil]

/-- Which kind of number a value is, or nil. -/
def type (a : Arguments) : Except String (List Value) := do
  match ← a.any 0 with
  | .number (.int _) => return [.ofString "integer"]
  | .number (.float _) => return [.ofString "float"]
  | _ => return [.nil]

/-- Whether the first of two values is the smaller one: numbers by value, texts byte by byte. -/
def less (a b : Value) : Except String Bool :=
  match a, b with
  | .number x, .number y => .ok (x.less y)
  | .text x, .text y => .ok (decide (x < y))
  | a, b => .error ("attempt to compare " ++ a.typeName ++ " with " ++ b.typeName)

/-- The value that is best of all: `better b a` tells whether `b` takes the place of `a`. -/
def best (better : Value → Value → Except String Bool) :
    Value → List Value → Except String (List Value)
  | v, [] => .ok [v]
  | v, w :: rest => do
    if ← better w v then best better w rest else best better v rest

/-- The largest or smallest of the arguments. -/
def extreme (better : Value → Value → Except String Bool) (a : Arguments) :
    Except String (List Value) :=
  match a.values with
  | [] => a.mistyped 0 "number"
  | v :: rest => best better v rest

end ScriptedViews.Script.MathLibrary

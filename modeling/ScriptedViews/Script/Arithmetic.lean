import ScriptedViews.Script.Numeral

set_option autoImplicit false

/-! # Arithmetic

What the operators do to numbers. Two integers stay integers and wrap around; as soon as one
operand is a floating point number, both are. Division and powers always work on floating point
numbers, and the operators on bits always on integers. Integers and floating point numbers are
compared by their exact values. -/

namespace ScriptedViews.Script

/-- The operators that take two numbers to a number. -/
inductive ArithmeticOp where
  | add
  | sub
  | mul
  | mod
  | pow
  | div
  | floorDiv
  | bitAnd
  | bitOr
  | bitXor
  | shiftLeft
  | shiftRight
deriving DecidableEq, Repr

/-- Why an operator gives no number. -/
inductive ArithmeticError where
  | floorDivByZero
  | modByZero
  | noInteger
deriving DecidableEq, Repr

/-- The text that reports the error. -/
def ArithmeticError.message : ArithmeticError → String
  | .floorDivByZero => "attempt to perform 'n//0'"
  | .modByZero => "attempt to perform 'n%%0'"
  | .noInteger => "number has no integer representation"

/-- Whether an operator works on bits. -/
def ArithmeticOp.isBitwise : ArithmeticOp → Bool
  | .bitAnd | .bitOr | .bitXor | .shiftLeft | .shiftRight => true
  | _ => false

/-! ## Integers and floating point numbers -/

/-- Whether an integer fits into 64 bits. -/
def fitsInt (n : Int) : Bool :=
  -(maxInt + 1) ≤ n && n ≤ maxInt

/-- The integer that a floating point number is, if it is one and fits. -/
def floatInt? (x : Float) : Option Int64 :=
  match Number.kind x with
  | .finite => ((Number.decode x).int?.filter fitsInt).map Int64.ofInt
  | _ => none

namespace Number

/-- The number as a floating point number. -/
def toFloat : Number → Float
  | .int n => n.toFloat
  | .float x => x

/-- The number as an integer, if it is one. -/
def toInt? : Number → Option Int64
  | .int n => some n
  | .float x => floatInt? x

/-! ## Operators -/

/-- The remainder with the sign of the divisor. -/
def floatMod (x y : Float) : Float :=
  match Number.kind x, Number.kind y with
  | .finite, .infinite =>
    if x == 0.0 || Number.isNegative x == Number.isNegative y then x else y
  | .finite, .finite =>
    if y == 0.0 then 0.0 / 0.0
    else
      let m := Number.remainder x y
      if (0.0 < m && y < 0.0) || (m < 0.0 && 0.0 < y) then m + y else m
  | _, _ => 0.0 / 0.0

/-- The power; a square is a product. -/
def floatPow (x y : Float) : Float :=
  if y == 2.0 then x * x else x.pow y

/-- Bits moved to the left, or to the right if the amount is negative. Zeros come in from both
    sides. -/
def shift (n : Int64) (amount : Int) : Int64 :=
  let bits := n.toUInt64.toNat
  if 0 ≤ amount then
    if amount < 64 then (UInt64.ofNat (bits <<< amount.toNat)).toInt64 else 0
  else if -64 < amount then (UInt64.ofNat (bits >>> (-amount).toNat)).toInt64
  else 0

/-- An operator on bits. -/
def bitwise : ArithmeticOp → Int64 → Int64 → Int64
  | .bitAnd, a, b => a &&& b
  | .bitOr, a, b => a ||| b
  | .bitXor, a, b => a ^^^ b
  | .shiftLeft, a, b => shift a b.toInt
  | _, a, b => shift a (-b.toInt)

/-- An operator on numbers of one kind each. -/
def combine (onInts : Int64 → Int64 → Int64) (onFloats : Float → Float → Float) :
    Number → Number → Number
  | .int a, .int b => .int (onInts a b)
  | a, b => .float (onFloats a.toFloat b.toFloat)

/-- The quotient rounded down, or the remainder of that division. -/
def divide (onInts : Int → Int → Int) (byZero : ArithmeticError)
    (onFloats : Float → Float → Float) : Number → Number → Except ArithmeticError Number
  | .int a, .int b =>
    if b = 0 then .error byZero else .ok (.int (Int64.ofInt (onInts a.toInt b.toInt)))
  | a, b => .ok (.float (onFloats a.toFloat b.toFloat))

/-- What an operator makes of two numbers. -/
def apply (op : ArithmeticOp) (a b : Number) : Except ArithmeticError Number :=
  match op with
  | .add => .ok (combine (· + ·) (· + ·) a b)
  | .sub => .ok (combine (· - ·) (· - ·) a b)
  | .mul => .ok (combine (· * ·) (· * ·) a b)
  | .div => .ok (.float (a.toFloat / b.toFloat))
  | .pow => .ok (.float (floatPow a.toFloat b.toFloat))
  | .mod => divide Int.fmod .modByZero floatMod a b
  | .floorDiv => divide Int.fdiv .floorDivByZero (fun x y => (x / y).floor) a b
  | op =>
    match a.toInt?, b.toInt? with
    | some a, some b => .ok (.int (bitwise op a b))
    | _, _ => .error .noInteger

/-- The number with the other sign. -/
def negate : Number → Number
  | .int n => .int (0 - n)
  | .float x => .float (-x)

/-! ## Comparison -/

/-- How an integer compares with a floating point number; not at all if that is no number. -/
def compareMixed (n : Int64) (x : Float) : Option Ordering :=
  match Number.kind x with
  | .nan => none
  | .infinite => some (if Number.isNegative x then .gt else .lt)
  | .finite => some ((Number.decode x).compareInt n.toInt).swap

/-- How two numbers compare. -/
def compare? : Number → Number → Option Ordering
  | .int a, .int b => some (compare a.toInt b.toInt)
  | .int a, .float y => compareMixed a y
  | .float x, .int b => (compareMixed b x).map Ordering.swap
  | .float x, .float y =>
    if x < y then some .lt else if y < x then some .gt else if x == y then some .eq else none

/-- Whether two numbers are equal in value. -/
def same (a b : Number) : Bool :=
  a.compare? b == some .eq

/-- Whether the first number is the smaller one. -/
def less (a b : Number) : Bool :=
  a.compare? b == some .lt

/-- Whether the first number is not the larger one. -/
def atMost (a b : Number) : Bool :=
  a.less b || a.same b

end Number

end ScriptedViews.Script

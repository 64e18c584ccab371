set_option autoImplicit false

/-! # Floating point numbers exactly

A finite floating point number is an integer times a power of two. As such it can be rounded to any
number of decimal digits, compared with an integer, and divided with a remainder, all without
error. -/

namespace ScriptedViews.Number

/-! ## Decoding -/

/-- What a floating point number is. -/
inductive Kind where
  | nan
  | infinite
  | finite
deriving DecidableEq, Repr

/-- The number `mantissa * 2 ^ exponent`, with a sign of its own so that zero can have one. -/
structure Dyadic where
  negative : Bool
  mantissa : Nat
  exponent : Int
deriving DecidableEq, Repr

/-- The eleven bits of the exponent. -/
def exponentBits (x : Float) : Nat :=
  (x.toBits.toNat >>> 52) % 0x800

/-- The fifty-two bits of the fraction. -/
def fractionBits (x : Float) : Nat :=
  x.toBits.toNat % 0x10000000000000

/-- Whether the sign bit is set. -/
def isNegative (x : Float) : Bool :=
  0x8000000000000000 ≤ x.toBits.toNat

/-- What the number is. -/
def kind (x : Float) : Kind :=
  if exponentBits x = 2047 then (if fractionBits x = 0 then .infinite else .nan) else .finite

/-- The value of a finite number. -/
def decode (x : Float) : Dyadic :=
  if exponentBits x = 0 then ⟨isNegative x, fractionBits x, -1074⟩
  else ⟨isNegative x, fractionBits x + 0x10000000000000, (exponentBits x : Int) - 1075⟩

namespace Dyadic

/-- The magnitude as a fraction. -/
def fraction (d : Dyadic) : Nat × Nat :=
  if 0 ≤ d.exponent then (d.mantissa <<< d.exponent.toNat, 1)
  else (d.mantissa, 1 <<< (-d.exponent).toNat)

/-- The integer that the number is, if it is one. -/
def int? (d : Dyadic) : Option Int :=
  let (num, den) := d.fraction
  if num % den = 0 then
    some (if d.negative then -((num / den : Nat) : Int) else ((num / den : Nat) : Int))
  else none

/-- How the number compares with an integer. -/
def compareInt (d : Dyadic) (n : Int) : Ordering :=
  let (num, den) := d.fraction
  compare (if d.negative then -(num : Int) else (num : Int)) (n * (den : Int))

end Dyadic

/-- The number nearest to `mantissa * 2 ^ exponent`. -/
def encode (negative : Bool) (mantissa : Nat) (exponent : Int) : Float :=
  let magnitude := (Float.ofNat mantissa).scaleB exponent
  if negative then -magnitude else magnitude

/-- The remainder of `x` by `y` with the sign of `x`: exact, since it is a multiple of the smaller
    unit of the two. -/
def remainder (x y : Float) : Float :=
  let (a, b) := (decode x, decode y)
  let e := min a.exponent b.exponent
  let m := (a.mantissa <<< (a.exponent - e).toNat) % (b.mantissa <<< (b.exponent - e).toNat)
  encode a.negative m e

/-! ## Decimal digits -/

/-- The integer nearest to a fraction; a tie goes to the even one. -/
def roundDiv (num den : Nat) : Nat :=
  let q := num / den
  let twice := 2 * (num % den)
  if twice < den then q
  else if den < twice then q + 1
  else if q % 2 = 0 then q else q + 1

/-- Whether `10 ^ x` is at most the fraction. -/
def powerAtMost (x : Int) (num den : Nat) : Bool :=
  if 0 ≤ x then den * Nat.pow 10 x.toNat ≤ num else den ≤ num * Nat.pow 10 (-x).toNat

/-- The largest `x`, from `start` on, for which `10 ^ x` is at most the fraction. The fuel bounds
    the steps. -/
def climb (num den : Nat) : Nat → Int → Int
  | 0, x => x
  | fuel + 1, x => if powerAtMost (x + 1) num den then climb num den fuel (x + 1) else x

/-- The exponent of the first decimal digit of a positive fraction. -/
def decimalExponent (num den : Nat) : Int :=
  let binary : Int := (Nat.log2 num : Int) - (Nat.log2 den : Int)
  climb num den 8 ((binary - 1) * 30103 / 100000 - 2)

/-- The first `count` decimal digits of a positive fraction, rounded, as one number, with the
    exponent of the first of them. -/
def leadingDigits (count : Nat) (num den : Nat) : Nat × Int :=
  let x := decimalExponent num den
  let shift : Int := (count : Int) - 1 - x
  let n := if 0 ≤ shift then roundDiv (num * Nat.pow 10 shift.toNat) den
    else roundDiv num (den * Nat.pow 10 (-shift).toNat)
  if n = Nat.pow 10 count then (Nat.pow 10 (count - 1), x + 1) else (n, x)

/-- The decimal digits of a number, with zeros in front up to the given width. -/
def digitsOf (width n : Nat) : List Char :=
  let ds := Nat.toDigits 10 n
  List.replicate (width - ds.length) '0' ++ ds

/-- A fraction with a fixed number of places after the point, rounded. -/
def fixedText (places num den : Nat) : List Char :=
  let ds := digitsOf (places + 1) (roundDiv (num * Nat.pow 10 places) den)
  let whole := ds.take (ds.length - places)
  if places = 0 then whole else whole ++ '.' :: ds.drop (ds.length - places)

/-- A decimal exponent with its sign and at least two digits. -/
def exponentText (x : Int) : List Char :=
  'e' :: (if x < 0 then '-' else '+') :: digitsOf 2 x.natAbs

/-- A fraction as one digit, a given number of places after the point, and an exponent. -/
def scientificText (places num den : Nat) : List Char :=
  let (n, x) := if num = 0 then (0, 0) else leadingDigits (places + 1) num den
  let ds := digitsOf (places + 1) n
  ds.take 1 ++ (if places = 0 then [] else '.' :: ds.drop 1) ++ exponentText x

/-- A text with a point in it, without the zeros at its end. -/
def dropZeros (cs : List Char) : List Char :=
  if cs.contains '.' then
    ((cs.reverse.dropWhile (· = '0')).dropWhile (· = '.')).reverse
  else cs

/-- A fraction with the given number of significant digits and no zeros at the end, written with an
    exponent where the first digit is far from the point. -/
def generalText (digits num den : Nat) : List Char :=
  if num = 0 then ['0']
  else
    let (n, x) := leadingDigits digits num den
    let ds := digitsOf digits n
    if x < -4 ∨ (digits : Int) ≤ x then
      dropZeros (ds.take 1 ++ '.' :: ds.drop 1) ++ exponentText x
    else if 0 ≤ x then
      dropZeros (ds.take (x.toNat + 1) ++ '.' :: ds.drop (x.toNat + 1))
    else dropZeros ('0' :: '.' :: (List.replicate ((-x).toNat - 1) '0' ++ ds))

end ScriptedViews.Number

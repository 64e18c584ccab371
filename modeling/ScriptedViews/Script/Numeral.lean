import ScriptedViews.Number.Dyadic

set_option autoImplicit false

/-! # Numerals

Numbers of the script language as text: reading a numeral, whether it stands in source or in a
string that is used as a number, and writing a number. A numeral is an integer if it looks like one
and fits; hexadecimal integers wrap around; every other numeral is a floating point number. -/

namespace ScriptedViews.Script

/-- A number: a 64-bit integer or a floating point number. -/
inductive Number where
  | int (n : Int64)
  | float (x : Float)

/-! ## Bytes -/

/-- Space, tab, and the line and page ends. -/
def isSpaceByte (b : UInt8) : Bool :=
  b == 0x20 || (0x09 ≤ b && b ≤ 0x0d)

/-- A decimal digit. -/
def isDigitByte (b : UInt8) : Bool :=
  0x30 ≤ b && b ≤ 0x39

/-- A hexadecimal digit. -/
def isHexByte (b : UInt8) : Bool :=
  isDigitByte b || (0x61 ≤ b && b ≤ 0x66) || (0x41 ≤ b && b ≤ 0x46)

/-- A letter or an underscore. -/
def isAlphaByte (b : UInt8) : Bool :=
  (0x61 ≤ b && b ≤ 0x7a) || (0x41 ≤ b && b ≤ 0x5a) || b == 0x5f

/-- The value of a digit or letter as a digit of a large radix. -/
def digitValue (b : UInt8) : Nat :=
  if isDigitByte b then b.toNat - 0x30
  else if 0x61 ≤ b then b.toNat - 0x61 + 10
  else b.toNat - 0x41 + 10

/-- The number that digits stand for. -/
def digitsValue (radix : Nat) (ds : List UInt8) : Nat :=
  ds.foldl (fun n b => n * radix + digitValue b) 0

/-- The ASCII bytes of a text. -/
def ascii (s : String) : List UInt8 :=
  s.toList.map fun c => UInt8.ofNat c.toNat

/-! ## Reading -/

/-- Text without white space at either end. -/
def trimBytes (bs : List UInt8) : List UInt8 :=
  ((bs.dropWhile isSpaceByte).reverse.dropWhile isSpaceByte).reverse

/-- A sign, if there is one, and the rest. -/
def splitSign : List UInt8 → Bool × List UInt8
  | b :: bs => if b = 0x2d then (true, bs) else if b = 0x2b then (false, bs) else (false, b :: bs)
  | [] => (false, [])

/-- What follows the mark of a hexadecimal numeral. -/
def hexBody? : List UInt8 → Option (List UInt8)
  | a :: b :: bs => if a = 0x30 ∧ (b = 0x78 ∨ b = 0x58) then some bs else none
  | _ => none

/-- The largest integer. -/
def maxInt : Int := 0x7fffffffffffffff

/-- An integer numeral: hexadecimal digits, or decimal ones that fit. -/
def readInt? (text : List UInt8) : Option Int64 :=
  let (negative, body) := splitSign (trimBytes text)
  match hexBody? body with
  | some ds =>
    if ds ≠ [] ∧ ds.all isHexByte then
      let n : Int := digitsValue 16 ds
      some (Int64.ofInt (if negative then -n else n))
    else none
  | none =>
    if body ≠ [] ∧ body.all isDigitByte then
      let n : Int := digitsValue 10 body
      if n ≤ maxInt ∨ (negative ∧ n = maxInt + 1) then
        some (Int64.ofInt (if negative then -n else n))
      else none
    else none

/-- Digits before and after a point, and what follows them. -/
def splitPoint (isDigit : UInt8 → Bool) (bs : List UInt8) :
    List UInt8 × List UInt8 × List UInt8 :=
  let whole := bs.takeWhile isDigit
  match bs.dropWhile isDigit with
  | 0x2e :: rest => (whole, rest.takeWhile isDigit, rest.dropWhile isDigit)
  | rest => (whole, [], rest)

/-- An exponent after one of two marks; without one it is zero, and anything else is no exponent. -/
def exponent? (mark : UInt8) : List UInt8 → Option Int
  | [] => some 0
  | b :: bs =>
    if b = mark ∨ b = mark - 0x20 then
      let (negative, ds) := splitSign bs
      if ds ≠ [] ∧ ds.all isDigitByte then
        let n : Int := digitsValue 10 ds
        some (if negative then -n else n)
      else none
    else none

/-- The floating point number nearest to `mantissa * 10 ^ e`. -/
def scaleDecimal (mantissa : Nat) (e : Int) : Float :=
  let size : Int := ((Nat.toDigits 10 mantissa).length : Int) + e
  if mantissa = 0 then 0.0
  else if 400 < size then 1.0 / 0.0
  else if size < -400 then 0.0
  else if 0 ≤ e then Float.ofScientific (mantissa * Nat.pow 10 e.toNat) false 0
  else Float.ofScientific mantissa true (-e).toNat

/-- The floating point number nearest to `mantissa * 2 ^ e`. -/
def scaleBinary (mantissa : Nat) (e : Int) : Float :=
  let size : Int := (Nat.log2 mantissa : Int) + e
  if mantissa = 0 then 0.0
  else if 1100 < size then 1.0 / 0.0
  else if size < -1200 then 0.0
  else (Float.ofNat mantissa).scaleB e

/-- A floating point numeral, decimal or hexadecimal. -/
def readFloat? (text : List UInt8) : Option Float :=
  let (negative, body) := splitSign (trimBytes text)
  let magnitude? := match hexBody? body with
    | some ds =>
      let (whole, fraction, rest) := splitPoint isHexByte ds
      if whole = [] ∧ fraction = [] then none
      else (exponent? 0x70 rest).map fun e =>
        scaleBinary (digitsValue 16 (whole ++ fraction)) (e - 4 * fraction.length)
    | none =>
      let (whole, fraction, rest) := splitPoint isDigitByte body
      if whole = [] ∧ fraction = [] then none
      else (exponent? 0x65 rest).map fun e =>
        scaleDecimal (digitsValue 10 (whole ++ fraction)) (e - fraction.length)
  magnitude?.map fun m => if negative then -m else m

/-- A numeral with white space around it. -/
def readNumber? (text : List UInt8) : Option Number :=
  match readInt? text with
  | some n => some (.int n)
  | none => (readFloat? text).map .float

/-! ## Writing -/

/-- Put a minus sign in front of a text. -/
def signed (negative : Bool) (cs : List Char) : List Char :=
  if negative then '-' :: cs else cs

/-- A floating point number with fourteen significant digits, as `format` writes one. -/
def floatDigits (x : Float) : List Char :=
  match Number.kind x with
  | .nan => ['-', 'n', 'a', 'n']
  | .infinite => signed (Number.isNegative x) ['i', 'n', 'f']
  | .finite =>
    let d := Number.decode x
    signed d.negative (Number.generalText 14 d.fraction.1 d.fraction.2)

/-- A floating point number as text: one that looks like an integer gets a point and a zero. -/
def floatText (x : Float) : String :=
  let cs := floatDigits x
  String.ofList (if cs.all fun c => c.isDigit || c == '-' then cs ++ ['.', '0'] else cs)

/-- An integer as text. -/
def intText (n : Int64) : String :=
  toString n.toInt

/-- A number as text. -/
def Number.text : Number → String
  | .int n => intText n
  | .float x => floatText x

end ScriptedViews.Script

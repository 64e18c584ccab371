import ScriptedViews.Script.Library.Arguments

set_option autoImplicit false

/-! # Functions on texts

Texts are bytes, counted from one; a negative position counts from the end. -/

namespace ScriptedViews.Script.TextLibrary

/-- A position where a part of a text starts. -/
def startPosition (position length : Int) : Int :=
  if 0 < position then position
  else if position = 0 ∨ position < -length then 1
  else length + position + 1

/-- A position where a part of a text ends. -/
def endPosition (position length : Int) : Int :=
  if length < position then length
  else if 0 ≤ position then position
  else if position < -length then 0
  else length + position + 1

/-- The part of a text between two positions, both included. -/
def slice (bytes : Bytes) (first last : Int) : Bytes :=
  let first := startPosition first bytes.length
  let last := endPosition last bytes.length
  if last < first then [] else (bytes.drop (first - 1).toNat).take (last - first + 1).toNat

/-- The values of the bytes between two positions. -/
def byte (a : Arguments) : Except String (List Value) := do
  let bytes ← a.text 0
  let first ← a.intOr 1 1
  let last ← a.intOr 2 first
  return (slice bytes first last).map fun b => .ofNat b.toNat

/-- The byte with a value. -/
def toByte (a : Arguments) (i : Nat) : Except String UInt8 := do
  let n ← a.int i
  if 0 ≤ n ∧ n ≤ 255 then return UInt8.ofNat n.toNat else a.bad i "value out of range"

/-- A text of bytes with given values. -/
def char (a : Arguments) : Except String (List Value) := do
  let bytes ← (List.range a.values.length).mapM (toByte a)
  return [.text bytes]

/-- The number of bytes. -/
def len (a : Arguments) : Except String (List Value) := do
  return [.ofNat (← a.text 0).length]

/-- A part of a text. -/
def sub (a : Arguments) : Except String (List Value) := do
  let bytes ← a.text 0
  let first ← a.int 1
  let last ← a.intOr 2 (-1)
  return [.text (slice bytes first last)]

/-- The text with its bytes changed one by one. -/
def mapBytes (f : UInt8 → UInt8) (a : Arguments) : Except String (List Value) := do
  return [.text ((← a.text 0).map f)]

/-- The capital letter for a letter. -/
def upperByte (b : UInt8) : UInt8 :=
  if 0x61 ≤ b ∧ b ≤ 0x7a then b - 0x20 else b

/-- The small letter for a letter. -/
def lowerByte (b : UInt8) : UInt8 :=
  if 0x41 ≤ b ∧ b ≤ 0x5a then b + 0x20 else b

/-- The bytes of a text in the opposite order. -/
def reverse (a : Arguments) : Except String (List Value) := do
  return [.text (← a.text 0).reverse]

/-- The largest text that there is memory for. -/
def maxLength : Nat := 0x80000000

/-- A text many times over, with another between its copies. -/
def rep (a : Arguments) : Except String (List Value) := do
  let bytes ← a.text 0
  let count ← a.int 1
  let separator ← a.textOr 2 []
  let n := count.toNat
  if maxLength < n * (bytes.length + separator.length) then .error "resulting string too large"
  else if n = 0 then return [.text []]
  else return [.text (bytes ++ (List.replicate (n - 1) (separator ++ bytes)).flatten)]

end ScriptedViews.Script.TextLibrary

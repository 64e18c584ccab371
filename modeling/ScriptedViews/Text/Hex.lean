import ScriptedViews.Json.Reader
import ScriptedViews.Json.Writer

set_option autoImplicit false

/-! # Hexadecimal text

Bytes that are no text, and the bits of numbers, as hexadecimal digits. -/

namespace ScriptedViews.Text

/-- A byte as two digits. -/
def hexByte (b : UInt8) : List Char :=
  [Json.hexChar (b.toNat / 16), Json.hexChar (b.toNat % 16)]

/-- Bytes as digits. -/
def encodeHex (bytes : List UInt8) : String :=
  String.ofList (bytes.flatMap hexByte)

/-- The bytes that digits stand for. -/
def decodeHex? : List Char → Option (List UInt8)
  | [] => some []
  | a :: b :: cs => do
    let a ← Json.hexDigit? a
    let b ← Json.hexDigit? b
    let rest ← decodeHex? cs
    some (UInt8.ofNat (16 * a + b) :: rest)
  | _ => none

/-- A number below 2 ^ 64 as sixteen digits. -/
def hexWord (n : Nat) : String :=
  let ds := Nat.toDigits 16 n
  String.ofList (List.replicate (16 - ds.length) '0' ++ ds)

end ScriptedViews.Text

set_option autoImplicit false

/-! # UTF-8

Reading bytes as text. A reader either refuses bytes that are no text, and says where and why, or
puts a replacement character wherever they are none. Both rest on one function that looks at the
start of the bytes. -/

namespace ScriptedViews.Text

/-- The bytes that may follow a leading byte, as inclusive ranges: none for ASCII, and no answer
    for a byte that leads nothing. -/
def tailRanges (b : UInt8) : Option (List (UInt8 × UInt8)) :=
  if b < 0x80 then some []
  else if 0xc2 ≤ b ∧ b ≤ 0xdf then some [(0x80, 0xbf)]
  else if b = 0xe0 then some [(0xa0, 0xbf), (0x80, 0xbf)]
  else if b = 0xed then some [(0x80, 0x9f), (0x80, 0xbf)]
  else if 0xe1 ≤ b ∧ b ≤ 0xef then some [(0x80, 0xbf), (0x80, 0xbf)]
  else if b = 0xf0 then some [(0x90, 0xbf), (0x80, 0xbf), (0x80, 0xbf)]
  else if 0xf1 ≤ b ∧ b ≤ 0xf3 then some [(0x80, 0xbf), (0x80, 0xbf), (0x80, 0xbf)]
  else if b = 0xf4 then some [(0x80, 0x8f), (0x80, 0xbf), (0x80, 0xbf)]
  else none

/-- The part of a code point that a leading byte with `tails` bytes after it carries. -/
def leadValue (b : UInt8) (tails : Nat) : Nat :=
  match tails with
  | 0 => b.toNat
  | 1 => b.toNat % 0x20
  | 2 => b.toNat % 0x10
  | _ => b.toNat % 0x08

/-- What stands at the start of some bytes. -/
inductive Utf8Head where
  /-- A character, and the bytes after it. -/
  | char (c : Char) (rest : List UInt8)
  /-- `count` bytes that start no character, and the bytes after them. -/
  | invalid (count : Nat) (rest : List UInt8)
  /-- The bytes end inside a character. -/
  | incomplete
deriving Repr

/-- Read the bytes after a leading byte. `value` is the code point so far, `count` the number of
    bytes read. -/
def readTail (value count : Nat) : List (UInt8 × UInt8) → List UInt8 → Utf8Head
  | [], rest => .char (Char.ofNat value) rest
  | _ :: _, [] => .incomplete
  | (lo, hi) :: ranges, b :: rest =>
    if lo ≤ b ∧ b ≤ hi then readTail (value * 0x40 + b.toNat % 0x40) (count + 1) ranges rest
    else .invalid count (b :: rest)

/-- What stands at the start of bytes whose first is `b`. -/
def utf8Head (b : UInt8) (rest : List UInt8) : Utf8Head :=
  match tailRanges b with
  | none => .invalid 1 rest
  | some ranges => readTail (leadValue b ranges.length) 1 ranges rest

/-- Where and how bytes fail to be text. -/
structure Utf8Error where
  /-- The number of bytes before it that are text. -/
  index : Nat
  /-- The number of bytes that start no character; none if the bytes end inside one. -/
  count : Option Nat
deriving DecidableEq, Repr

/-- The text that reports the error. -/
def Utf8Error.message (e : Utf8Error) : String :=
  match e.count with
  | some n => "invalid utf-8 sequence of " ++ toString n ++ " bytes from index " ++ toString e.index
  | none => "incomplete utf-8 byte sequence from index " ++ toString e.index

/-- Read bytes as text. The fuel bounds the number of characters; `index` bytes stand before. -/
def decodeFrom : Nat → Nat → List UInt8 → Except Utf8Error (List Char)
  | 0, _, _ => .ok []
  | _ + 1, _, [] => .ok []
  | fuel + 1, index, b :: bs =>
    match utf8Head b bs with
    | .char c rest => (decodeFrom fuel (index + ((b :: bs).length - rest.length)) rest).map (c :: ·)
    | .invalid count _ => .error ⟨index, some count⟩
    | .incomplete => .error ⟨index, none⟩

/-- Read bytes as text. -/
def decodeUtf8 (bytes : ByteArray) : Except Utf8Error String :=
  (decodeFrom bytes.size 0 bytes.toList).map String.ofList

/-- Read bytes as text, with one replacement character for each stretch that is none. -/
def decodeLossyFrom : Nat → List UInt8 → List Char
  | 0, _ => []
  | _ + 1, [] => []
  | fuel + 1, b :: bs =>
    match utf8Head b bs with
    | .char c rest => c :: decodeLossyFrom fuel rest
    | .invalid _ rest => '\ufffd' :: decodeLossyFrom fuel rest
    | .incomplete => ['\ufffd']

/-- Read bytes as text, with one replacement character for each stretch that is none. -/
def decodeLossy (bytes : ByteArray) : String :=
  String.ofList (decodeLossyFrom bytes.size bytes.toList)

end ScriptedViews.Text

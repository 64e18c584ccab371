import ScriptedViews.Script.Value

set_option autoImplicit false

/-! # Tokens

Source of the script language as words, names, numerals, string literals and signs. A token holds
the line it ends on. Where source stops making sense the last token says why, so that whoever reads
the tokens meets that failure in its turn. -/

namespace ScriptedViews.Script

/-- Reserved words and signs. -/
inductive Sign where
  | kwAnd
  | kwBreak
  | kwDo
  | kwElse
  | kwElseif
  | kwEnd
  | kwFalse
  | kwFor
  | kwFunction
  | kwGoto
  | kwIf
  | kwIn
  | kwLocal
  | kwNil
  | kwNot
  | kwOr
  | kwRepeat
  | kwReturn
  | kwThen
  | kwTrue
  | kwUntil
  | kwWhile
  | plus
  | minus
  | star
  | slash
  | doubleSlash
  | percent
  | caret
  | hash
  | ampersand
  | tilde
  | bar
  | doubleLess
  | doubleGreater
  | doubleEqual
  | tildeEqual
  | lessEqual
  | greaterEqual
  | less
  | greater
  | equal
  | leftParen
  | rightParen
  | leftBrace
  | rightBrace
  | leftBracket
  | rightBracket
  | doubleColon
  | semicolon
  | colon
  | comma
  | dot
  | doubleDot
  | ellipsis
deriving DecidableEq, Repr

/-- The reserved words. -/
def reservedWords : List (Bytes × Sign) :=
  [("and", .kwAnd), ("break", .kwBreak), ("do", .kwDo), ("else", .kwElse), ("elseif", .kwElseif),
   ("end", .kwEnd), ("false", .kwFalse), ("for", .kwFor), ("function", .kwFunction),
   ("goto", .kwGoto), ("if", .kwIf), ("in", .kwIn), ("local", .kwLocal), ("nil", .kwNil),
   ("not", .kwNot), ("or", .kwOr), ("repeat", .kwRepeat), ("return", .kwReturn),
   ("then", .kwThen), ("true", .kwTrue), ("until", .kwUntil), ("while", .kwWhile)].map
    fun w => (ascii w.1, w.2)

/-- The signs. One that starts with another stands before it. -/
def signs : List (Bytes × Sign) :=
  [("...", .ellipsis), ("..", .doubleDot), (".", .dot), ("==", .doubleEqual), ("=", .equal),
   ("~=", .tildeEqual), ("~", .tilde), ("<=", .lessEqual), ("<<", .doubleLess), ("<", .less),
   (">=", .greaterEqual), (">>", .doubleGreater), (">", .greater), ("//", .doubleSlash),
   ("/", .slash), ("::", .doubleColon), (":", .colon), ("+", .plus), ("-", .minus), ("*", .star),
   ("%", .percent), ("^", .caret), ("#", .hash), ("&", .ampersand), ("|", .bar),
   ("(", .leftParen), (")", .rightParen), ("\x7b", .leftBrace), ("\x7d", .rightBrace),
   ("[", .leftBracket), ("]", .rightBracket), (";", .semicolon), (",", .comma)].map
    fun w => (ascii w.1, w.2)

/-- What a token is. -/
inductive Symbol where
  | sign (s : Sign)
  | name (n : Bytes)
  | number (n : Number)
  | text (bytes : Bytes)
  /-- Source that is no token. -/
  | bad (reason : String)
  /-- The end of the source. -/
  | stop

/-- A token with the line it ends on. -/
structure Token where
  symbol : Symbol
  line : Nat

instance : Inhabited Token := ⟨⟨.stop, 1⟩⟩

/-! ## Lines and blanks -/

/-- A line feed or a carriage return. -/
def isNewlineByte (b : UInt8) : Bool :=
  b == 0x0a || b == 0x0d

/-- What follows a line end that starts with `b`: the two bytes may end one line together. -/
def afterNewline (b : UInt8) (bs : Bytes) : Bytes :=
  match bs with
  | c :: rest => if isNewlineByte c && c != b then rest else bs
  | [] => []

/-- Skip white space, counting lines. The fuel bounds the bytes. -/
def skipBlank : Nat → Nat → Bytes → Nat × Bytes
  | 0, line, bs => (line, bs)
  | _ + 1, line, [] => (line, [])
  | fuel + 1, line, b :: bs =>
    if isNewlineByte b then skipBlank fuel (line + 1) (afterNewline b bs)
    else if isSpaceByte b then skipBlank fuel line bs
    else (line, b :: bs)

/-! ## Quoted text -/

/-- The byte that a letter after a backslash stands for. -/
def simpleEscape? (b : UInt8) : Option UInt8 :=
  [(0x61, 0x07), (0x62, 0x08), (0x66, 0x0c), (0x6e, 0x0a), (0x72, 0x0d), (0x74, 0x09), (0x76, 0x0b),
   (0x5c, 0x5c), (0x22, 0x22), (0x27, 0x27)].lookup b

/-- The bytes after the first of a code point, the last one first. -/
def continuationBytes : Nat → Nat → Bytes
  | 0, _ => []
  | count + 1, n => UInt8.ofNat (0x80 + n % 0x40) :: continuationBytes count (n / 0x40)

/-- A code point of up to 31 bits as bytes. -/
def encodeCodePoint (n : Nat) : Bytes :=
  let build (tails lead : Nat) : Bytes :=
    UInt8.ofNat (lead + n >>> (6 * tails)) :: (continuationBytes tails n).reverse
  if n < 0x80 then [UInt8.ofNat n]
  else if n < 0x800 then build 1 0xc0
  else if n < 0x10000 then build 2 0xe0
  else if n < 0x200000 then build 3 0xf0
  else if n < 0x4000000 then build 4 0xf8
  else build 5 0xfc

/-- What an escape gives: its bytes, the line it ends on, and the rest of the source. -/
abbrev Escaped := Except String (Bytes × Nat × Bytes)

/-- A code point in braces. -/
def unicodeEscape (line : Nat) : Bytes → Escaped
  | 0x7b :: bs =>
    let ds := bs.takeWhile isHexByte
    match bs.dropWhile isHexByte with
    | 0x7d :: rest =>
      if ds = [] then .error "hexadecimal digit expected"
      else if digitsValue 16 ds < 0x80000000 then .ok (encodeCodePoint (digitsValue 16 ds), line, rest)
      else .error "UTF-8 value too large"
    | _ => .error "missing '\x7d' in \\u\x7bxxxx\x7d"
  | _ => .error "missing '\x7b' in \\u\x7bxxxx\x7d"

/-- A byte as two hexadecimal digits. -/
def hexEscape (line : Nat) : Bytes → Escaped
  | a :: b :: rest =>
    if isHexByte a && isHexByte b then .ok ([UInt8.ofNat (digitsValue 16 [a, b])], line, rest)
    else .error "hexadecimal digit expected"
  | _ => .error "hexadecimal digit expected"

/-- A byte as up to three decimal digits. -/
def decimalEscape (line : Nat) (bs : Bytes) : Escaped :=
  let ds := (bs.take 3).takeWhile isDigitByte
  if digitsValue 10 ds ≤ 255 then
    .ok ([UInt8.ofNat (digitsValue 10 ds)], line, bs.drop ds.length)
  else .error "decimal escape too large"

/-- What stands after a backslash. -/
def readEscape (line : Nat) : Bytes → Escaped
  | [] => .error "unfinished string"
  | b :: bs =>
    match simpleEscape? b with
    | some c => .ok ([c], line, bs)
    | none =>
      if isNewlineByte b then .ok ([0x0a], line + 1, afterNewline b bs)
      else if b = 0x78 then hexEscape line bs
      else if b = 0x7a then .ok ([], skipBlank bs.length line bs)
      else if b = 0x75 then unicodeEscape line bs
      else if isDigitByte b then decimalEscape line (b :: bs)
      else .error "invalid escape sequence"

/-- The text up to a quote: its bytes, the line it ends on, and what follows the quote. The fuel
    bounds the pieces of the text. -/
def readQuoted (quote : UInt8) : Nat → Nat → Bytes → Escaped
  | 0, _, _ => .error "unfinished string"
  | _ + 1, _, [] => .error "unfinished string"
  | fuel + 1, line, b :: bs =>
    if b = quote then .ok ([], line, bs)
    else if isNewlineByte b then .error "unfinished string"
    else if b = 0x5c then do
      let (bytes, line, rest) ← readEscape line bs
      let (more, line, rest) ← readQuoted quote fuel line rest
      return (bytes ++ more, line, rest)
    else do
      let (more, line, rest) ← readQuoted quote fuel line bs
      return (b :: more, line, rest)

/-! ## Long text -/

/-- Skip a long bracket that opens with its second half standing after some equal signs: how many
    there are, and what follows. -/
def longBracket? (bracket : UInt8) (bs : Bytes) : Option (Nat × Bytes) :=
  match bs.dropWhile (· == 0x3d) with
  | b :: rest => if b = bracket then some ((bs.takeWhile (· == 0x3d)).length, rest) else none
  | [] => none

/-- The text up to a long bracket with `level` equal signs: its bytes with line ends made one byte,
    the line it ends on, and what follows. The fuel bounds the bytes. -/
def readLong (level : Nat) : Nat → Nat → Bytes → Escaped
  | 0, _, _ => .error "unfinished long string"
  | _ + 1, _, [] => .error "unfinished long string"
  | fuel + 1, line, b :: bs =>
    let more (out : UInt8) (line : Nat) (rest : Bytes) : Escaped := do
      let (bytes, line, rest) ← readLong level fuel line rest
      return (out :: bytes, line, rest)
    if b = 0x5d then
      match longBracket? 0x5d bs with
      | some (n, rest) => if n = level then .ok ([], line, rest) else more b line bs
      | none => more b line bs
    else if isNewlineByte b then more 0x0a (line + 1) (afterNewline b bs)
    else more b line bs

/-- The text in long brackets, without a line end that it starts with. -/
def readLongBody (level line : Nat) (bs : Bytes) : Escaped :=
  match bs with
  | b :: rest =>
    if isNewlineByte b then readLong level (bs.length + 1) (line + 1) (afterNewline b rest)
    else readLong level (bs.length + 1) line bs
  | [] => .error "unfinished long string"

/-! ## Numerals and names -/

/-- The bytes that go on with a numeral, and what follows: hexadecimal digits, points, marks of an
    exponent, and signs that follow such a mark. -/
def numeralBytes (mark : UInt8) : Bool → Bytes → Bytes × Bytes
  | _, [] => ([], [])
  | afterMark, b :: bs =>
    if b == mark || b == mark - 0x20 then
      let (more, rest) := numeralBytes mark true bs
      (b :: more, rest)
    else if isHexByte b || b == 0x2e || (afterMark && (b == 0x2b || b == 0x2d)) then
      let (more, rest) := numeralBytes mark false bs
      (b :: more, rest)
    else ([], b :: bs)

/-- The bytes of a numeral that starts with a digit, and what follows. -/
def numeralSpan (bs : Bytes) : Bytes × Bytes :=
  match hexBody? bs with
  | some body =>
    let (more, rest) := numeralBytes 0x70 false body
    (bs.take 2 ++ more, rest)
  | none => numeralBytes 0x65 false bs

/-- A numeral, with the byte in front of its first digit if that is a point. -/
def readNumeral (lead bs : Bytes) : Symbol × Bytes :=
  let (bytes, rest) := numeralSpan bs
  let touchesLetter := match rest with
    | b :: _ => isAlphaByte b
    | [] => false
  match readNumber? (lead ++ bytes) with
  | some n => if touchesLetter then (.bad "malformed number", []) else (.number n, rest)
  | none => (.bad "malformed number", [])

/-- A byte of a name after the first. -/
def isNameByte (b : UInt8) : Bool :=
  isAlphaByte b || isDigitByte b

/-- A name or a reserved word. -/
def nameSymbol (n : Bytes) : Symbol :=
  match reservedWords.lookup n with
  | some s => .sign s
  | none => .name n

/-! ## Signs -/

/-- What follows some bytes at the start of others. -/
def afterBytes? : Bytes → Bytes → Option Bytes
  | [], rest => some rest
  | b :: bs, c :: cs => if b = c then afterBytes? bs cs else none
  | _ :: _, [] => none

/-- The sign at the start of some bytes. -/
def readSign (bs : Bytes) : Symbol × Bytes :=
  match signs.findSome? fun w => (afterBytes? w.1 bs).map fun rest => (Symbol.sign w.2, rest) with
  | some r => r
  | none => (.bad "unexpected symbol", [])

/-! ## All tokens -/

/-- A token with the line it ends on, and what follows. -/
structure Scanned where
  symbol : Symbol
  line : Nat
  rest : Bytes

/-- Text as a token. -/
def Scanned.ofText (line : Nat) : Escaped → Scanned
  | .ok (bytes, line, rest) => ⟨.text bytes, line, rest⟩
  | .error reason => ⟨.bad reason, line, []⟩

/-- The token at the start of bytes that start with no blank and no comment. -/
def scanToken (line : Nat) : Bytes → Scanned
  | [] => ⟨.stop, line, []⟩
  | b :: bs =>
    if b = 0x22 ∨ b = 0x27 then Scanned.ofText line (readQuoted b (bs.length + 1) line bs)
    else if isAlphaByte b then
      ⟨nameSymbol ((b :: bs).takeWhile isNameByte), line, (b :: bs).dropWhile isNameByte⟩
    else if isDigitByte b then
      let (symbol, rest) := readNumeral [] (b :: bs)
      ⟨symbol, line, rest⟩
    else if b = 0x2e ∧ (bs.head?.any isDigitByte) then
      let (symbol, rest) := readNumeral [b] bs
      ⟨symbol, line, rest⟩
    else if b = 0x5b then
      match longBracket? 0x5b bs with
      | some (level, rest) => Scanned.ofText line (readLongBody level line rest)
      | none =>
        if bs.head? = some 0x3d then ⟨.bad "invalid long string delimiter", line, []⟩
        else ⟨.sign .leftBracket, line, bs⟩
    else
      let (symbol, rest) := readSign (b :: bs)
      ⟨symbol, line, rest⟩

/-- What follows a comment that starts after two minus signs, with the line it ends on. -/
def skipComment (line : Nat) (bs : Bytes) : Except String (Nat × Bytes) :=
  let short := bs.dropWhile fun b => !isNewlineByte b
  match bs with
  | 0x5b :: rest =>
    match longBracket? 0x5b rest with
    | some (level, body) => do
      let (_, line, rest) ← readLongBody level line body
      return (line, rest)
    | none => .ok (line, short)
  | _ => .ok (line, short)

/-- The tokens of some source. The fuel bounds their number. -/
def tokensFrom : Nat → Nat → Bytes → List Token
  | 0, line, _ => [⟨.stop, line⟩]
  | fuel + 1, line, bs =>
    let (line, bs) := skipBlank bs.length line bs
    match bs with
    | 0x2d :: 0x2d :: rest =>
      match skipComment line rest with
      | .ok (line, rest) => tokensFrom fuel line rest
      | .error reason => [⟨.bad reason, line⟩]
    | bs =>
      let t := scanToken line bs
      match t.symbol with
      | .stop => [⟨.stop, line⟩]
      | .bad reason => [⟨.bad reason, t.line⟩]
      | symbol => ⟨symbol, t.line⟩ :: tokensFrom fuel t.line t.rest

/-- The tokens of some source. -/
def tokens (source : Bytes) : List Token :=
  tokensFrom (source.length + 1) 1 source

end ScriptedViews.Script

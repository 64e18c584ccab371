import ScriptedViews.Script.Library.Arguments

set_option autoImplicit false

/-! # Formatted text

A template with directives that are filled in from arguments in turn. What a directive may carry
before its letter depends on the letter. The text of a value may have to be asked of the value
itself, so filling in a template stops at each directive that wants one. -/

namespace ScriptedViews.Script.Format

/-- A directive. -/
structure Directive where
  left : Bool := false
  plus : Bool := false
  space : Bool := false
  alternate : Bool := false
  zero : Bool := false
  width : Nat := 0
  precision : Option Nat := none
  letter : UInt8 := 0
deriving Repr

/-! ## Reading directives -/

/-- Put a flag into a directive. -/
def Directive.setFlag (d : Directive) (b : UInt8) : Directive :=
  if b = 0x2d then { d with left := true }
  else if b = 0x2b then { d with plus := true }
  else if b = 0x20 then { d with space := true }
  else if b = 0x23 then { d with alternate := true }
  else { d with zero := true }

/-- The flags that a letter allows, and whether it allows a precision. -/
def allowed? (letter : UInt8) : Option (Bytes × Bool) :=
  [("c", "-", false), ("d", "-+ 0", true), ("i", "-+ 0", true), ("o", "-#0", true),
   ("x", "-#0", true), ("X", "-#0", true), ("e", "-+ #0", true), ("E", "-+ #0", true),
   ("f", "-+ #0", true), ("g", "-+ #0", true), ("G", "-+ #0", true), ("s", "-", true)].findSome?
    fun (e : String × String × Bool) =>
      if ascii e.1 = [letter] then some (ascii e.2.1, e.2.2) else none

/-- Up to two digits as a number, and what follows. -/
def twoDigits (bs : Bytes) : Nat × Bytes :=
  let ds := (bs.take 2).takeWhile isDigitByte
  (digitsValue 10 ds, bs.drop ds.length)

/-- A byte that may stand between the sign of a directive and its letter. -/
def isModifier (b : UInt8) : Bool :=
  isDigitByte b || (ascii "-+# .").contains b

/-- The directive after its sign, and what follows it. -/
def readDirective (bs : Bytes) : Except String (Directive × Bytes) :=
  let modifiers := bs.takeWhile isModifier
  match bs.dropWhile isModifier with
  | [] => .error "invalid conversion to 'format'"
  | letter :: rest =>
    match allowed? letter with
    | none => .error "invalid conversion to 'format'"
    | some (flags, takesPrecision) =>
      let d := (modifiers.takeWhile flags.contains).foldl Directive.setFlag { letter }
      let (width, after) := twoDigits (modifiers.dropWhile flags.contains)
      let d := { d with width }
      match after with
      | [] => .ok (d, rest)
      | point :: ds =>
        let (precision, after) := twoDigits ds
        if point = 0x2e ∧ takesPrecision ∧ after = [] then
          .ok ({ d with precision := some precision }, rest)
        else .error "invalid conversion to 'format'"

/-! ## Filling in directives -/

/-- Text with blanks up to the width of a directive. -/
def Directive.pad (d : Directive) (bytes : Bytes) : Bytes :=
  let blanks := List.replicate (d.width - bytes.length) 0x20
  if d.left then bytes ++ blanks else blanks ++ bytes

/-- The sign of a number. -/
def Directive.sign (d : Directive) (negative : Bool) : Bytes :=
  if negative then ascii "-" else if d.plus then ascii "+" else if d.space then ascii " " else []

/-- Digits after a sign, with zeros or blanks up to the width. -/
def Directive.padNumber (d : Directive) (zeros : Bool) (sign digits : Bytes) : Bytes :=
  if zeros && d.zero && !d.left then
    sign ++ List.replicate (d.width - sign.length - digits.length) 0x30 ++ digits
  else d.pad (sign ++ digits)

/-- The digits of a number, with zeros in front up to the precision. -/
def Directive.digits (d : Directive) (radix n : Nat) : Bytes :=
  let ds := ascii (String.ofList (Nat.toDigits radix n))
  match d.precision with
  | none => ds
  | some p => if p = 0 ∧ n = 0 then [] else List.replicate (p - ds.length) 0x30 ++ ds

/-- A letter in capitals. -/
def capital (b : UInt8) : UInt8 :=
  if 0x61 ≤ b ∧ b ≤ 0x7a then b - 0x20 else b

/-- An integer. -/
def Directive.int (d : Directive) (n : Int) : Bytes :=
  let zeros := d.precision.isNone
  let bits := (Int64.ofInt n).toUInt64.toNat
  if d.letter = 0x78 then
    d.padNumber zeros (if d.alternate ∧ n ≠ 0 then ascii "0x" else []) (d.digits 16 bits)
  else if d.letter = 0x58 then
    d.padNumber zeros (if d.alternate ∧ n ≠ 0 then ascii "0X" else [])
      ((d.digits 16 bits).map capital)
  else if d.letter = 0x6f then
    d.padNumber zeros (if d.alternate ∧ n ≠ 0 then ascii "0" else []) (d.digits 8 bits)
  else d.padNumber zeros (d.sign (n < 0)) (d.digits 10 n.natAbs)

/-- A floating point number. -/
def Directive.float (d : Directive) (x : Float) : Bytes :=
  let small := capital d.letter != d.letter
  let letters (s : String) : Bytes := if small then ascii s else (ascii s).map capital
  let sign := d.sign (Number.isNegative x)
  match Number.kind x with
  | .nan => d.padNumber false (ascii "-") (letters "nan")
  | .infinite => d.padNumber false sign (letters "inf")
  | .finite =>
    let (num, den) := (Number.decode x).fraction
    let places := d.precision.getD 6
    let body := if d.letter = 0x66 then Number.fixedText places num den
      else if capital d.letter = 0x45 then Number.scientificText places num den
      else Number.generalText (max places 1) num den
    d.padNumber true sign (letters (String.ofList body))

/-- What a directive makes of an argument that is no text. -/
def Directive.fill (d : Directive) (a : Arguments) (i : Nat) : Except String Bytes := do
  if d.letter = 0x63 then return d.pad [UInt8.ofNat ((← a.int i) % 256).toNat]
  else if (ascii "dioxX").contains d.letter then return d.int (← a.int i)
  else return d.float (← a.number i).toFloat

/-- What a directive makes of a text. -/
def Directive.fillText (d : Directive) (bytes : Bytes) : Bytes :=
  d.pad (match d.precision with
    | some p => bytes.take p
    | none => bytes)

/-! ## Filling in a template -/

/-- A template that is filled in up to a place. -/
structure Template where
  args : Arguments
  /-- The argument for the next directive. -/
  next : Nat := 1
  /-- What is filled in. -/
  done : Bytes := []
  /-- The rest of the template. -/
  rest : Bytes

/-- How far a template has been filled in. -/
inductive Progress where
  | done (bytes : Bytes)
  /-- A directive wants the text of a value. -/
  | ask (v : Value) (d : Directive) (t : Template)
  | failed (reason : String)

/-- Fill in a template up to a directive that wants a text. The fuel bounds the bytes. -/
def Template.run : Nat → Template → Progress
  | 0, t => .done t.done
  | fuel + 1, t =>
    match t.rest with
    | [] => .done t.done
    | b :: bs =>
      if b ≠ 0x25 then Template.run fuel { t with done := t.done ++ [b], rest := bs }
      else match bs with
        | 0x25 :: bs => Template.run fuel { t with done := t.done ++ [b], rest := bs }
        | bs =>
          if t.args.values.length ≤ t.next then
            match t.args.bad (α := Unit) t.next "no value" with
            | .error reason => .failed reason
            | .ok _ => .failed ""
          else match readDirective bs with
            | .error reason => .failed reason
            | .ok (d, rest) =>
              if d.letter = 0x73 then
                .ask (t.args.get t.next) d { t with next := t.next + 1, rest }
              else match d.fill t.args t.next with
                | .error reason => .failed reason
                | .ok bytes =>
                  Template.run fuel { t with next := t.next + 1, done := t.done ++ bytes, rest }

/-- Fill in the rest of a template. -/
def Template.resume (t : Template) : Progress :=
  t.run (t.rest.length + 1)

/-- Fill in a directive that wanted a text, and the rest of its template. -/
def Template.answer (t : Template) (d : Directive) (bytes : Bytes) : Progress :=
  { t with done := t.done ++ d.fillText bytes }.resume

/-- Start to fill in the template that is the first argument. -/
def start (a : Arguments) : Progress :=
  match a.text 0 with
  | .error reason => .failed reason
  | .ok rest => Template.resume { args := a, rest }

end ScriptedViews.Script.Format

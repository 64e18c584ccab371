import ScriptedViews.Script.Program
import ScriptedViews.Script.Token

set_option autoImplicit false

/-! # Grammar

Reading a program from tokens: one function for each kind of phrase, and a table of the binary
operators with how tightly they hold their operands. Phrases may stand inside each other only so
deep, and a function may have only so many variables. -/

namespace ScriptedViews.Script

/-- Why some source is no program. -/
inductive ReadError where
  | malformed (line : Nat) (reason : String)
  /-- Phrases stand too deep inside each other. -/
  | tooDeep (line : Nat)
deriving DecidableEq, Repr

namespace Grammar

/-! ## Reading tokens -/

/-- The tokens that are left, and the line of the token before them. -/
structure Cursor where
  tokens : List Token
  last : Nat := 1

/-- Something that reads tokens. -/
abbrev Phrase := StateT Cursor (Except ReadError)

/-- The token that comes next. -/
def peek : Phrase Token := do
  return (← get).tokens.head?.getD default

/-- Fail at the token that comes next. -/
def fail {α : Type} (reason : String) : Phrase α := do
  throw (.malformed (← peek).line reason)

/-- Fail if what comes next is no token. -/
def checkToken : Phrase Unit := do
  match (← peek).symbol with
  | .bad reason => fail reason
  | _ => return

/-- Go past a token. -/
def advance : Phrase Unit := do
  let c ← get
  match c.tokens with
  | [] => return
  | t :: rest => set ({ tokens := rest, last := t.line } : Cursor)
  checkToken

/-- Whether a sign comes next. -/
def sees (s : Sign) : Phrase Bool := do
  match (← peek).symbol with
  | .sign t => return s == t
  | _ => return false

/-- Go past a sign if it comes next, and tell whether it did. -/
def accept (s : Sign) : Phrase Bool := do
  if ← sees s then
    advance
    return true
  else return false

/-- Go past a sign that has to come next. -/
def expect (s : Sign) (reason : String) : Phrase Unit := do
  unless ← accept s do fail reason

/-- A name that has to come next. -/
def takeName : Phrase Name := do
  match (← peek).symbol with
  | .name n =>
    advance
    return n
  | _ => fail "<name> expected"

/-- The line of the token that was read last. -/
def lastLine : Phrase Nat := do
  return (← get).last

/-! ## Where a phrase stands -/

/-- What a phrase may use of the function that it stands in. -/
structure Setting where
  isVararg : Bool
  inLoop : Bool := false
  /-- How many variables of the function are visible. -/
  locals : Nat := 0
  /-- How much deeper phrases may stand. -/
  levels : Nat

/-- How many variables of its own a function may have at one place. -/
def maxLocals : Nat := 200

/-- The setting one level deeper. -/
def enter (s : Setting) : Phrase Setting := do
  match s.levels with
  | 0 => throw (.tooDeep (← peek).line)
  | levels + 1 => return { s with levels }

/-- The setting with more variables. -/
def declare (s : Setting) (count : Nat) : Phrase Setting := do
  if maxLocals < s.locals + count then fail "too many local variables"
  else return { s with locals := s.locals + count }

/-! ## Operators -/

/-- How a binary operator joins its operands. -/
inductive Joint where
  | op (op : BinaryOp)
  | and
  | or

/-- The binary operators: how tightly each holds what stands to its left and to its right. -/
def joint? : Sign → Option (Joint × Nat × Nat)
  | .plus => some (.op (.arithmetic .add), 10, 10)
  | .minus => some (.op (.arithmetic .sub), 10, 10)
  | .star => some (.op (.arithmetic .mul), 11, 11)
  | .percent => some (.op (.arithmetic .mod), 11, 11)
  | .caret => some (.op (.arithmetic .pow), 14, 13)
  | .slash => some (.op (.arithmetic .div), 11, 11)
  | .doubleSlash => some (.op (.arithmetic .floorDiv), 11, 11)
  | .ampersand => some (.op (.arithmetic .bitAnd), 6, 6)
  | .bar => some (.op (.arithmetic .bitOr), 4, 4)
  | .tilde => some (.op (.arithmetic .bitXor), 5, 5)
  | .doubleLess => some (.op (.arithmetic .shiftLeft), 7, 7)
  | .doubleGreater => some (.op (.arithmetic .shiftRight), 7, 7)
  | .doubleDot => some (.op .concat, 9, 8)
  | .doubleEqual => some (.op .equal, 3, 3)
  | .tildeEqual => some (.op .notEqual, 3, 3)
  | .less => some (.op .less, 3, 3)
  | .lessEqual => some (.op .atMost, 3, 3)
  | .greater => some (.op .greater, 3, 3)
  | .greaterEqual => some (.op .atLeast, 3, 3)
  | .kwAnd => some (.and, 2, 2)
  | .kwOr => some (.or, 1, 1)
  | _ => none

/-- How tightly the unary operators hold their operand. -/
def unaryTightness : Nat := 12

/-- The unary operators. -/
def unary? : Sign → Option UnaryOp
  | .kwNot => some .not
  | .minus => some .negate
  | .tilde => some .bitNot
  | .hash => some .length
  | _ => none

/-- The line of a concatenation: that of its sign, but a chain is one step, at the line of the last
    sign. -/
def chainLine (line : Nat) : Expr → Nat
  | .binary inner .concat _ _ => inner
  | .single e => chainLine line e
  | _ => line

/-- Two operands joined. An operator that computes is at the line of its sign, one that compares at
    the line where its second operand ends. -/
def Joint.apply (j : Joint) (line last : Nat) (left right : Expr) : Expr :=
  match j with
  | .and => .and left right
  | .or => .or left right
  | .op (.arithmetic o) => .binary line (.arithmetic o) left right
  | .op .concat => .binary (chainLine line right) .concat left right
  | .op o => .binary last o left right

/-- Whether a token ends a block. -/
def endsBlock : Symbol → Bool
  | .stop => true
  | .sign .kwElse | .sign .kwElseif | .sign .kwEnd | .sign .kwUntil => true
  | _ => false

/-- Whether something can be assigned to. -/
def isTarget : Expr → Bool
  | .name _ _ => true
  | .index _ _ _ => true
  | _ => false

/-- Whether an expression is a call. -/
def isCall : Expr → Bool
  | .call _ _ _ => true
  | .methodCall _ _ _ _ _ => true
  | _ => false

/-! ## Phrases without expressions in them -/

/-- Names separated by commas. The fuel bounds their number. -/
def nameList : Nat → Phrase (List Name)
  | 0 => fail "<name> expected"
  | fuel + 1 => do
    let n ← takeName
    if ← accept .comma then return n :: (← nameList fuel)
    else return [n]

/-- Parameters up to the closing parenthesis, and whether the function takes more. The fuel bounds
    their number. -/
def params : Nat → Phrase (List Name × Bool)
  | 0 => fail "<name> expected"
  | fuel + 1 => do
    if ← accept .ellipsis then return ([], true)
    else
      let n ← takeName
      if ← accept .comma then
        let (rest, isVararg) ← params fuel
        return (n :: rest, isVararg)
      else return ([n], false)

/-- The parameters of a function in parentheses. -/
def paramList (fuel : Nat) : Phrase (List Name × Bool) := do
  expect .leftParen "'(' expected"
  if ← accept .rightParen then return ([], false)
  else
    let r ← params fuel
    expect .rightParen "')' expected"
    return r

/-- The fields after the first part of a function's name, as an expression. The fuel bounds their
    number. -/
def fieldPath : Nat → Expr → Phrase Expr
  | 0, e => return e
  | fuel + 1, e => do
    if ← accept .dot then
      let n ← takeName
      fieldPath fuel (.index (← lastLine) e (.text n))
    else return e

/-! ## Expressions and statements -/

mutual

/-- Operands joined by operators that hold tighter than `tightness`. The fuel, here and in what
    follows, bounds how deep calls go. -/
def expression (fuel : Nat) (s : Setting) (tightness : Nat) : Phrase Expr :=
  match fuel with
  | 0 => fail "unexpected symbol"
  | fuel + 1 => do
    let inner ← enter s
    let left ← match (← peek).symbol with
      | .sign sign =>
        match unary? sign with
        | some op => do
          let line := (← peek).line
          advance
          pure (Expr.unary line op (← expression fuel inner unaryTightness))
        | none => simple fuel inner
      | _ => simple fuel inner
    joined fuel inner tightness left

/-- What follows an operand: operators that hold tighter than `tightness`, and their operands. -/
def joined (fuel : Nat) (s : Setting) (tightness : Nat) (left : Expr) : Phrase Expr :=
  match fuel with
  | 0 => return left
  | fuel + 1 => do
    match (← peek).symbol with
    | .sign sign =>
      match joint? sign with
      | some (joint, leftHold, rightHold) =>
        if tightness < leftHold then
          let line := (← peek).line
          advance
          let right ← expression fuel s rightHold
          joined fuel s tightness (joint.apply line (← lastLine) left right)
        else return left
      | none => return left
    | _ => return left

/-- An expression without operators. -/
def simple (fuel : Nat) (s : Setting) : Phrase Expr :=
  match fuel with
  | 0 => fail "unexpected symbol"
  | fuel + 1 => do
    match (← peek).symbol with
    | .number n =>
      advance
      return .number n
    | .text bytes =>
      advance
      return .text bytes
    | .sign .kwNil =>
      advance
      return .nil
    | .sign .kwTrue =>
      advance
      return .bool true
    | .sign .kwFalse =>
      advance
      return .bool false
    | .sign .ellipsis =>
      if s.isVararg then
        advance
        return .varargs
      else fail "cannot use '...' outside a vararg function"
    | .sign .leftBrace => return .table (← constructor fuel s)
    | .sign .kwFunction =>
      advance
      return .function (← functionBody fuel s [])
    | _ => suffixed fuel s

/-- A variable or an expression in parentheses, with calls and fields after it. -/
def suffixed (fuel : Nat) (s : Setting) : Phrase Expr :=
  match fuel with
  | 0 => fail "unexpected symbol"
  | fuel + 1 => do
    match (← peek).symbol with
    | .name n =>
      let line := (← peek).line
      advance
      suffixes fuel s (.name line n)
    | .sign .leftParen =>
      advance
      let e ← expression fuel s 0
      expect .rightParen "')' expected"
      suffixes fuel s (.single e)
    | _ => fail "unexpected symbol"

/-- The calls and fields after an expression. -/
def suffixes (fuel : Nat) (s : Setting) (e : Expr) : Phrase Expr :=
  match fuel with
  | 0 => return e
  | fuel + 1 => do
    let line := (← peek).line
    match (← peek).symbol with
    | .sign .dot =>
      advance
      let n ← takeName
      suffixes fuel s (.index (← lastLine) e (.text n))
    | .sign .leftBracket =>
      advance
      let key ← expression fuel s 0
      expect .rightBracket "']' expected"
      suffixes fuel s (.index (← lastLine) e key)
    | .sign .colon =>
      advance
      let n ← takeName
      let fieldLine ← lastLine
      let line := (← peek).line
      suffixes fuel s (.methodCall line fieldLine e n (← arguments fuel s))
    | .sign .leftParen => suffixes fuel s (.call line e (← arguments fuel s))
    | .sign .leftBrace => suffixes fuel s (.call line e (← arguments fuel s))
    | .text _ => suffixes fuel s (.call line e (← arguments fuel s))
    | _ => return e

/-- The arguments of a call. -/
def arguments (fuel : Nat) (s : Setting) : Phrase (List Expr) :=
  match fuel with
  | 0 => fail "function arguments expected"
  | fuel + 1 => do
    match (← peek).symbol with
    | .text bytes =>
      advance
      return [.text bytes]
    | .sign .leftBrace => return [.table (← constructor fuel s)]
    | .sign .leftParen =>
      advance
      if ← accept .rightParen then return []
      else
        let es ← expressions fuel s
        expect .rightParen "')' expected"
        return es
    | _ => fail "function arguments expected"

/-- Expressions separated by commas. -/
def expressions (fuel : Nat) (s : Setting) : Phrase (List Expr) :=
  match fuel with
  | 0 => fail "unexpected symbol"
  | fuel + 1 => do
    let e ← expression fuel s 0
    if ← accept .comma then return e :: (← expressions fuel s)
    else return [e]

/-- A table constructor. -/
def constructor (fuel : Nat) (s : Setting) : Phrase (List Field) :=
  match fuel with
  | 0 => fail "unexpected symbol"
  | fuel + 1 => do
    expect .leftBrace "'\x7b' expected"
    fieldList fuel s

/-- The fields of a table constructor up to its end. -/
def fieldList (fuel : Nat) (s : Setting) : Phrase (List Field) :=
  match fuel with
  | 0 => fail "'\x7d' expected"
  | fuel + 1 => do
    if ← accept .rightBrace then return []
    else
      let f ← field fuel s
      if ← accept .comma then return f :: (← fieldList fuel s)
      else if ← accept .semicolon then return f :: (← fieldList fuel s)
      else
        expect .rightBrace "'\x7d' expected"
        return [f]

/-- A field of a table constructor. -/
def field (fuel : Nat) (s : Setting) : Phrase Field :=
  match fuel with
  | 0 => fail "unexpected symbol"
  | fuel + 1 => do
    match (← get).tokens with
    | ⟨.name n, _⟩ :: ⟨.sign .equal, _⟩ :: _ =>
      advance
      advance
      let value ← expression fuel s 0
      return .entry (← lastLine) (.text n) value
    | ⟨.sign .leftBracket, _⟩ :: _ =>
      advance
      let key ← expression fuel s 0
      expect .rightBracket "']' expected"
      expect .equal "'=' expected"
      let value ← expression fuel s 0
      return .entry (← lastLine) key value
    | _ => return .item (← expression fuel s 0)

/-- A function from its parameters on. `lead` are parameters that are not written. -/
def functionBody (fuel : Nat) (s : Setting) (lead : List Name) : Phrase Function :=
  match fuel with
  | 0 => fail "'(' expected"
  | fuel + 1 => do
    let (names, isVararg) ← paramList fuel
    let inner ← declare { isVararg, levels := s.levels } (lead.length + names.length)
    let body ← block fuel inner
    expect .kwEnd "'end' expected"
    return .mk (lead ++ names) isVararg body

/-- The statements of a block. -/
def block (fuel : Nat) (s : Setting) : Phrase (List Stmt) :=
  match fuel with
  | 0 => fail "'end' expected"
  | fuel + 1 => do
    if endsBlock (← peek).symbol then return []
    else if ← sees .kwReturn then
      let inner ← enter s
      advance
      if endsBlock (← peek).symbol then return [.return []]
      else if ← accept .semicolon then return [.return []]
      else
        let es ← expressions fuel inner
        let _ ← accept .semicolon
        return [.return es]
    else
      let inner ← enter s
      let (stmts, declared) ← statement fuel inner
      return stmts ++ (← block fuel (← declare s declared))

/-- A statement, or none for a lone semicolon, and how many variables it declares for the rest of
    its block. -/
def statement (fuel : Nat) (s : Setting) : Phrase (List Stmt × Nat) :=
  match fuel with
  | 0 => fail "unexpected symbol"
  | fuel + 1 => do
    let line := (← peek).line
    match (← peek).symbol with
    | .sign .semicolon =>
      advance
      return ([], 0)
    | .sign .kwIf =>
      advance
      return ([← conditional fuel s], 0)
    | .sign .kwWhile =>
      advance
      let condition ← expression fuel s 0
      expect .kwDo "'do' expected"
      let body ← block fuel { s with inLoop := true }
      expect .kwEnd "'end' expected"
      return ([.while condition body], 0)
    | .sign .kwDo =>
      advance
      let body ← block fuel s
      expect .kwEnd "'end' expected"
      return ([.block body], 0)
    | .sign .kwFor =>
      advance
      return ([← loop fuel s line], 0)
    | .sign .kwRepeat =>
      advance
      let body ← block fuel { s with inLoop := true }
      expect .kwUntil "'until' expected"
      let condition ← expression fuel s 0
      return ([.repeat (body ++ [.until condition])], 0)
    | .sign .kwFunction =>
      advance
      let first ← takeName
      let target ← fieldPath fuel (.name (← lastLine) first)
      if ← accept .colon then
        let n ← takeName
        let target := Expr.index (← lastLine) target (.text n)
        let f ← functionBody fuel s [ascii "self"]
        return ([.assign line [target] [.function f]], 0)
      else
        let f ← functionBody fuel s []
        return ([.assign line [target] [.function f]], 0)
    | .sign .kwLocal =>
      advance
      if ← accept .kwFunction then
        let n ← takeName
        let f ← functionBody fuel s []
        return ([.localFunction n f], 1)
      else
        let names ← nameList fuel
        let inner ← declare s names.length
        let values ← if ← accept .equal then expressions fuel { inner with locals := s.locals }
          else pure []
        return ([.local names values], names.length)
    | .sign .kwBreak =>
      if s.inLoop then
        advance
        return ([.break], 0)
      else fail "break outside a loop"
    | _ =>
      let e ← suffixed fuel s
      if (← sees .equal) || (← sees .comma) then return ([← assignment fuel s [e]], 0)
      else if isCall e then return ([.call e], 0)
      else fail "syntax error"

/-- A conditional from its condition on. -/
def conditional (fuel : Nat) (s : Setting) : Phrase Stmt :=
  match fuel with
  | 0 => fail "'then' expected"
  | fuel + 1 => do
    let condition ← expression fuel s 0
    expect .kwThen "'then' expected"
    let consequent ← block fuel s
    if ← accept .kwElseif then return .cond condition consequent [← conditional fuel s]
    else if ← accept .kwElse then
      let alternative ← block fuel s
      expect .kwEnd "'end' expected"
      return .cond condition consequent alternative
    else
      expect .kwEnd "'end' expected"
      return .cond condition consequent []

/-- A loop over numbers or over what a function gives, from its variables on. Besides its own
    variables a loop keeps three or four that have no names. -/
def loop (fuel : Nat) (s : Setting) (line : Nat) : Phrase Stmt :=
  match fuel with
  | 0 => fail "'=' or 'in' expected"
  | fuel + 1 => do
    let first ← takeName
    if ← accept .equal then
      let start ← expression fuel s 0
      expect .comma "',' expected"
      let limit ← expression fuel s 0
      let step ← if ← accept .comma then expression fuel s 0 else pure (.number (.int 1))
      expect .kwDo "'do' expected"
      let inner ← declare { s with inLoop := true } 4
      let body ← block fuel inner
      expect .kwEnd "'end' expected"
      return .numericFor line first start limit step body
    else
      let names ← if ← accept .comma then nameList fuel else pure []
      expect .kwIn "'=' or 'in' expected"
      let values ← expressions fuel s
      expect .kwDo "'do' expected"
      let inner ← declare { s with inLoop := true } (5 + names.length)
      let body ← block fuel inner
      expect .kwEnd "'end' expected"
      return .genericFor line (first :: names) values body

/-- An assignment after its first targets, the last one first. -/
def assignment (fuel : Nat) (s : Setting) (targets : List Expr) : Phrase Stmt :=
  match fuel with
  | 0 => fail "syntax error"
  | fuel + 1 => do
    if targets.all isTarget then
      if ← accept .comma then
        let e ← suffixed fuel s
        assignment fuel s (e :: targets)
      else
        expect .equal "'=' expected"
        let values ← expressions fuel s
        return .assign (← lastLine) targets.reverse values
    else fail "syntax error"

end

/-! ## Programs -/

/-- How deep phrases may stand inside each other. -/
def maxLevels : Nat := 199

/-- The main function of a program that is read with `levels` levels taken. -/
def program (levels : Nat) (fuel : Nat) : Phrase Function := do
  checkToken
  let body ← block fuel { isVararg := true, levels := maxLevels - levels }
  match (← peek).symbol with
  | .stop => return .mk [] true body
  | _ => fail "'<eof>' expected"

/-- The fuel that is enough to read some tokens. -/
def enoughFuel (ts : List Token) : Nat :=
  16 * (ts.length + 1)

end Grammar

/-- Read a program, with `levels` levels taken by what stands around it. -/
def readProgram (levels : Nat) (source : Bytes) : Except ReadError Function :=
  let ts := tokens source
  (Grammar.program levels (Grammar.enoughFuel ts)).run' { tokens := ts }

end ScriptedViews.Script

import ScriptedViews.Script.Machine.Basic

set_option autoImplicit false

/-! # Operators and fields

What operators make of values, and what reading and writing a field does. Where the values say
nothing themselves, functions in their metatables are asked. -/

namespace ScriptedViews.Script

/-- What a metatable calls an operator on numbers. -/
def ArithmeticOp.event : ArithmeticOp → String
  | .add => "__add"
  | .sub => "__sub"
  | .mul => "__mul"
  | .mod => "__mod"
  | .pow => "__pow"
  | .div => "__div"
  | .floorDiv => "__idiv"
  | .bitAnd => "__band"
  | .bitOr => "__bor"
  | .bitXor => "__bxor"
  | .shiftLeft => "__shl"
  | .shiftRight => "__shr"

/-- A value as an operand of an operator: a number, or a numeral if the operator is none on bits. -/
def Value.operandOf (v : Value) (op : ArithmeticOp) : Option Number :=
  match v with
  | .number n => some n
  | v => if op.isBitwise then none else v.toNumber?

/-- How often reading or writing a field is passed on to another value. -/
def maxHops : Nat := 2000

namespace State

variable {ω σ φ : Type}

/-! ## Operators -/

/-- Fail because a value is no operand. -/
def badOperand (s : State ω σ φ) (what : String) (v : Value) (site : Option Site) :
    State ω σ φ :=
  s.raiseText site ("attempt to " ++ what ++ " a " ++ v.typeName ++ " value")

/-- Apply an operator on numbers. -/
def arithmetic (s : State ω σ φ) (op : ArithmeticOp) (a b : Value) (site : Option Site) :
    State ω σ φ :=
  match a.operandOf op, b.operandOf op with
  | some x, some y =>
    match Number.apply op x y with
    | .ok n => s.giveOne (.number n)
    | .error e => s.raiseText site e.message
  | x, _ =>
    let culprit := if x.isSome then b else a
    let what := if op.isBitwise then "perform bitwise operation on" else "perform arithmetic on"
    match s.heap.metafieldOf a b op.event with
    | .nil => s.badOperand what culprit site
    | handler => s.callFrom .single handler [a, b] site

/-- Join two texts or numbers. -/
def concatenate (s : State ω σ φ) (a b : Value) (site : Option Site) : State ω σ φ :=
  match a.toText?, b.toText? with
  | some x, some y => s.giveOne (.text (x ++ y))
  | x, _ =>
    let culprit := if x.isSome then b else a
    match s.heap.metafieldOf a b "__concat" with
    | .nil => s.badOperand "concatenate" culprit site
    | handler => s.callFrom .single handler [a, b] site

/-- Whether two values are of a kind that can say itself what it is equal to. -/
def comparesItself : Value → Value → Bool
  | .table _, .table _ => true
  | .object _, .object _ => true
  | _, _ => false

/-- Compare two values for equality, or for the opposite. -/
def equality (s : State ω σ φ) (negated : Bool) (a b : Value) (site : Option Site) :
    State ω σ φ :=
  let plain := Value.bool (a.same b != negated)
  if !a.same b && comparesItself a b then
    match s.heap.metafieldOf a b "__eq" with
    | .nil => s.giveOne plain
    | handler => s.callFrom (.truth negated) handler [a, b] site
  else s.giveOne plain

/-- Compare two values in order. -/
def order (s : State ω σ φ) (event : String) (numbers : Number → Number → Bool)
    (texts : Bytes → Bytes → Bool) (a b : Value) (site : Option Site) : State ω σ φ :=
  match a, b with
  | .number x, .number y => s.giveOne (.bool (numbers x y))
  | .text x, .text y => s.giveOne (.bool (texts x y))
  | a, b =>
    match s.heap.metafieldOf a b event with
    | .nil =>
      let kinds := if a.typeName = b.typeName then "two " ++ a.typeName ++ " values"
        else a.typeName ++ " with " ++ b.typeName
      s.raiseText site ("attempt to compare " ++ kinds)
    | handler => s.callFrom (.truth false) handler [a, b] site

/-- Whether the first of two values comes before the second. -/
def before (s : State ω σ φ) (a b : Value) (site : Option Site) : State ω σ φ :=
  s.order "__lt" Number.less (fun x y => decide (x < y)) a b site

/-- Whether the first of two values comes before the second or is as large. -/
def notAfter (s : State ω σ φ) (a b : Value) (site : Option Site) : State ω σ φ :=
  s.order "__le" Number.atMost (fun x y => !decide (y < x)) a b site

/-- Apply an operator to two values. -/
def operate (s : State ω σ φ) (op : BinaryOp) (a b : Value) (site : Option Site) : State ω σ φ :=
  match op with
  | .arithmetic op => s.arithmetic op a b site
  | .concat => s.concatenate a b site
  | .equal => s.equality false a b site
  | .notEqual => s.equality true a b site
  | .less => s.before a b site
  | .atMost => s.notAfter a b site
  | .greater => s.before b a site
  | .atLeast => s.notAfter b a site

/-- The length of a value. -/
def lengthOf (s : State ω σ φ) (v : Value) (site : Option Site) : State ω σ φ :=
  match v with
  | .text bytes => s.giveOne (.ofNat bytes.length)
  | v =>
    match s.heap.metafield v "__len", v with
    | .nil, .table ref => s.giveOne (.ofNat (s.heap.table ref).length)
    | .nil, v => s.badOperand "get length of" v site
    | handler, v => s.callFrom .single handler [v, v] site

/-- Apply an operator to a value. -/
def operateOn (s : State ω σ φ) (op : UnaryOp) (v : Value) (site : Option Site) : State ω σ φ :=
  match op with
  | .not => s.giveOne (.bool (!v.isTrue))
  | .length => s.lengthOf v site
  | .negate =>
    match v.toNumber? with
    | some n => s.giveOne (.number n.negate)
    | none =>
      match s.heap.metafield v "__unm" with
      | .nil => s.badOperand "perform arithmetic on" v site
      | handler => s.callFrom .single handler [v, v] site
  | .bitNot =>
    match v with
    | .number n =>
      match n.toInt? with
      | some n => s.giveOne (.int (n ^^^ (-1)))
      | none => s.raiseText site ArithmeticError.noInteger.message
    | v =>
      match s.heap.metafield v "__bnot" with
      | .nil => s.badOperand "perform bitwise operation on" v site
      | handler => s.callFrom .single handler [v, v] site

/-! ## Fields -/

/-- Read a field that is not there as a metatable says. -/
def passIndex (s : State ω σ φ) (handler object key : Value) (site : Option Site) (hops : Nat) :
    State ω σ φ :=
  if handler.isFunction then s.callFrom .single handler [object, key] site
  else if maxHops ≤ hops then s.raiseText site "'__index' chain too long; possibly a loop"
  else s.go (.index handler key site (hops + 1))

/-- The method of an object that a key names, or nil. -/
def methodOf (host : Host ω σ φ) (o : ω) (key : Value) : Value :=
  match key with
  | .text name => if (host.methods o).contains name then .method name else .nil
  | _ => .nil

/-- Read a field. -/
def index (host : Host ω σ φ) (s : State ω σ φ) (object key : Value) (site : Option Site)
    (hops : Nat) : State ω σ φ :=
  match object with
  | .table ref =>
    match (s.heap.table ref).get key with
    | .nil =>
      match s.heap.metafield object "__index" with
      | .nil => s.giveOne .nil
      | handler => s.passIndex handler object key site hops
    | v => s.giveOne v
  | .object ref =>
    match s.heap.objects[ref]? with
    | some (.host o) => s.giveOne (methodOf host o key)
    | _ => s.badOperand "index" object site
  | object =>
    match s.heap.metafield object "__index" with
    | .nil => s.badOperand "index" object site
    | handler => s.passIndex handler object key site hops

/-- Write a field that is not there as a metatable says. -/
def passStore (s : State ω σ φ) (handler object key value : Value) (site : Option Site)
    (hops : Nat) : State ω σ φ :=
  if handler.isFunction then s.callFrom .discard handler [object, key, value] site
  else if maxHops ≤ hops then s.raiseText site "'__newindex' chain too long; possibly a loop"
  else s.go (.store handler key value site (hops + 1))

/-- Write a field of a table itself. -/
def storeRaw (s : State ω σ φ) (ref : Nat) (key value : Value) (site : Option Site) :
    State ω σ φ :=
  match TableLibrary.badKey? key with
  | some reason => s.raiseText site reason
  | none =>
    { s with heap := s.heap.modifyTable ref fun t => t.set key value, control := .finished }

/-- Write a field. -/
def store (s : State ω σ φ) (object key value : Value) (site : Option Site) (hops : Nat) :
    State ω σ φ :=
  match object with
  | .table ref =>
    if ((s.heap.table ref).get key).isNil then
      match s.heap.metafield object "__newindex" with
      | .nil => s.storeRaw ref key value site
      | handler => s.passStore handler object key value site hops
    else s.storeRaw ref key value site
  | object =>
    match s.heap.metafield object "__newindex" with
    | .nil => s.badOperand "index" object site
    | handler => s.passStore handler object key value site hops

end State

end ScriptedViews.Script

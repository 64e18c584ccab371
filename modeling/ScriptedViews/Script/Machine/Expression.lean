import ScriptedViews.Script.Machine.Sort

set_option autoImplicit false

/-! # Expressions

The first step of evaluating an expression, and the step after each of its parts. -/

namespace ScriptedViews.Script

namespace Scope

/-- The cell of an expression that is a variable of the running function. -/
def ownCell? (s : Scope) : Expr → Option Nat
  | .name _ n =>
    match s.find? n with
    | some (cell, true) => some cell
    | _ => none
  | .single e => s.ownCell? e
  | _ => none

end Scope

namespace Construction

/-- How many items are collected before they are put into the table. -/
def batch : Nat := 50

/-- Put the collected items into the table. -/
def flush (c : Construction) : Construction :=
  { table := c.table.setItems c.placed c.pending.reverse
    placed := c.placed + c.pending.length }

/-- Put the collected items into the table if there are enough of them. -/
def settle (c : Construction) : Construction :=
  if c.pending.length = batch then c.flush else c

/-- Collect an item. -/
def add (c : Construction) (v : Value) : Construction :=
  { c with pending := v :: c.pending }

end Construction

namespace State

variable {ω σ φ : Type}

/-! ## First steps -/

/-- Read a variable: one in scope, or a field of the table of global variables. -/
def readName (s : State ω σ φ) (scope : Scope) (line : Nat) (n : Name) : State ω σ φ :=
  match scope.find? n with
  | some (cell, _) => s.giveOne (s.heap.cell cell)
  | none =>
    let environment := match scope.find? environmentName with
      | some (cell, _) => s.heap.cell cell
      | none => .nil
    s.go (.index environment (.text n) (some (scope.site line)) 0)

/-- Evaluate two operands, and apply an operator. The operands of a concatenation are kept as they
    are when they are met. -/
def evaluateBinary (s : State ω σ φ) (scope : Scope) (site : Site) (op : BinaryOp)
    (left right : Expr) : State ω σ φ :=
  match op, scope.ownCell? left with
  | .concat, _ => s.push (.binaryLeft scope op site right) (.evaluate scope left)
  | _, some cell => s.push (.binaryRight op (.variable cell) site) (.evaluate scope right)
  | _, none => s.push (.binaryLeft scope op site right) (.evaluate scope left)

/-- Start to evaluate a call. -/
def evaluateCall (s : State ω σ φ) (scope : Scope) (tail : Bool) : Expr → State ω σ φ
  | .call line callee args => s.push (.callee scope line args tail) (.evaluate scope callee)
  | .methodCall line fieldLine object field args =>
    s.push (.receiver scope line fieldLine field args tail) (.evaluate scope object)
  | _ => s.give []

/-- Start to evaluate an expression. -/
def evaluate (s : State ω σ φ) (scope : Scope) (e : Expr) : State ω σ φ :=
  match e with
  | .nil => s.giveOne .nil
  | .bool b => s.giveOne (.bool b)
  | .number n => s.giveOne (.number n)
  | .text bytes => s.giveOne (.text bytes)
  | .varargs => s.give scope.varargs
  | .function f =>
    let (v, heap) := s.heap.newFunction { function := f, vars := scope.vars, chunk := scope.chunk }
    { s with heap, control := .values [v] }
  | .name line n => s.readName scope line n
  | .index line object key =>
    match scope.ownCell? object with
    | some cell => s.push (.indexKey (.variable cell) (scope.site line)) (.evaluate scope key)
    | none => s.push (.indexed scope line key) (.evaluate scope object)
  | .call _ _ _ => s.evaluateCall scope false e
  | .methodCall _ _ _ _ _ => s.evaluateCall scope false e
  | .unary line op operand => s.push (.unary op (scope.site line)) (.evaluate scope operand)
  | .binary line op left right => s.evaluateBinary scope (scope.site line) op left right
  | .and left right => s.push (.and scope right) (.evaluate scope left)
  | .or left right => s.push (.or scope right) (.evaluate scope left)
  | .table fields => s.go (.construct scope {} fields)
  | .single e => s.push .single (.evaluate scope e)

/-- Evaluate the rest of a list of expressions. -/
def evaluateAll (s : State ω σ φ) (scope : Scope) (done : List Value) :
    List Expr → State ω σ φ
  | [] => s.give done.reverse
  | [e] => s.push (.lastItem done) (.evaluate scope e)
  | e :: rest => s.push (.item scope done rest) (.evaluate scope e)

/-! ## Tables -/

/-- Put a constructed table on the heap. -/
def finishTable (s : State ω σ φ) (c : Construction) : State ω σ φ :=
  let (ref, heap) := s.heap.newTable c.flush.table
  { s with heap, control := .values [.table ref] }

/-- Evaluate the value of a field. -/
def constructEntry (s : State ω σ φ) (scope : Scope) (c : Construction) (site : Site)
    (key : Operand) (value : Expr) (rest : List Field) : State ω σ φ :=
  s.push (.fieldValue scope c site key rest) (.evaluate scope value)

/-- Evaluate the rest of the fields of a table. -/
def construct (s : State ω σ φ) (scope : Scope) (c : Construction) :
    List Field → State ω σ φ
  | [] => s.finishTable c
  | .item e :: rest =>
    let c := c.settle
    match rest with
    | [] => s.push (.fieldLast c) (.evaluate scope e)
    | rest => s.push (.fieldItem scope c rest) (.evaluate scope e)
  | .entry line key value :: rest =>
    let c := c.settle
    let site := scope.site line
    match scope.ownCell? key with
    | some cell => s.constructEntry scope c site (.variable cell) value rest
    | none => s.push (.fieldKey scope c site value rest) (.evaluate scope key)

/-- Put a field into a table. -/
def constructed (s : State ω σ φ) (scope : Scope) (c : Construction) (site : Site)
    (key value : Value) (rest : List Field) : State ω σ φ :=
  match TableLibrary.badKey? key with
  | some reason => s.raiseText (some site) reason
  | none => s.go (.construct scope { c with table := c.table.set key value } rest)

end State

end ScriptedViews.Script

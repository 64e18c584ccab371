import ScriptedViews.Script.Machine.Expression

set_option autoImplicit false

/-! # Statements

The first step of running a statement, assignments, and loops. -/

namespace ScriptedViews.Script

namespace Target

/-- Keep the value that an operand has now, if it is the variable in a cell. -/
def freezeOperand (cell : Nat) (v : Value) : Operand → Operand
  | .variable c => if c = cell then .value v else .variable c
  | .value w => .value w

/-- Keep the value that a variable has now, as the variable itself is assigned to. -/
def freeze (cell : Nat) (v : Value) : Target → Target
  | .variable c => .variable c
  | .field site object key => .field site (freezeOperand cell v object) (freezeOperand cell v key)

end Target

/-- A loop over numbers before it starts. -/
inductive Counting where
  | ints (i step : Int64) (more : Nat)
  | floats (x limit step : Float)
  /-- The loop does not run at all. -/
  | nothing
  | bad (reason : String)

namespace Counting

/-- The last integer that a loop may reach; none if it does not run at all. -/
def intLimit? (limit : Number) (step : Int64) : Option Int64 :=
  match limit with
  | .int n => some n
  | .float x =>
    match floatInt? (if step < 0 then x.ceil else x.floor) with
    | some n => some n
    | none =>
      if 0.0 < x then (if step < 0 then none else some Int64.maxValue)
      else if 0 < step then none
      else some Int64.minValue

/-- A loop over integers. -/
def ofInts (start step : Int64) (limit : Number) : Counting :=
  if step = 0 then .bad "'for' step is zero"
  else match intLimit? limit step with
    | none => .nothing
    | some limit =>
      if (if 0 < step then limit < start else start < limit) then .nothing
      else .ints start step ((limit.toInt - start.toInt).natAbs / step.toInt.natAbs)

/-- A loop over floating point numbers. -/
def ofFloats (start limit step : Float) : Counting :=
  if step == 0.0 then .bad "'for' step is zero"
  else if (if 0.0 < step then limit < start else start < limit) then .nothing
  else .floats start limit step

/-- Why a value bounds no loop. -/
def badBound (what : String) : Counting :=
  .bad ("'for' " ++ what ++ " must be a number")

/-- A loop from one value to another in steps: over integers if the first value and the step are
    integers. -/
def start (first limit step : Value) : Counting :=
  match first, step with
  | .number (.int first), .number (.int step) =>
    if step = 0 then .bad "'for' step is zero"
    else match limit.toNumber? with
      | some limit => ofInts first step limit
      | none => badBound "limit"
  | first, step =>
    match limit.toNumber?, step.toNumber?, first.toNumber? with
    | none, _, _ => badBound "limit"
    | _, none, _ => badBound "step"
    | _, _, none => badBound "initial value"
    | some limit, some step, some first => ofFloats first.toFloat limit.toFloat step.toFloat

end Counting

namespace State

variable {ω σ φ : Type}

/-! ## Variables -/

/-- Make variables with values, for the rest of a block. -/
def declareAll (h : Heap ω) (scope : Scope) : List Name → List Value → Scope × Heap ω
  | [], _ => (scope, h)
  | n :: ns, vs =>
    let (cell, h) := h.newCell (firstValue vs)
    declareAll h (scope.declare n cell) ns vs.tail

/-- Run statements with more variables. -/
def executeWith (s : State ω σ φ) (scope : Scope) (names : List Name) (vs : List Value)
    (body : List Stmt) : State ω σ φ :=
  let (scope, heap) := declareAll s.heap scope names vs
  { s with heap, control := .execute scope body }

/-- Make a function that sees itself, and run the rest of its block. -/
def declareFunction (s : State ω σ φ) (scope : Scope) (n : Name) (f : Function)
    (rest : List Stmt) : State ω σ φ :=
  let (cell, h) := s.heap.newCell .nil
  let scope := scope.declare n cell
  let (v, h) := h.newFunction { function := f, vars := scope.vars, chunk := scope.chunk }
  { s with heap := h.setCell cell v, control := .execute scope rest }

/-! ## Assignments -/

/-- Whether an expression is a text that is written out. -/
def isTextLiteral : Expr → Bool
  | .text _ => true
  | _ => false

/-- The cell of an object whose field is assigned to, if the object is a variable that is read only
    when the field is written: one of the running function, or any if the key is written out. -/
def objectCell? (scope : Scope) (object key : Expr) : Option Nat :=
  match object with
  | .name _ n =>
    match scope.find? n with
    | some (cell, own) => if own || isTextLiteral key then some cell else none
    | none => none
  | .single _ => scope.ownCell? object
  | _ => none

/-- Find out what the key of a field is that is assigned to. -/
def resolveKey (s : State ω σ φ) (scope : Scope) (line : Nat) (object : Operand) (key : Expr)
    (done : List Target) (rest values : List Expr) : State ω σ φ :=
  match scope.ownCell? key with
  | some cell =>
    let target := Target.field (scope.site line) object (.variable cell)
    s.go (.resolve scope line (target :: done) rest values)
  | none => s.push (.targetKey scope line object done rest values) (.evaluate scope key)

/-- Find out what the rest of an assignment's targets are, and evaluate its values. -/
def resolve (s : State ω σ φ) (scope : Scope) (line : Nat) (done : List Target)
    (rest values : List Expr) : State ω σ φ :=
  match rest with
  | [] => s.push (.assignment done) (.evaluateAll scope [] values)
  | .name _ n :: rest =>
    match scope.find? n with
    | some (cell, _) =>
      let done := done.map (Target.freeze cell (s.heap.cell cell))
      s.go (.resolve scope line (.variable cell :: done) rest values)
    | none =>
      let object := match scope.find? environmentName with
        | some (cell, _) => Operand.variable cell
        | none => .value .nil
      let target := Target.field (scope.site line) object (.value (.text n))
      s.go (.resolve scope line (target :: done) rest values)
  | .index _ object key :: rest =>
    match objectCell? scope object key with
    | some cell => s.resolveKey scope line (.variable cell) key done rest values
    | none => s.push (.targetObject scope line key done rest values) (.evaluate scope object)
  | _ :: rest => s.go (.resolve scope line done rest values)

/-- Assign values to targets in turn. -/
def assignAll (s : State ω σ φ) : List (Target × Value) → State ω σ φ
  | [] => s.go .finished
  | (.variable cell, v) :: rest =>
    { s with heap := s.heap.setCell cell v, control := .assignAll rest }
  | (.field site object key, v) :: rest =>
    s.push (.assignRest rest) (.store (s.heap.operand object) (s.heap.operand key) v (some site) 0)

/-- Assign values to targets, of which the last comes first. -/
def assign (s : State ω σ φ) (targets : List Target) (vs : List Value) : State ω σ φ :=
  s.go (.assignAll (targets.zip (adjust targets.length vs).reverse))

/-! ## Loops -/

/-- Run the body of a loop over integers. -/
def runInts (s : State ω σ φ) (scope : Scope) (n : Name) (body : List Stmt) (i step : Int64)
    (more : Nat) : State ω σ φ :=
  (s.push (.intBody scope n body i step more) .finished).executeWith scope [n] [.int i] body

/-- Run the body of a loop over floating point numbers. -/
def runFloats (s : State ω σ φ) (scope : Scope) (n : Name) (body : List Stmt)
    (x limit step : Float) : State ω σ φ :=
  (s.push (.floatBody scope n body x limit step) .finished).executeWith scope [n] [.float x] body

/-- Start a loop over numbers. -/
def startNumeric (s : State ω σ φ) (scope : Scope) (site : Site) (n : Name) (body : List Stmt)
    (vs : List Value) : State ω σ φ :=
  match Counting.start (vs.getD 0 .nil) (vs.getD 1 .nil) (vs.getD 2 .nil) with
  | .bad reason => s.raiseText (some site) reason
  | .nothing => s.go .finished
  | .ints i step more => s.runInts scope n body i step more
  | .floats x limit step => s.runFloats scope n body x limit step

/-- Go on with a loop over integers. -/
def nextInt (s : State ω σ φ) (scope : Scope) (n : Name) (body : List Stmt) (i step : Int64) :
    Nat → State ω σ φ
  | 0 => s.go .finished
  | more + 1 => s.runInts scope n body (i + step) step more

/-- Go on with a loop over floating point numbers. -/
def nextFloat (s : State ω σ φ) (scope : Scope) (n : Name) (body : List Stmt)
    (x limit step : Float) : State ω σ φ :=
  let x := x + step
  if (if 0.0 < step then x ≤ limit else limit ≤ x) then s.runFloats scope n body x limit step
  else s.go .finished

/-- Ask the function of a loop for its next values. -/
def iterate (s : State ω σ φ) (scope : Scope) (site : Site) (names : List Name)
    (body : List Stmt) (iterator state control : Value) : State ω σ φ :=
  s.callFrom (.genericNext scope site names body iterator state) iterator [state, control]
    (some site)

/-- Run the body of a loop with the values that its function gave, unless the first one is nil. -/
def runGeneric (s : State ω σ φ) (scope : Scope) (site : Site) (names : List Name)
    (body : List Stmt) (iterator state : Value) (vs : List Value) : State ω σ φ :=
  match firstValue vs with
  | .nil => s.go .finished
  | control =>
    (s.push (.genericBody scope site names body iterator state control) .finished).executeWith
      scope names vs body

/-! ## First steps -/

/-- Leave the running function with the values of some expressions. If they are one call, the
    function is left for the one that is called. -/
def executeReturn (s : State ω σ φ) (scope : Scope) (values : List Expr) : State ω σ φ :=
  match values with
  | [] => s.go (.returning [])
  | [e] =>
    if Grammar.isCall e then (s.push .results .finished).evaluateCall scope true e
    else s.push .results (.evaluate scope e)
  | es => s.push .results (.evaluateAll scope [] es)

/-- Run the statements of a block. -/
def execute (s : State ω σ φ) (scope : Scope) (body : List Stmt) : State ω σ φ :=
  match body with
  | [] => s.go .finished
  | .local names values :: rest =>
    s.push (.declare scope names rest) (.evaluateAll scope [] values)
  | .localFunction n f :: rest => s.declareFunction scope n f rest
  | .return values :: _ => s.executeReturn scope values
  | stmt :: rest =>
    let s := s.push (.body scope rest) .finished
    match stmt with
    | .assign line targets values => s.go (.resolve scope line [] targets values)
    | .call e => (s.push .discard .finished).evaluateCall scope false e
    | .block body => s.go (.execute scope body)
    | .while condition body =>
      s.push (.whileTest scope condition body) (.evaluate scope condition)
    | .repeat body => s.push (.repeatBody scope body) (.execute scope body)
    | .until condition => s.push .untilTest (.evaluate scope condition)
    | .cond condition consequent alternative =>
      s.push (.cond scope consequent alternative) (.evaluate scope condition)
    | .numericFor line n start limit step body =>
      s.push (.numericStart scope (scope.site line) n body)
        (.evaluateAll scope [] [.single start, .single limit, .single step])
    | .genericFor line names values body =>
      s.push (.genericStart scope (scope.site line) names body) (.evaluateAll scope [] values)
    | .break => s.go .leaving
    | _ => s

end State

end ScriptedViews.Script

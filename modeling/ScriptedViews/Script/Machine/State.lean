import ScriptedViews.Script.Library.Basic

set_option autoImplicit false

/-! # States of the machine

The machine takes code apart step by step. What is to be done next is its control; what is to be
done with the outcome is a stack of frames. Functions of the host may call functions of the script
and go on with the outcome: what they keep in the meantime is a frame too. -/

namespace ScriptedViews.Script

/-! ## Where code runs -/

/-- What code sees at one place. -/
structure Scope where
  /-- The variables, innermost first, with the cells that hold their values. -/
  vars : List (Name × Nat)
  /-- How many of them belong to the running function. -/
  own : Nat := 0
  /-- What the running function was called with beyond its parameters. -/
  varargs : List Value := []
  /-- The short name of the source. -/
  chunk : Bytes

namespace Scope

/-- A place in the source. -/
def site (s : Scope) (line : Nat) : Site :=
  ⟨s.chunk, line⟩

/-- Look for a variable among some: its cell, and how many stand before it. -/
def findFrom (n : Name) : Nat → List (Name × Nat) → Option (Nat × Nat)
  | _, [] => none
  | i, (m, cell) :: rest => if m = n then some (cell, i) else findFrom n (i + 1) rest

/-- The cell of a variable, and whether the variable belongs to the running function. -/
def find? (s : Scope) (n : Name) : Option (Nat × Bool) :=
  (findFrom n 0 s.vars).map fun r => (r.1, r.2 < s.own)

/-- The scope with one more variable. -/
def declare (s : Scope) (n : Name) (cell : Nat) : Scope :=
  { s with vars := (n, cell) :: s.vars, own := s.own + 1 }

end Scope

/-- An operand that has been evaluated. A variable of the running function counts with the value
    that it has when the operator is applied. -/
inductive Operand where
  | value (v : Value)
  | variable (cell : Nat)

/-- What is assigned to. -/
inductive Target where
  | variable (cell : Nat)
  | field (site : Site) (object key : Operand)

/-- A table that is being constructed. Its items are put in some at a time. -/
structure Construction where
  table : Table := {}
  /-- How many items have been put in. -/
  placed : Nat := 0
  /-- The items to be put in, the last one first. -/
  pending : List Value := []

/-- A part of a table that is being sorted, and what it is compared with. -/
inductive SortPhase where
  /-- The last element with the first. -/
  | ends
  /-- The middle element with the first. -/
  | middleFirst (middle : Nat)
  /-- The last element with the middle one. -/
  | lastMiddle (middle : Nat)
  /-- An element from the left with the pivot. -/
  | left (i j : Nat) (pivot : Value)
  /-- The pivot with an element from the right. -/
  | right (i j : Nat) (pivot : Value)
deriving Inhabited

/-- A table that is being sorted. -/
structure Sorting where
  table : Nat
  /-- The function that tells whether its first argument comes before its second. -/
  order : Option Value
  /-- The part that is being sorted. -/
  first : Nat
  last : Nat
  /-- The parts to be sorted after it. -/
  later : List (Nat × Nat) := []
  phase : SortPhase := .ends

/-! ## Frames -/

/-- What is to be done with the outcome of what runs above it. -/
inductive Frame (φ : Type) where
  -- Expressions
  /-- The first of its values is a value in a list. -/
  | item (scope : Scope) (done : List Value) (rest : List Expr)
  /-- All of its values end a list. -/
  | lastItem (done : List Value)
  /-- The first of its values alone counts. -/
  | single
  | callee (scope : Scope) (line : Nat) (args : List Expr) (tail : Bool)
  | receiver (scope : Scope) (line fieldLine : Nat) (field : Name) (args : List Expr) (tail : Bool)
  | methodOf (receiver : Value) (scope : Scope) (line : Nat) (args : List Expr) (tail : Bool)
  | arguments (callee : Value) (lead : List Value) (site : Site) (tail : Bool)
  | indexed (scope : Scope) (line : Nat) (key : Expr)
  | indexKey (object : Operand) (site : Site)
  | unary (op : UnaryOp) (site : Site)
  | binaryLeft (scope : Scope) (op : BinaryOp) (site : Site) (right : Expr)
  | binaryRight (op : BinaryOp) (left : Operand) (site : Site)
  | and (scope : Scope) (right : Expr)
  | or (scope : Scope) (right : Expr)
  /-- Its value is a truth, or the opposite of one. -/
  | truth (negated : Bool)
  /-- A number of its values count. -/
  | atMost (count : Nat)
  | fieldItem (scope : Scope) (c : Construction) (rest : List Field)
  | fieldLast (c : Construction)
  | fieldKey (scope : Scope) (c : Construction) (site : Site) (value : Expr) (rest : List Field)
  | fieldValue (scope : Scope) (c : Construction) (site : Site) (key : Operand) (rest : List Field)
  -- Statements
  | body (scope : Scope) (rest : List Stmt)
  | declare (scope : Scope) (names : List Name) (rest : List Stmt)
  | targetObject (scope : Scope) (line : Nat) (key : Expr) (done : List Target)
      (rest values : List Expr)
  | targetKey (scope : Scope) (line : Nat) (object : Operand) (done : List Target)
      (rest values : List Expr)
  /-- Its values are assigned to the targets, the last target of the statement first. -/
  | assignment (targets : List Target)
  | assignRest (rest : List (Target × Value))
  | discard
  | cond (scope : Scope) (consequent alternative : List Stmt)
  | whileTest (scope : Scope) (condition : Expr) (body : List Stmt)
  | whileBody (scope : Scope) (condition : Expr) (body : List Stmt)
  | repeatBody (scope : Scope) (body : List Stmt)
  | untilTest
  | numericStart (scope : Scope) (site : Site) (name : Name) (body : List Stmt)
  | intBody (scope : Scope) (name : Name) (body : List Stmt) (i step : Int64) (more : Nat)
  | floatBody (scope : Scope) (name : Name) (body : List Stmt) (x limit step : Float)
  | genericStart (scope : Scope) (site : Site) (names : List Name) (body : List Stmt)
  | genericNext (scope : Scope) (site : Site) (names : List Name) (body : List Stmt)
      (iterator state : Value)
  | genericBody (scope : Scope) (site : Site) (names : List Name) (body : List Stmt)
      (iterator state control : Value)
  | results
  -- Calls
  /-- A function of the script runs above. -/
  | activation (site : Option Site)
  /-- Something that is no code of the script called what runs above. -/
  | native
  /-- Errors of what runs above are results. -/
  | guarded (site : Option Site)
  /-- A function of the host called what runs above. -/
  | host (φ : φ)
  /-- Its value is the text of an error that goes to the host. -/
  | describing
  -- Library functions
  | textOf (site : Option Site)
  | iterated (i : Int64)
  | formatting (d : Format.Directive) (t : Format.Template) (site : Option Site)
  | sorting (s : Sorting) (site : Option Site)
  | chunkPiece (source : Bytes) (reader : Value) (name : Bytes) (environment : Value)

/-! ## States -/

/-- What is to be done next. -/
inductive Control where
  | evaluate (scope : Scope) (e : Expr)
  /-- The values of some expressions, after those that are known, the last one first. -/
  | evaluateAll (scope : Scope) (done : List Value) (es : List Expr)
  | construct (scope : Scope) (c : Construction) (fields : List Field)
  | execute (scope : Scope) (body : List Stmt)
  /-- Find out what an assignment assigns to. -/
  | resolve (scope : Scope) (line : Nat) (done : List Target) (rest values : List Expr)
  | assignAll (pairs : List (Target × Value))
  | invoke (callee : Value) (args : List Value) (site : Option Site)
  | index (object key : Value) (site : Option Site) (hops : Nat)
  | store (object key value : Value) (site : Option Site) (hops : Nat)
  | sort (s : Sorting) (site : Option Site)
  /-- An expression or a call has these values. -/
  | values (vs : List Value)
  /-- A statement has run. -/
  | finished
  /-- The innermost loop is left. -/
  | leaving
  /-- The running function is left with these values. -/
  | returning (vs : List Value)
  /-- An error is on its way. -/
  | raised (error : Value)
  /-- A failure is on its way to the host. -/
  | failed (cause : RaisedError)

/-- The machine at one time. -/
structure State (ω σ φ : Type) where
  heap : Heap ω
  /-- What the host keeps. -/
  world : σ
  stack : List (Frame φ)
  control : Control
  /-- How many calls have been made that no code of the script made. -/
  level : Nat := 0
  /-- How many functions of the script are running. -/
  depth : Nat := 0

/-! ## The host -/

/-- What a function of the host does next. -/
inductive HostAction (φ : Type) where
  /-- It is done. -/
  | answer (vs : List Value)
  | fail (cause : RaisedError)
  /-- Call a function, and go on with the outcome. -/
  | call (callee : Value) (args : List Value) (φ : φ)
  /-- Look up a field, and go on with the outcome. -/
  | get (object key : Value) (φ : φ)

/-- A function of the host after one turn. -/
structure Turn (ω σ φ : Type) where
  heap : Heap ω
  world : σ
  action : HostAction φ

/-- What the host provides: objects of type `ω` with methods, in a world of type `σ`. A frame of
    type `φ` is what one of its functions keeps while another function runs. -/
structure Host (ω σ φ : Type) where
  /-- The names of an object's methods. -/
  methods : ω → List Bytes
  /-- Call a method. The number is how many levels of calls there are. -/
  invoke : Bytes → List Value → Nat → Heap ω → σ → Turn ω σ φ
  /-- Go on with the outcome of a call. -/
  resume : φ → Except RaisedError (List Value) → Nat → Heap ω → σ → Turn ω σ φ

end ScriptedViews.Script

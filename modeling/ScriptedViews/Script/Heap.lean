import ScriptedViews.Failure
import ScriptedViews.Script.Chunk
import ScriptedViews.Script.Table

set_option autoImplicit false

/-! # The heap

Everything that values refer to: tables, the variables of functions, the functions themselves, and
objects that the host has put in. Nothing is ever taken off the heap. -/

namespace ScriptedViews.Script

/-- A function with the variables that it sees. -/
structure Closure where
  function : Function
  /-- The variables around the function, with the cells that hold their values. -/
  vars : List (Name × Nat)
  /-- The short name of the source that the function is from. -/
  chunk : Bytes
deriving Inhabited

/-- What an object of the host is. -/
inductive Object (ω : Type) where
  /-- An object with methods. -/
  | host (o : ω)
  /-- A failure of the host, on its way through code. -/
  | failure (cause : RaisedError)

/-- What values refer to. -/
structure Heap (ω : Type) where
  tables : Array Table := #[]
  cells : Array Value := #[]
  functions : Array Closure := #[]
  objects : Array (Object ω) := #[]
  /-- The table of the global variables. -/
  globals : Nat := 0
  /-- The metatable of all texts. -/
  textMetatable : Nat := 1
  /-- The metatable of the lists that the host makes. It is protected. -/
  listMetatable : Nat := 5

instance {ω : Type} : Inhabited (Heap ω) := ⟨{}⟩

namespace Heap

variable {ω : Type}

/-! ## Tables -/

/-- The table with a number. -/
def table (h : Heap ω) (ref : Nat) : Table :=
  h.tables.getD ref {}

/-- Change the table with a number. -/
def modifyTable (h : Heap ω) (ref : Nat) (f : Table → Table) : Heap ω :=
  { h with tables := h.tables.modify ref f }

/-- Put a table on the heap. -/
def newTable (h : Heap ω) (t : Table) : Nat × Heap ω :=
  (h.tables.size, { h with tables := h.tables.push t })

/-! ## Variables -/

/-- The value of the variable in a cell. -/
def cell (h : Heap ω) (ref : Nat) : Value :=
  h.cells.getD ref .nil

/-- Give the variable in a cell a value. -/
def setCell (h : Heap ω) (ref : Nat) (v : Value) : Heap ω :=
  { h with cells := h.cells.setIfInBounds ref v }

/-- Put a variable on the heap. -/
def newCell (h : Heap ω) (v : Value) : Nat × Heap ω :=
  (h.cells.size, { h with cells := h.cells.push v })

/-! ## Functions and objects -/

/-- Put a function on the heap. -/
def newFunction (h : Heap ω) (c : Closure) : Value × Heap ω :=
  (.function h.functions.size, { h with functions := h.functions.push c })

/-- Put an object on the heap. -/
def newObject (h : Heap ω) (o : Object ω) : Value × Heap ω :=
  (.object h.objects.size, { h with objects := h.objects.push o })

/-! ## Metatables -/

/-- The metatable of a value. -/
def metatable? (h : Heap ω) : Value → Option Nat
  | .table ref => (h.table ref).metatable
  | .text _ => some h.textMetatable
  | _ => none

/-- What the metatable of a value says under a name. -/
def metafield (h : Heap ω) (v : Value) (name : String) : Value :=
  match h.metatable? v with
  | some ref => (h.table ref).getText (ascii name)
  | none => .nil

/-- What the metatable of the first of two values, or else of the second, says under a name. -/
def metafieldOf (h : Heap ω) (a b : Value) (name : String) : Value :=
  let f := h.metafield a name
  if f.isNil then h.metafield b name else f

/-! ## Chunks -/

/-- Read source as a function without parameters whose global variables are the fields of
    `environment`. -/
def readChunk (h : Heap ω) (levels : Nat) (name source : Bytes) (environment : Value) :
    Except ReadError (Value × Heap ω) :=
  match readProgram levels source with
  | .error e => .error e
  | .ok function =>
    let (c, h) := h.newCell environment
    .ok (h.newFunction { function, vars := [(environmentName, c)], chunk := chunkTitle name })

end Heap

end ScriptedViews.Script

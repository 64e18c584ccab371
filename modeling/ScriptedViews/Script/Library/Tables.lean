import ScriptedViews.Script.Library.Math

set_option autoImplicit false

/-! # Functions on tables

What the library does to tables that are sequences, and to any value without asking it. A function
answers with its results and the heap as it leaves it. -/

namespace ScriptedViews.Script.TableLibrary

variable {ω : Type}

/-! ## Sequences -/

/-- The text of an element between others. -/
def element (t : Table) (i : Int) : Except String Bytes :=
  match (t.get (.int (Int64.ofInt i))).toText? with
  | some bytes => .ok bytes
  | none => .error ("invalid value (at index " ++ toString i ++ ") in table for 'concat'")

/-- The elements from `i` on with a separator between them. The first argument is how many more
    there are. -/
def join (t : Table) (separator : Bytes) : Nat → Int → Except String Bytes
  | 0, i => element t i
  | more + 1, i => do
    let bytes ← element t i
    return bytes ++ separator ++ (← join t separator more (i + 1))

/-- The texts of the elements, joined. -/
def concat (h : Heap ω) (a : Arguments) : Except String (List Value × Heap ω) := do
  let t := h.table (← a.table 0)
  let separator ← a.textOr 1 []
  let first ← a.intOr 2 1
  let last ← a.intOr 3 t.length
  if last < first then return ([.text []], h)
  else return ([.text (← join t separator (last - first).toNat first)], h)

/-- Give each key from `i` down to one above `stop` the value before it. The fuel is their
    number. -/
def shiftUp : Nat → Nat → Table → Table
  | 0, _, t => t
  | fuel + 1, i, t => shiftUp fuel (i - 1) (t.set (.ofNat i) (t.get (.ofNat (i - 1))))

/-- Give each key from `i` on the value after it. The fuel is their number. -/
def shiftDown : Nat → Nat → Table → Table
  | 0, _, t => t
  | fuel + 1, i, t => shiftDown fuel (i + 1) (t.set (.ofNat i) (t.get (.ofNat (i + 1))))

/-- Put an element at the end, or at a position before those that stand there. -/
def insert (h : Heap ω) (a : Arguments) : Except String (List Value × Heap ω) := do
  let ref ← a.table 0
  let t := h.table ref
  let last := t.length + 1
  match a.values with
  | [_, v] => return ([], h.modifyTable ref fun t => t.set (.ofNat last) v)
  | [_, _, v] =>
    let position ← a.int 1
    if 1 ≤ position ∧ position ≤ (last : Int) then
      return ([], h.modifyTable ref fun t =>
        (shiftUp (last - position.toNat) last t).set (.ofNat position.toNat) v)
    else a.bad 1 "position out of bounds"
  | _ => .error "wrong number of arguments to 'insert'"

/-- Take the element at the end or at a position out; those after it move up. -/
def remove (h : Heap ω) (a : Arguments) : Except String (List Value × Heap ω) := do
  let ref ← a.table 0
  let t := h.table ref
  let size := t.length
  let position ← a.intOr 1 size
  if 2 ≤ a.values.length ∧ position ≠ size ∧ ¬ (1 ≤ position ∧ position ≤ (size : Int) + 1) then
    a.bad 1 "position out of bounds"
  else
    let value := t.get (.int (Int64.ofInt position))
    let change (t : Table) : Table :=
      let moved := shiftDown (size - position.toNat) position.toNat t
      moved.set (if position < (size : Int) then .ofNat size else .int (Int64.ofInt position)) .nil
    return ([value], h.modifyTable ref change)

/-- The most values that a function gives. -/
def maxResults : Nat := 1000000

/-- The elements between two positions. -/
def unpack (h : Heap ω) (a : Arguments) : Except String (List Value × Heap ω) := do
  let t := match a.get 0 with
    | .table ref => h.table ref
    | _ => {}
  let first ← a.intOr 1 1
  let last ← a.intOr 2 t.length
  let count := (last - first + 1).toNat
  if maxResults ≤ count then .error "too many results to unpack"
  else return ((List.range count).map fun i => t.get (.int (Int64.ofInt (first + i))), h)

/-- A table of the arguments with their number. -/
def pack (h : Heap ω) (a : Arguments) : Except String (List Value × Heap ω) :=
  let t := (Table.ofList a.values).setText (ascii "n") (.ofNat a.values.length)
  let (ref, h) := h.newTable t
  .ok ([.table ref], h)

/-! ## Tables as they are -/

/-- The pair after that of a key. -/
def next (h : Heap ω) (a : Arguments) : Except String (List Value × Heap ω) := do
  match (h.table (← a.table 0)).next (a.get 1) with
  | none => .error "invalid key to 'next'"
  | some none => return ([.nil], h)
  | some (some (k, v)) => return ([k, v], h)

/-- The value of a key. -/
def rawget (h : Heap ω) (a : Arguments) : Except String (List Value × Heap ω) := do
  let t := h.table (← a.table 0)
  return ([t.get (← a.any 1)], h)

/-- Why a value can be no key. -/
def badKey? (key : Value) : Option String :=
  match key with
  | .nil => some "table index is nil"
  | .number (.float x) => if x == x then none else some "table index is NaN"
  | _ => none

/-- Give a key a value. -/
def rawset (h : Heap ω) (a : Arguments) : Except String (List Value × Heap ω) := do
  let ref ← a.table 0
  let key ← a.any 1
  let value ← a.any 2
  match badKey? key with
  | some reason => .error reason
  | none => return ([.table ref], h.modifyTable ref fun t => t.set key value)

/-- The length of a table or a text. -/
def rawlen (h : Heap ω) (a : Arguments) : Except String (List Value × Heap ω) :=
  match a.get 0 with
  | .table ref => .ok ([.ofNat (h.table ref).length], h)
  | .text bytes => .ok ([.ofNat bytes.length], h)
  | _ => a.bad 0 "table or string expected"

/-- Whether two values are equal without asking either of them. -/
def rawequal (h : Heap ω) (a : Arguments) : Except String (List Value × Heap ω) := do
  return ([.bool ((← a.any 0).same (← a.any 1))], h)

/-- The metatable of a value, or what it shows instead of itself. -/
def getmetatable (h : Heap ω) (a : Arguments) : Except String (List Value × Heap ω) := do
  match ← a.any 0 with
  | .object _ => return ([.bool false], h)
  | v =>
    match h.metatable? v with
    | none => return ([.nil], h)
    | some ref =>
      let shown := h.metafield v "__metatable"
      return ([if shown.isNil then .table ref else shown], h)

/-- Give a table a metatable, unless its own is protected. -/
def setmetatable (h : Heap ω) (a : Arguments) : Except String (List Value × Heap ω) := do
  let ref ← a.table 0
  let metatable ← match ← a.any 1 with
    | .nil => pure none
    | .table m => pure (some m)
    | _ => a.mistyped 1 "nil or table"
  if (h.metafield (.table ref) "__metatable").isNil then
    return ([.table ref], h.modifyTable ref fun t => { t with metatable })
  else .error "cannot change a protected metatable"

end ScriptedViews.Script.TableLibrary

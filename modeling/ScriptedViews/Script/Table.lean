import ScriptedViews.Script.Value

set_option autoImplicit false

/-! # Tables

A table maps values to values; what it maps to nil is not in it. The values of the keys 1, 2, 3 and
so on stand in an array, all others in a list of entries in order of insertion. An entry that has
been set to nil stays in the list as a mark of its place until another key is added, so that a walk
through a table may clear entries as it goes. -/

namespace ScriptedViews.Script

/-- Keys with values. -/
structure Table where
  /-- The values of the keys from one on. -/
  items : Array Value := #[]
  /-- The values of the other keys, in order of insertion. -/
  entries : List (Value × Value) := []
  /-- The table that says what this one does where it has no behaviour of its own. -/
  metatable : Option Nat := none
deriving Inhabited

namespace Table

/-! ## Reading -/

/-- The place in the array of an integer key. -/
def itemIndex? (t : Table) (n : Int64) : Option Nat :=
  let i := n.toInt
  if 1 ≤ i ∧ i ≤ (t.items.size : Int) then some (i.toNat - 1) else none

/-- The value of a key in a list of entries. -/
def lookup (key : Value) : List (Value × Value) → Value
  | [] => .nil
  | (k, v) :: rest => if k.same key then v else lookup key rest

/-- The value of a normal key. -/
def getNormal (t : Table) (key : Value) : Value :=
  match key with
  | .number (.int n) =>
    match t.itemIndex? n with
    | some i => t.items.getD i .nil
    | none => lookup key t.entries
  | _ => lookup key t.entries

/-- The value of a key. -/
def get (t : Table) (key : Value) : Value :=
  t.getNormal key.normalKey

/-- The value of a text key. -/
def getText (t : Table) (key : Bytes) : Value :=
  lookup (.text key) t.entries

/-! ## Writing -/

/-- Give a key a value in a list of entries, if the key has a place there. -/
def replace (key value : Value) : List (Value × Value) → Option (List (Value × Value))
  | [] => none
  | (k, v) :: rest =>
    if k.same key then some ((k, value) :: rest)
    else (replace key value rest).map ((k, v) :: ·)

/-- Give a key a value in the list of entries. -/
def setEntry (t : Table) (key value : Value) : Table :=
  match replace key value t.entries with
  | some entries => { t with entries }
  | none =>
    if value.isNil then t
    else { t with entries := t.entries.filter (fun e => !e.2.isNil) ++ [(key, value)] }

/-- Move entries whose keys follow the array into it. The fuel bounds their number. -/
def absorb : Nat → Table → Table
  | 0, t => t
  | fuel + 1, t =>
    let key := Value.ofNat (t.items.size + 1)
    let value := lookup key t.entries
    if value.isNil then t
    else absorb fuel { t with
      items := t.items.push value
      entries := t.entries.filter fun e => !e.1.same key }

/-- Append a value to the array. -/
def push (t : Table) (value : Value) : Table :=
  let t := { t with items := t.items.push value }
  if t.entries.isEmpty then t else absorb t.entries.length t

/-- Give a normal key a value. -/
def setNormal (t : Table) (key value : Value) : Table :=
  match key with
  | .number (.int n) =>
    match t.itemIndex? n with
    | some i => { t with items := t.items.setIfInBounds i value }
    | none =>
      if n.toInt = (t.items.size : Int) + 1 then (if value.isNil then t else t.push value)
      else t.setEntry key value
  | _ => t.setEntry key value

/-- Give a key a value. -/
def set (t : Table) (key value : Value) : Table :=
  t.setNormal key.normalKey value

/-- Give a text key a value. -/
def setText (t : Table) (key : Bytes) (value : Value) : Table :=
  t.setEntry (.text key) value

/-- Give the keys from `start + 1` on their values, even if they are nil. -/
def setItems (start : Nat) (values : List Value) (t : Table) : Table :=
  match values with
  | [] => t
  | v :: vs =>
    setItems (start + 1) vs
      (if start < t.items.size then { t with items := t.items.setIfInBounds start v }
        else t.push v)

/-- A table of the values from the key one on. -/
def ofList (values : List Value) : Table :=
  { items := values.toArray }

/-- A table with text keys. -/
def ofEntries (entries : List (String × Value)) : Table :=
  { entries := entries.map fun e => (.ofString e.1, e.2) }

/-- Take everything out of the table; what it does stays. -/
def clear (t : Table) : Table :=
  { metatable := t.metatable }

/-! ## Walking -/

/-- Everything in the array from place `i` on, with its keys. -/
def itemPairs (i : Nat) : List Value → List (Value × Value)
  | [] => []
  | v :: vs => (.ofNat (i + 1), v) :: itemPairs (i + 1) vs

/-- Everything in the table. -/
def toList (t : Table) : List (Value × Value) :=
  (itemPairs 0 t.items.toList ++ t.entries).filter fun e => !e.2.isNil

/-- Whether there is nothing in the table. -/
def isEmpty (t : Table) : Bool :=
  t.toList.isEmpty

/-- The first of some entries that is in the table. -/
def firstEntry : List (Value × Value) → Option (Value × Value)
  | [] => none
  | (k, v) :: rest => if v.isNil then firstEntry rest else some (k, v)

/-- The entries after the place of a key. -/
def entriesAfter (key : Value) : List (Value × Value) → Option (List (Value × Value))
  | [] => none
  | (k, _) :: rest => if k.same key then some rest else entriesAfter key rest

/-- The first pair from place `i` of the array on. The fuel bounds the places to look at. -/
def nextItem (t : Table) : Nat → Nat → Option (Value × Value)
  | 0, _ => firstEntry t.entries
  | fuel + 1, i =>
    match t.items[i]? with
    | none => firstEntry t.entries
    | some v => if v.isNil then nextItem t fuel (i + 1) else some (.ofNat (i + 1), v)

/-- The pair after that of a key, or the first one after nil; `none` if the key has no place. -/
def next (t : Table) (key : Value) : Option (Option (Value × Value)) :=
  match key.normalKey with
  | .nil => some (t.nextItem (t.items.size + 1) 0)
  | .number (.int n) =>
    match t.itemIndex? n with
    | some i => some (t.nextItem (t.items.size + 1) (i + 1))
    | none => (entriesAfter (.int n) t.entries).map firstEntry
  | key => (entriesAfter key t.entries).map firstEntry

/-! ## Length -/

/-- A place in the array, between one that is taken and one that is not, where a taken one is
    followed by one that is not. The fuel bounds the halvings. -/
def searchBorder (t : Table) : Nat → Nat → Nat → Nat
  | 0, low, _ => low
  | fuel + 1, low, high =>
    if high - low ≤ 1 then low
    else
      let middle := (low + high) / 2
      if (t.items.getD (middle - 1) .nil).isNil then searchBorder t fuel low middle
      else searchBorder t fuel middle high

/-- The length: a count `n` such that key `n` is in the table, or `n` is zero, and key `n + 1` is
    not. -/
def length (t : Table) : Nat :=
  let n := t.items.size
  if n = 0 then 0
  else if (t.items.getD (n - 1) .nil).isNil then
    if 2 ≤ n ∧ !(t.items.getD (n - 2) .nil).isNil then n - 1 else t.searchBorder n 0 n
  else n

end Table

end ScriptedViews.Script

import ScriptedViews.Script.Machine.Call

set_option autoImplicit false

/-! # Sorting

A table is sorted in place by parts: the median of the first, the middle and the last element of a
part becomes its pivot, the other elements go before or behind it, and the shorter of the two new
parts is sorted first. Each comparison may call a function, so the sort goes on from one comparison
to the next. -/

namespace ScriptedViews.Script

namespace State

variable {ω σ φ : Type}

/-- An element of a table that is being sorted. -/
def element (s : State ω σ φ) (ref i : Nat) : Value :=
  (s.heap.table ref).get (.ofNat i)

/-- Exchange two elements. -/
def exchange (s : State ω σ φ) (ref i j : Nat) : State ω σ φ :=
  let (a, b) := (s.element ref i, s.element ref j)
  { s with heap := s.heap.modifyTable ref fun t => (t.set (.ofNat i) b).set (.ofNat j) a }

/-- Compare two values, and go on with a sort. -/
def comparing (s : State ω σ φ) (task : Sorting) (phase : SortPhase) (a b : Value)
    (site : Option Site) : State ω σ φ :=
  let frame : Frame φ := .sorting { task with phase } site
  match task.order with
  | none => (s.push frame .finished).before a b none
  | some f => s.callFrom frame f [a, b] none

/-- Sort a part, or the parts after it if it is too short to be out of order. -/
def sortPart (s : State ω σ φ) (task : Sorting) (site : Option Site) : State ω σ φ :=
  if task.first < task.last then
    s.comparing task .ends (s.element task.table task.last) (s.element task.table task.first) site
  else match task.later with
    | [] => s.give []
    | (first, last) :: later => s.go (.sort { task with first, last, later } site)

/-- Go on with the parts after one that is in order. -/
def sortLater (s : State ω σ φ) (task : Sorting) (site : Option Site) : State ω σ φ :=
  s.go (.sort { task with first := 0, last := 0 } site)

/-- Look at the next element from the left. -/
def sortLeft (s : State ω σ φ) (task : Sorting) (i j : Nat) (pivot : Value) (site : Option Site) :
    State ω σ φ :=
  s.comparing task (.left (i + 1) j pivot) (s.element task.table (i + 1)) pivot site

/-- Look at the next element from the right. -/
def sortRight (s : State ω σ φ) (task : Sorting) (i j : Nat) (pivot : Value) (site : Option Site) :
    State ω σ φ :=
  s.comparing task (.right i (j - 1) pivot) pivot (s.element task.table (j - 1)) site

/-- Put the median before the last element, and the others around it. -/
def sortAround (s : State ω σ φ) (task : Sorting) (middle : Nat) (site : Option Site) :
    State ω σ φ :=
  if task.last - task.first = 2 then s.sortLater task site
  else
    let pivot := s.element task.table middle
    (s.exchange task.table middle (task.last - 1)).sortLeft task task.first (task.last - 1) pivot
      site

/-- Sort the parts before and behind the pivot, the shorter one first. -/
def sortParts (s : State ω σ φ) (task : Sorting) (pivot : Nat) (site : Option Site) :
    State ω σ φ :=
  let before := (task.first, pivot - 1)
  let behind := (pivot + 1, task.last)
  let (now, later) := if pivot - task.first < task.last - pivot then (before, behind)
    else (behind, before)
  s.go (.sort { task with first := now.1, last := now.2, later := later :: task.later } site)

/-- Fail because comparisons contradict each other. -/
def badOrder (s : State ω σ φ) (site : Option Site) : State ω σ φ :=
  s.raiseText site "invalid order function for sorting"

/-- Go on with a sort after a comparison. -/
def sortCompared (s : State ω σ φ) (task : Sorting) (holds : Bool) (site : Option Site) :
    State ω σ φ :=
  let (ref, first, last) := (task.table, task.first, task.last)
  match task.phase with
  | .ends =>
    let s := if holds then s.exchange ref first last else s
    if last - first = 1 then s.sortLater task site
    else
      let middle := (first + last) / 2
      s.comparing task (.middleFirst middle) (s.element ref middle) (s.element ref first) site
  | .middleFirst middle =>
    if holds then (s.exchange ref middle first).sortAround task middle site
    else s.comparing task (.lastMiddle middle) (s.element ref last) (s.element ref middle) site
  | .lastMiddle middle =>
    (if holds then s.exchange ref middle last else s).sortAround task middle site
  | .left i j pivot =>
    if !holds then s.sortRight task i j pivot site
    else if i = last - 1 then s.badOrder site
    else s.sortLeft task i j pivot site
  | .right i j pivot =>
    if holds then (if j < i then s.badOrder site else s.sortRight task i j pivot site)
    else if j < i then (s.exchange ref (last - 1) i).sortParts task i site
    else (s.exchange ref i j).sortLeft task i j pivot site

end State

end ScriptedViews.Script

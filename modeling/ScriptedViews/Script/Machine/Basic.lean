import ScriptedViews.Script.Machine.State

set_option autoImplicit false

/-! # Moves of the machine

The moves that steps are made of: going on with something else, putting a frame on the stack, and
raising an error. -/

namespace ScriptedViews.Script

/-- Exactly `count` of some values, with nil for those that are missing. -/
def adjust : Nat → List Value → List Value
  | 0, _ => []
  | count + 1, [] => .nil :: adjust count []
  | count + 1, v :: vs => v :: adjust count vs

/-- The value of an operand. -/
def Heap.operand {ω : Type} (h : Heap ω) : Operand → Value
  | .value v => v
  | .variable cell => h.cell cell

/-- The most levels of calls that no code of the script made. -/
def maxLevel : Nat := 200

/-- The most functions of the script that run at a time. -/
def maxDepth : Nat := 190000

namespace State

variable {ω σ φ : Type}

/-- Go on with something else. -/
def go (s : State ω σ φ) (c : Control) : State ω σ φ :=
  { s with control := c }

/-- Go on with some values. -/
def give (s : State ω σ φ) (vs : List Value) : State ω σ φ :=
  s.go (.values vs)

/-- Go on with a value. -/
def giveOne (s : State ω σ φ) (v : Value) : State ω σ φ :=
  s.give [v]

/-- Go on with something, and do what a frame says with its outcome. -/
def push (s : State ω σ φ) (f : Frame φ) (c : Control) : State ω σ φ :=
  { s with stack := f :: s.stack, control := c }

/-- Raise an error with a text that reports where. -/
def raise (s : State ω σ φ) (site : Option Site) (message : Bytes) : State ω σ φ :=
  s.go (.raised (.text (match site with
    | some p => p.report message
    | none => message)))

/-- Raise an error with a text that reports where. -/
def raiseText (s : State ω σ φ) (site : Option Site) (message : String) : State ω σ φ :=
  s.raise site (utf8 message)

/-- Call a function, not from code, and do what a frame says with its outcome. -/
def callFrom (s : State ω σ φ) (f : Frame φ) (callee : Value) (args : List Value)
    (site : Option Site) : State ω σ φ :=
  if maxLevel ≤ s.level + 1 then s.raiseText site "C stack overflow"
  else
    { s with
      stack := .native :: f :: s.stack
      level := s.level + 1
      control := .invoke callee args site }

/-- Put a function that has to be left again on the stack, with the level that it takes. -/
def enter (s : State ω σ φ) (f : Frame φ) (c : Control) : State ω σ φ :=
  { s with
    stack := f :: s.stack
    level := s.level + 1
    control := if maxLevel ≤ s.level + 1 then .raised (.ofString "C stack overflow") else c }

/-- Leave a level. -/
def leave (s : State ω σ φ) (c : Control) : State ω σ φ :=
  { s with level := s.level - 1, control := c }

end State

end ScriptedViews.Script

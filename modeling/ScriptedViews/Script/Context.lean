import ScriptedViews.Script.Machine.State
import ScriptedViews.Text.Utf8

set_option autoImplicit false

/-! # Contexts

The variables of one execution are the fields of a table of its own. What is not there is read from
the global variables, and what is assigned stays there. -/

namespace ScriptedViews.Script

/-- The code that makes a context. -/
def contextSource : Bytes :=
  ascii "return setmetatable(\x7b\x7d, \x7b __index = _G \x7d)"

namespace Heap

variable {ω : Type}

/-- The value of a variable of a context itself. -/
def contextGet (h : Heap ω) (context : Nat) (name : String) : Value :=
  (h.table context).getText (utf8 name)

/-- Give a variable of a context a value. -/
def contextSet (h : Heap ω) (context : Nat) (name : String) (v : Value) : Heap ω :=
  h.modifyTable context fun t => t.setText (utf8 name) v

/-- The variables of a context itself: the fields whose names are texts. -/
def contextEntries (h : Heap ω) (context : Nat) : List (String × Value) :=
  (h.table context).toList.filterMap fun e =>
    match e.1 with
    | .text bytes => some (Text.decodeLossy ⟨bytes.toArray⟩, e.2)
    | _ => none

/-- Take everything out of a context. What it does with fields that are not there stays. -/
def contextClear (h : Heap ω) (context : Nat) : Heap ω :=
  h.modifyTable context Table.clear

/-- Whether there is nothing in a context. -/
def contextIsEmpty (h : Heap ω) (context : Nat) : Bool :=
  (h.table context).isEmpty

end Heap

end ScriptedViews.Script

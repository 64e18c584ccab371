import ScriptedViews.Json.Value
import ScriptedViews.Script.Heap

set_option autoImplicit false

/-! # JSON values in scripts

What the host hands to scripts is JSON. Null becomes nil, so that it leaves a hole in a list and no
field in an object. -/

namespace ScriptedViews.Script

/-- A number as it is written: one with a point or an exponent is a floating point number even if it
    is integral, and so is one that fits no integer. -/
def importNumber (written : String) : Value :=
  let bytes := ascii written
  let isFloat := bytes.any fun b => b == 0x2e || b == 0x65 || b == 0x45
  match (if isFloat || bytes == ascii "-0" then none else readInt? bytes), readFloat? bytes with
  | some n, _ => .int n
  | none, some x => .float x
  | none, none => .nil

namespace Heap

variable {ω : Type}

mutual

/-- A JSON value as a value on the heap. -/
def importJson (h : Heap ω) : Json → Value × Heap ω
  | .null => (.nil, h)
  | .bool b => (.bool b, h)
  | .number written => (importNumber written, h)
  | .str s => (.ofString s, h)
  | .unpaired => (.nil, h)
  | .arr items =>
    let (values, h) := importItems h items
    let (ref, h) := h.newTable { Table.ofList values with metatable := some h.listMetatable }
    (.table ref, h)
  | .obj fields =>
    let (t, h) := importFields h {} fields
    let (ref, h) := h.newTable t
    (.table ref, h)

/-- The items of a JSON list as values. -/
def importItems (h : Heap ω) : List Json → List Value × Heap ω
  | [] => ([], h)
  | j :: js =>
    let (v, h) := importJson h j
    let (vs, h) := importItems h js
    (v :: vs, h)

/-- The fields of a JSON object in a table. -/
def importFields (h : Heap ω) (t : Table) : List (String × Json) → Table × Heap ω
  | [] => (t, h)
  | (name, j) :: fields =>
    let (v, h) := importJson h j
    importFields h (t.setText (utf8 name) v) fields

end

end Heap

end ScriptedViews.Script

set_option autoImplicit false

/-! # Maps in order of insertion

A map whose answers show the order in which its keys were first assigned, as a list of pairs with
distinct keys. Assigning to a key that is there already keeps its place. -/

namespace ScriptedViews

/-- Keys with their values, in order of first assignment. -/
abbrev OrderedMap (α β : Type) := List (α × β)

namespace OrderedMap

variable {α β : Type} [BEq α]

/-- The value of `key`. -/
def get? (m : OrderedMap α β) (key : α) : Option β :=
  m.lookup key

/-- Whether `key` has a value. -/
def contains (m : OrderedMap α β) (key : α) : Bool :=
  m.any fun entry => entry.1 == key

/-- Apply `f` to the value of `key`, or put `f default` at the end if there is none. -/
def modify [Inhabited β] (key : α) (f : β → β) : OrderedMap α β → OrderedMap α β
  | [] => [(key, f default)]
  | (k, v) :: rest => if k == key then (k, f v) :: rest else (k, v) :: modify key f rest

/-- Give `key` the value `value`. -/
def insert (m : OrderedMap α β) (key : α) (value : β) : OrderedMap α β :=
  match m with
  | [] => [(key, value)]
  | (k, v) :: rest => if k == key then (k, value) :: rest else (k, v) :: insert rest key value

/-- Forget `key`. -/
def erase (m : OrderedMap α β) (key : α) : OrderedMap α β :=
  m.filter fun entry => !(entry.1 == key)

end OrderedMap

end ScriptedViews

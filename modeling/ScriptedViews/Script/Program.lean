import ScriptedViews.Script.Value

set_option autoImplicit false

/-! # Programs

Code of the script language as a tree. Wherever running it can fail, or call something that asks
where it was called from, the tree holds the line. -/

namespace ScriptedViews.Script

/-- The name of a variable. -/
abbrev Name := Bytes

/-- The variable whose fields are the global variables. -/
def environmentName : Name :=
  ascii "_ENV"

/-- The operators with two operands that always evaluates both. -/
inductive BinaryOp where
  | arithmetic (op : ArithmeticOp)
  | concat
  | equal
  | notEqual
  | less
  | atMost
  | greater
  | atLeast
deriving DecidableEq, Repr

/-- The operators with one operand. -/
inductive UnaryOp where
  | negate
  | not
  | length
  | bitNot
deriving DecidableEq, Repr

mutual

/-- An expression. -/
inductive Expr where
  | nil
  | bool (b : Bool)
  | number (n : Number)
  | text (bytes : Bytes)
  /-- The values that the function was called with beyond its parameters. -/
  | varargs
  | function (f : Function)
  | name (line : Nat) (n : Name)
  | index (line : Nat) (object key : Expr)
  | call (line : Nat) (callee : Expr) (args : List Expr)
  /-- A call of a field of the object with the object as first argument. `fieldLine` is where the
      field is looked up. -/
  | methodCall (line fieldLine : Nat) (object : Expr) (field : Name) (args : List Expr)
  | unary (line : Nat) (op : UnaryOp) (operand : Expr)
  | binary (line : Nat) (op : BinaryOp) (left right : Expr)
  | and (left right : Expr)
  | or (left right : Expr)
  | table (fields : List Field)
  /-- An expression in parentheses, which has one value. -/
  | single (e : Expr)

/-- A field of a table constructor. -/
inductive Field where
  | item (e : Expr)
  | entry (line : Nat) (key value : Expr)

/-- A statement. -/
inductive Stmt where
  | local (names : List Name) (values : List Expr)
  | localFunction (name : Name) (f : Function)
  | assign (line : Nat) (targets values : List Expr)
  | call (e : Expr)
  | block (body : List Stmt)
  | while (condition : Expr) (body : List Stmt)
  /-- The body ends with the statement that tests the condition. -/
  | repeat (body : List Stmt)
  /-- Leave the innermost loop if the condition, which sees the variables of the block, holds. -/
  | until (condition : Expr)
  | cond (condition : Expr) (consequent alternative : List Stmt)
  | numericFor (line : Nat) (name : Name) (start limit step : Expr) (body : List Stmt)
  | genericFor (line : Nat) (names : List Name) (values : List Expr) (body : List Stmt)
  | break
  | return (values : List Expr)

/-- What a function takes and does. -/
inductive Function where
  | mk (params : List Name) (isVararg : Bool) (body : List Stmt)

end

instance : Inhabited Expr := ⟨.nil⟩

instance : Inhabited Function := ⟨.mk [] false []⟩

end ScriptedViews.Script

import ScriptedViews.Script.Grammar

set_option autoImplicit false

/-! # Programs on other lines

A tree of a program as it is read when so many lines stand above its source: the lines that it holds
are counted on, and nothing else changes. -/

namespace ScriptedViews.Script

mutual

/-- An expression so many lines further down. -/
def Expr.shift (d : Nat) : Expr → Expr
  | .nil => .nil
  | .bool b => .bool b
  | .number n => .number n
  | .text bytes => .text bytes
  | .varargs => .varargs
  | .function f => .function (f.shift d)
  | .name line n => .name (line + d) n
  | .index line object key => .index (line + d) (object.shift d) (key.shift d)
  | .call line callee args => .call (line + d) (callee.shift d) (shiftExprs d args)
  | .methodCall line fieldLine object field args =>
    .methodCall (line + d) (fieldLine + d) (object.shift d) field (shiftExprs d args)
  | .unary line op operand => .unary (line + d) op (operand.shift d)
  | .binary line op left right => .binary (line + d) op (left.shift d) (right.shift d)
  | .and left right => .and (left.shift d) (right.shift d)
  | .or left right => .or (left.shift d) (right.shift d)
  | .table fields => .table (shiftFields d fields)
  | .single e => .single (e.shift d)

/-- Expressions so many lines further down. -/
def shiftExprs (d : Nat) : List Expr → List Expr
  | [] => []
  | e :: es => e.shift d :: shiftExprs d es

/-- A field of a table constructor so many lines further down. -/
def Field.shift (d : Nat) : Field → Field
  | .item e => .item (e.shift d)
  | .entry line key value => .entry (line + d) (key.shift d) (value.shift d)

/-- Fields so many lines further down. -/
def shiftFields (d : Nat) : List Field → List Field
  | [] => []
  | f :: fs => f.shift d :: shiftFields d fs

/-- A statement so many lines further down. -/
def Stmt.shift (d : Nat) : Stmt → Stmt
  | .local names values => .local names (shiftExprs d values)
  | .localFunction name f => .localFunction name (f.shift d)
  | .assign line targets values => .assign (line + d) (shiftExprs d targets) (shiftExprs d values)
  | .call e => .call (e.shift d)
  | .block body => .block (shiftStmts d body)
  | .while condition body => .while (condition.shift d) (shiftStmts d body)
  | .repeat body => .repeat (shiftStmts d body)
  | .until condition => .until (condition.shift d)
  | .cond condition consequent alternative =>
    .cond (condition.shift d) (shiftStmts d consequent) (shiftStmts d alternative)
  | .numericFor line name start limit step body =>
    .numericFor (line + d) name (start.shift d) (limit.shift d) (step.shift d) (shiftStmts d body)
  | .genericFor line names values body =>
    .genericFor (line + d) names (shiftExprs d values) (shiftStmts d body)
  | .break => .break
  | .return values => .return (shiftExprs d values)

/-- Statements so many lines further down. -/
def shiftStmts (d : Nat) : List Stmt → List Stmt
  | [] => []
  | stmt :: stmts => stmt.shift d :: shiftStmts d stmts

/-- A function so many lines further down. -/
def Function.shift (d : Nat) : Function → Function
  | .mk params isVararg body => .mk params isVararg (shiftStmts d body)

end

attribute [simp] Expr.shift Field.shift Stmt.shift Function.shift

variable (d : Nat)

@[simp]
theorem shiftExprs_eq_map (es : List Expr) : shiftExprs d es = es.map (Expr.shift d) := by
  induction es with
  | nil => rfl
  | cons e es ih => rw [shiftExprs, ih, List.map_cons]

@[simp]
theorem shiftFields_eq_map (fs : List Field) : shiftFields d fs = fs.map (Field.shift d) := by
  induction fs with
  | nil => rfl
  | cons f fs ih => rw [shiftFields, ih, List.map_cons]

@[simp]
theorem shiftStmts_eq_map (stmts : List Stmt) : shiftStmts d stmts = stmts.map (Stmt.shift d) := by
  induction stmts with
  | nil => rfl
  | cons stmt stmts ih => rw [shiftStmts, ih, List.map_cons]

namespace Grammar

@[simp]
theorem isTarget_shift (e : Expr) : isTarget (e.shift d) = isTarget e := by
  cases e <;> rfl

@[simp]
theorem isCall_shift (e : Expr) : isCall (e.shift d) = isCall e := by
  cases e <;> rfl

theorem all_isTarget_shift (es : List Expr) :
    (es.map (Expr.shift d)).all isTarget = es.all isTarget := by
  rw [List.all_map]
  congr 1
  funext e
  exact isTarget_shift d e

theorem chainLine_shift (line : Nat) (e : Expr) :
    chainLine (line + d) (e.shift d) = chainLine line e + d := by
  induction e using chainLine.induct with
  | case1 inner left right => rw [Expr.shift, chainLine, chainLine]
  | case2 e ih => rw [Expr.shift, chainLine, chainLine, ih]
  | case3 e _ hsingle =>
    cases e with
    | binary inner op left right =>
      cases op <;> rfl
    | single e => exact absurd rfl (hsingle e)
    | _ => rfl

theorem Joint.apply_shift (j : Joint) (line last : Nat) (left right : Expr) :
    j.apply (line + d) (last + d) (left.shift d) (right.shift d)
      = (j.apply line last left right).shift d := by
  cases j with
  | op op =>
    cases op <;> simp only [Joint.apply, Expr.shift, chainLine_shift]
  | and => simp only [Joint.apply, Expr.shift]
  | or => simp only [Joint.apply, Expr.shift]

end Grammar

end ScriptedViews.Script

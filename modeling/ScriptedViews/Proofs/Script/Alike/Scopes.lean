import ScriptedViews.Proofs.Script.Alike.Values
import ScriptedViews.Script.Machine.Expression

set_option autoImplicit false

/-! # Scopes that are alike

The same code can stand in two frames: as a main function, whose table of global variables is a
variable around it, and as the body of a function that takes this table as a parameter. The scopes
of the second kind have one variable more behind that one, which is never found, and they may count
it as one of the running function. Neither matters to code that does not assign to it. -/

namespace ScriptedViews.Script

/-! ## Code that leaves a variable alone -/

/-- Whether an expression is a variable with some name. -/
def Expr.isVariable (n : Name) : Expr → Bool
  | .name _ m => m == n
  | _ => false

mutual

/-- Whether nothing in an expression assigns to a variable with some name. -/
def Expr.leaves (n : Name) : Expr → Bool
  | .function f => f.leaves n
  | .index _ object key => object.leaves n && key.leaves n
  | .call _ callee args => callee.leaves n && Expr.leaveAll n args
  | .methodCall _ _ object _ args => object.leaves n && Expr.leaveAll n args
  | .unary _ _ operand => operand.leaves n
  | .binary _ _ left right => left.leaves n && right.leaves n
  | .and left right => left.leaves n && right.leaves n
  | .or left right => left.leaves n && right.leaves n
  | .table fields => Field.leaveAll n fields
  | .single e => e.leaves n
  | _ => true

/-- Whether nothing in some expressions assigns to a variable with some name. -/
def Expr.leaveAll (n : Name) : List Expr → Bool
  | [] => true
  | e :: es => e.leaves n && Expr.leaveAll n es

/-- Whether nothing in a field assigns to a variable with some name. -/
def Field.leaves (n : Name) : Field → Bool
  | .item e => e.leaves n
  | .entry _ key value => key.leaves n && value.leaves n

/-- Whether nothing in some fields assigns to a variable with some name. -/
def Field.leaveAll (n : Name) : List Field → Bool
  | [] => true
  | f :: fs => f.leaves n && Field.leaveAll n fs

/-- Whether a statement assigns to no variable with some name. A variable that is declared has not
    been assigned to. -/
def Stmt.leaves (n : Name) : Stmt → Bool
  | .local _ values => Expr.leaveAll n values
  | .localFunction _ f => f.leaves n
  | .assign _ targets values =>
    targets.all (fun t => !t.isVariable n) && Expr.leaveAll n targets && Expr.leaveAll n values
  | .call e => e.leaves n
  | .block body => Stmt.leaveAll n body
  | .while condition body => condition.leaves n && Stmt.leaveAll n body
  | .repeat body => Stmt.leaveAll n body
  | .until condition => condition.leaves n
  | .cond condition consequent alternative =>
    condition.leaves n && Stmt.leaveAll n consequent && Stmt.leaveAll n alternative
  | .numericFor _ _ start limit step body =>
    start.leaves n && limit.leaves n && step.leaves n && Stmt.leaveAll n body
  | .genericFor _ _ values body => Expr.leaveAll n values && Stmt.leaveAll n body
  | .break => true
  | .return values => Expr.leaveAll n values

/-- Whether some statements assign to no variable with some name. -/
def Stmt.leaveAll (n : Name) : List Stmt → Bool
  | [] => true
  | s :: ss => s.leaves n && Stmt.leaveAll n ss

/-- Whether nothing in a function assigns to a variable with some name. -/
def Function.leaves (n : Name) : Function → Bool
  | .mk _ _ body => Stmt.leaveAll n body

end

attribute [simp] Expr.leaves Expr.leaveAll Field.leaves Field.leaveAll Stmt.leaves Stmt.leaveAll
  Function.leaves

/-! ## Variables and scopes -/

/-- Whether variables have the same names and cells that stand for each other. In a framed scope the
    last variable is the environment, and in the first of the scopes there is one more behind it. An
    environment that is covered by a parameter is never found, whatever it is in either scope. -/
inductive VarsAlike (R : Matching) : Bool → List (Name × Nat) → List (Name × Nat) → Prop where
  | nil : VarsAlike R false [] []
  | cons {framed : Bool} {vars vars' : List (Name × Nat)} (n : Name) {cell cell' : Nat}
      (h : R.cell cell cell') (hvars : VarsAlike R framed vars vars') :
      VarsAlike R framed ((n, cell) :: vars) ((n, cell') :: vars')
  | covered {cell cell' : Nat} (h : R.cell cell cell') (behind behind' : Nat) :
      VarsAlike R false [(environmentName, cell), (environmentName, behind)]
        [(environmentName, cell'), (environmentName, behind')]
  | environment {e e' : Nat × Nat} (h : R.environment e e') (behind : Nat) :
      VarsAlike R true [(environmentName, e.1), (environmentName, behind)]
        [(environmentName, e'.1)]

/-- Whether two scopes show the same variables. In a framed scope the environment may count as a
    variable of the running function in the first of the scopes only. -/
structure Scope.Alike (R : Matching) (framed : Bool) (s s' : Scope) : Prop where
  vars : VarsAlike R framed s.vars s'.vars
  own : s.own = s'.own ∨ framed = true ∧ s.own = s'.own + 1 ∧ s'.own + 1 = s'.vars.length
  varargs : ValuesAlike R s.varargs s'.varargs
  chunk : s.chunk = s'.chunk

/-- Whether two scopes show the same where a name is looked up. -/
inductive FoundAlike (R : Matching) (framed : Bool) (n : Name) :
    Option (Nat × Bool) → Option (Nat × Bool) → Prop where
  | none : FoundAlike R framed n none none
  | cell {a b : Nat} (h : R.cell a b) (own : Bool) :
      FoundAlike R framed n (some (a, own)) (some (b, own))
  | environment {e e' : Nat × Nat} (h : R.environment e e') (hn : n = environmentName)
      (hframed : framed = true) {own own' : Bool} (hown : own' = true → own = true) :
      FoundAlike R framed n (some (e.1, own)) (some (e'.1, own'))

variable {R S : Matching} {framed : Bool} {s s' : Scope}

theorem VarsAlike.mono (hg : R.Widens S) {vars vars' : List (Name × Nat)}
    (h : VarsAlike R framed vars vars') : VarsAlike S framed vars vars' := by
  induction h with
  | nil => exact .nil
  | cons n h _ ih => exact .cons n (hg.cell h) ih
  | covered h behind behind' => exact .covered (hg.cell h) behind behind'
  | environment h behind => exact .environment (hg.environment h) behind

theorem VarsAlike.length_eq {vars vars' : List (Name × Nat)} (h : VarsAlike R framed vars vars') :
    vars.length = vars'.length ∨ framed = true ∧ vars.length = vars'.length + 1 := by
  induction h with
  | nil => exact .inl rfl
  | cons n h _ ih => simpa using ih
  | covered h behind behind' => exact .inl rfl
  | environment h behind => exact .inr ⟨rfl, rfl⟩

/-- What a name is found to be does not depend on the places of the variables. -/
theorem VarsAlike.findFrom {vars vars' : List (Name × Nat)} (h : VarsAlike R framed vars vars')
    (n : Name) (i own own' : Nat)
    (hown : own = own' ∨ framed = true ∧ own = own' + 1 ∧ own' + 1 = i + vars'.length) :
    FoundAlike R framed n ((Scope.findFrom n i vars).map fun r => (r.1, decide (r.2 < own)))
      ((Scope.findFrom n i vars').map fun r => (r.1, decide (r.2 < own'))) := by
  induction h generalizing i with
  | nil => exact .none
  | @cons framed vars vars' m cell cell' h hvars ih =>
    simp only [Scope.findFrom]
    split
    · -- a variable in front of the environment is one of the function's own in both or in neither
      have hlength : vars'.length = 0 → framed = false := by
        intro h0
        cases hvars <;> simp_all
      have hsame : decide (i < own) = decide (i < own') := by
        rcases hown with heq | ⟨hframed, heq, hlen⟩
        · rw [heq]
        · have hpos : vars'.length ≠ 0 := fun h0 => by simp [hlength h0] at hframed
          simp only [List.length_cons] at hlen
          simp only [decide_eq_decide]
          omega
      simp only [Option.map_some, hsame]
      exact .cell h _
    · refine ih (i + 1) ?_
      rcases hown with heq | ⟨hframed, heq, hlen⟩
      · exact .inl heq
      · exact .inr ⟨hframed, heq, by simp only [List.length_cons] at hlen; omega⟩
  | covered h behind behind' =>
    obtain rfl : own = own' := hown.resolve_right fun hframed => Bool.noConfusion hframed.1
    simp only [Scope.findFrom]
    split
    · exact .cell h _
    · exact .none
  | environment h behind =>
    simp only [Scope.findFrom]
    split
    · rename_i hn
      refine .environment h hn.symm rfl fun hlt => ?_
      simp only [decide_eq_true_eq] at hlt ⊢
      rcases hown with heq | ⟨-, heq, -⟩ <;> omega
    · exact .none

namespace Scope.Alike

theorem mono (hg : R.Widens S) (h : s.Alike R framed s') : s.Alike S framed s' :=
  ⟨h.vars.mono hg, h.own, h.varargs.mono hg, h.chunk⟩

theorem find? (h : s.Alike R framed s') (n : Name) :
    FoundAlike R framed n (s.find? n) (s'.find? n) :=
  h.vars.findFrom n 0 s.own s'.own (by simpa using h.own)

theorem site_eq (h : s.Alike R framed s') (line : Nat) : s.site line = s'.site line := by
  simp only [Scope.site, h.chunk]

theorem declare (h : s.Alike R framed s') (n : Name) {cell cell' : Nat} (hc : R.cell cell cell') :
    (s.declare n cell).Alike R framed (s'.declare n cell') := by
  refine ⟨h.vars.cons n hc, ?_, h.varargs, h.chunk⟩
  rcases h.own with heq | ⟨hframed, heq, hlen⟩
  · exact .inl (by simp only [Scope.declare, heq])
  · exact .inr ⟨hframed, by simp only [Scope.declare, heq],
      by simp only [Scope.declare, List.length_cons, hlen]⟩

end Scope.Alike

end ScriptedViews.Script

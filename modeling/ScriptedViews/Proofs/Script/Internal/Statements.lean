import ScriptedViews.Proofs.Script.Internal.Expressions

set_option autoImplicit false

/-! # Statements without the host

Running a statement, assigning and looping is code that goes on by itself. What a statement waits for
is kept in a frame right above the frames of the statements around it. -/

namespace ScriptedViews.Script.State

variable {ω σ φ : Type}

theorem grows_declareAll (scope : Scope) (ns : List Name) (vs : List Value) (h : Heap ω) :
    h.Grows (declareAll h scope ns vs).2 := by
  induction ns generalizing scope vs h with
  | nil => exact .refl h
  | cons n ns ih => exact (Heap.grows_newCell h _).trans (ih _ _ _)

namespace IsOrderly

variable {s : State ω σ φ} (h : s.IsOrderly)

include h

/-- A frame of a statement is put on the stack. -/
theorem pushStatement (hb : InBody s.stack) {f : Frame φ} (hm : f.isHosts = false)
    (hc : f.construction? = none) {c : Control} (hs : c.isStatement = false)
    (hd : c.construction? = none) (hq : c.isFailed = false) : Internal s (s.push f c) :=
  h.push hm (.of_inBody hb hc) (.of_plain _ hs hd) hq

/-! ## Variables -/

theorem executeWith (hb : InBody s.stack) (scope : Scope) (names : List Name) (vs : List Value)
    (body : List Stmt) : Internal s (s.executeWith scope names vs body) :=
  h.goWith (grows_declareAll scope names vs s.heap) (.of_inBody hb rfl) rfl

theorem declareFunction (hb : InBody s.stack) (scope : Scope) (n : Name) (f : Function)
    (rest : List Stmt) : Internal s (s.declareFunction scope n f rest) :=
  h.goWith (((Heap.grows_newCell _ _).trans (Heap.grows_newFunction _ _)).trans
    (Heap.grows_setCell _ _ _)) (.of_inBody hb rfl) rfl

/-! ## Assignments -/

theorem resolveKey (hb : InBody s.stack) (scope : Scope) (line : Nat) (object : Operand)
    (key : Expr) (done : List Target) (rest values : List Expr) :
    Internal s (s.resolveKey scope line object key done rest values) := by
  unfold State.resolveKey
  split
  · exact h.go (.of_inBody hb rfl) rfl
  · exact h.pushStatement hb rfl rfl rfl rfl rfl

theorem resolve (hb : InBody s.stack) (scope : Scope) (line : Nat) (done : List Target)
    (rest values : List Expr) : Internal s (s.resolve scope line done rest values) := by
  unfold State.resolve
  split
  · exact h.pushStatement hb rfl rfl rfl rfl rfl
  · split
    · exact h.go (.of_inBody hb rfl) rfl
    · exact h.go (.of_inBody hb rfl) rfl
  · split
    · exact h.resolveKey hb _ _ _ _ _ _ _
    · exact h.pushStatement hb rfl rfl rfl rfl rfl
  · exact h.go (.of_inBody hb rfl) rfl

theorem assignAll (hb : InBody s.stack) (pairs : List (Target × Value)) :
    Internal s (s.assignAll pairs) := by
  unfold State.assignAll
  split
  · exact h.go (.of_inBody hb rfl) rfl
  · exact h.goWith (Heap.grows_setCell _ _ _) (.of_inBody hb rfl) rfl
  · exact h.push rfl (.of_inBody hb rfl) (.of_inBody (.inr ⟨rfl, hb⟩) rfl) rfl

theorem assign (hb : InBody s.stack) (targets : List Target) (vs : List Value) :
    Internal s (s.assign targets vs) :=
  h.go (.of_inBody hb rfl) rfl

/-! ## Loops -/

/-- The body of a loop is run with its variables. -/
theorem runBody (hb : InBody s.stack) {f : Frame φ} (hs : f.isStatement = true)
    (scope : Scope) (names : List Name) (vs : List Value) (body : List Stmt) :
    Internal s ((s.push f .finished).executeWith scope names vs body) := by
  have hc : f.construction? = none := by cases f <;> first | rfl | cases hs
  exact .of_push (f.isHosts_of_isStatement hs)
    ((h.pushed (.of_inBody hb hc) .finished).executeWith (.inr ⟨hs, hb⟩) scope names vs body)

theorem startNumeric (hb : InBody s.stack) (scope : Scope) (site : Site) (n : Name)
    (body : List Stmt) (vs : List Value) :
    Internal s (s.startNumeric scope site n body vs) := by
  unfold State.startNumeric
  split
  · exact h.raiseText _ _
  · exact h.go (.of_inBody hb rfl) rfl
  · exact h.runBody hb rfl scope _ _ body
  · exact h.runBody hb rfl scope _ _ body

theorem nextInt (hb : InBody s.stack) (scope : Scope) (n : Name) (body : List Stmt)
    (i step : Int64) (more : Nat) : Internal s (s.nextInt scope n body i step more) := by
  unfold State.nextInt
  split
  · exact h.go (.of_inBody hb rfl) rfl
  · exact h.runBody hb rfl scope _ _ body

theorem nextFloat (hb : InBody s.stack) (scope : Scope) (n : Name) (body : List Stmt)
    (x limit step : Float) : Internal s (s.nextFloat scope n body x limit step) := by
  unfold State.nextFloat
  have hrun : Internal s (s.runFloats scope n body (x + step) limit step) :=
    h.runBody hb rfl scope _ _ body
  have hend : Internal s (s.go .finished) := h.go (.of_inBody hb rfl) rfl
  dsimp only
  split
  · split
    · exact hrun
    · exact hend
  · split
    · exact hrun
    · exact hend

theorem iterate (hb : InBody s.stack) (scope : Scope) (site : Site) (names : List Name)
    (body : List Stmt) (iterator state control : Value) :
    Internal s (s.iterate scope site names body iterator state control) :=
  h.callFrom rfl (.of_inBody hb rfl) _ _ _

theorem runGeneric (hb : InBody s.stack) (scope : Scope) (site : Site) (names : List Name)
    (body : List Stmt) (iterator state : Value) (vs : List Value) :
    Internal s (s.runGeneric scope site names body iterator state vs) := by
  unfold State.runGeneric
  split
  · exact h.go (.of_inBody hb rfl) rfl
  · exact h.runBody hb rfl scope _ _ body

/-! ## First steps -/

theorem executeReturn (hb : InBody s.stack) (scope : Scope) (values : List Expr) :
    Internal s (s.executeReturn scope values) := by
  unfold State.executeReturn
  split
  · exact h.go (.of_inBody hb rfl) rfl
  · split
    · exact .of_push rfl ((h.pushed (.of_inBody hb rfl) .finished).evaluateCall scope true
        (fun _ => .inr ⟨rfl, hb⟩) _)
    · exact h.pushStatement hb rfl rfl rfl rfl rfl
  · exact h.pushStatement hb rfl rfl rfl rfl rfl

theorem execute (hb : InBody s.stack) (scope : Scope) (body : List Stmt) :
    Internal s (s.execute scope body) := by
  unfold State.execute
  split
  · exact h.go (.of_inBody hb rfl) rfl
  · exact h.pushStatement hb rfl rfl rfl rfl rfl
  · exact h.declareFunction hb scope _ _ _
  · exact h.executeReturn hb scope _
  · -- a statement with others after it, which wait in a frame
    next stmt rest _ _ _ =>
    have h' : (s.push (.body scope rest) .finished).IsOrderly := h.pushed (.of_inBody hb rfl) _
    have hb' : InBody (s.push (.body scope rest) .finished).stack := .inr ⟨rfl, hb⟩
    refine .of_push (f := .body scope rest) (c := .finished) rfl ?_
    split
    · exact h'.go (.of_inBody hb' rfl) rfl
    · exact .of_push rfl ((h'.pushed (.of_inBody hb' rfl) .finished).evaluateCall scope false
        (fun h => by cases h) _)
    · exact h'.go (.of_inBody hb' rfl) rfl
    · exact h'.pushStatement hb' rfl rfl rfl rfl rfl
    · exact h'.push rfl (.of_inBody hb' rfl) (.of_inBody (.inr ⟨rfl, hb'⟩) rfl) rfl
    · exact h'.pushStatement hb' rfl rfl rfl rfl rfl
    · exact h'.pushStatement hb' rfl rfl rfl rfl rfl
    · exact h'.pushStatement hb' rfl rfl rfl rfl rfl
    · exact h'.pushStatement hb' rfl rfl rfl rfl rfl
    · exact h'.go (.of_inBody hb' rfl) rfl
    · exact h'.go (.of_inBody hb' rfl) rfl

end IsOrderly

end ScriptedViews.Script.State

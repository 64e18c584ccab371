import ScriptedViews.Proofs.Script.Reaches

set_option autoImplicit false

/-! # Evaluation in one go

What an expression, a list of expressions or a call comes to, whatever is left to be done after it.
The rules put such runs together in the way the machine does: one for each kind of phrase, with the
frames that it leaves on the stack taken off again. -/

namespace ScriptedViews.Script.State

variable {ω σ φ : Type}

/-! ## Runs of phrases -/

section Definitions

variable (host : Host ω σ φ) (level depth : Nat)

/-- Whether an expression has some values, with what the heap and the world become. -/
def Evaluates (scope : Scope) (h : Heap ω) (w : σ) (e : Expr) (h' : Heap ω) (w' : σ)
    (vs : List Value) : Prop :=
  ∀ K, Reaches host ⟨h, w, K, .evaluate scope e, level, depth⟩ ⟨h', w', K, .values vs, level, depth⟩

/-- Whether some expressions have some values, all together. -/
def EvaluatesAll (scope : Scope) (h : Heap ω) (w : σ) (es : List Expr) (h' : Heap ω) (w' : σ)
    (vs : List Value) : Prop :=
  ∀ K done, Reaches host ⟨h, w, K, .evaluateAll scope done es, level, depth⟩
    ⟨h', w', K, .values (done.reverse ++ vs), level, depth⟩

/-- Whether a call gives some values. -/
def Invokes (h : Heap ω) (w : σ) (callee : Value) (args : List Value) (h' : Heap ω) (w' : σ)
    (vs : List Value) : Prop :=
  ∀ K site, Reaches host ⟨h, w, K, .invoke callee args site, level, depth⟩
    ⟨h', w', K, .values vs, level, depth⟩

/-- Whether a statement runs to its end, so that the block goes on after it. -/
def Executes (scope : Scope) (h : Heap ω) (w : σ) (stmt : Stmt) (h' : Heap ω) (w' : σ) : Prop :=
  ∀ K rest, Reaches host ⟨h, w, K, .execute scope (stmt :: rest), level, depth⟩
    ⟨h', w', K, .execute scope rest, level, depth⟩

end Definitions

variable {host : Host ω σ φ} {level depth : Nat} {scope : Scope} {h h₁ h₂ h₃ : Heap ω}
  {w w₁ w₂ w₃ : σ}

/-! ## Expressions -/

theorem evaluates_text (bytes : Bytes) :
    Evaluates host level depth scope h w (.text bytes) h w [.text bytes] :=
  fun _ => .many 1 rfl

theorem evaluates_name {context line : Nat} {n : Name} {v : Value} (hscope : scope.Sees h context)
    (hn : n ≠ environmentName) (hv : h.Finds context n v) :
    Evaluates host level depth scope h w (.name line n) h w [v] :=
  fun _ => reaches_name hscope hn hv

theorem evaluates_environment {context line : Nat} (hscope : scope.Sees h context) :
    Evaluates host level depth scope h w (.name line environmentName) h w [.table context] :=
  fun _ => reaches_environment hscope

/-- A variable of the running function has the value in its cell. -/
theorem evaluates_cell {line cell : Nat} {own : Bool} {n : Name} {v : Value}
    (hn : scope.find? n = some (cell, own)) (hv : h.cell cell = v) :
    Evaluates host level depth scope h w (.name line n) h w [v] := by
  intro K
  refine .head ?_ (.refl _)
  simp only [step, evaluate, readName, hn, hv]
  rfl

theorem evaluates_function (f : Function) :
    Evaluates host level depth scope h w (.function f)
      (h.newFunction ⟨f, scope.vars, scope.chunk⟩).2 w [.function h.functions.size] :=
  fun _ => .many 1 rfl

/-- An expression in parentheses has the first of its values. -/
theorem evaluates_single {e : Expr} {vs : List Value}
    (he : Evaluates host level depth scope h w e h₁ w₁ vs) :
    Evaluates host level depth scope h w (.single e) h₁ w₁ [firstValue vs] :=
  fun K => (Reaches.many 1 rfl).trans ((he (.single :: K)).trans (.many 1 rfl))

/-- An empty table is a new one. -/
theorem evaluates_table :
    Evaluates host level depth scope h w (.table []) (h.newTable {}).2 w
      [.table h.tables.size] :=
  fun _ => .many 2 rfl

/-- Texts are joined. -/
theorem evaluates_concat {line : Nat} {left right : Expr} {x y : Bytes}
    (hleft : Evaluates host level depth scope h w left h w [.text x])
    (hright : Evaluates host level depth scope h w right h w [.text y]) :
    Evaluates host level depth scope h w (.binary line .concat left right) h w [.text (x ++ y)] := by
  intro K
  have hfirst : Reaches host
      ⟨h, w, K, .evaluate scope (.binary line .concat left right), level, depth⟩
      ⟨h, w, .binaryLeft scope .concat (scope.site line) right :: K, .evaluate scope left, level,
        depth⟩ := .many 1 rfl
  have hsecond : Reaches host
      ⟨h, w, .binaryLeft scope .concat (scope.site line) right :: K, .values [.text x], level,
        depth⟩
      ⟨h, w, .binaryRight .concat (.value (.text x)) (scope.site line) :: K,
        .evaluate scope right, level, depth⟩ := .many 1 rfl
  exact hfirst.trans ((hleft _).trans (hsecond.trans ((hright _).trans (.many 1 rfl))))

/-! ## Lists of expressions -/

theorem evaluatesAll_nil : EvaluatesAll host level depth scope h w [] h w [] := by
  intro K done
  rw [List.append_nil]
  exact .many 1 rfl

theorem evaluatesAll_singleton {e : Expr} {vs : List Value}
    (he : Evaluates host level depth scope h w e h₁ w₁ vs) :
    EvaluatesAll host level depth scope h w [e] h₁ w₁ vs :=
  fun K done => (Reaches.many 1 rfl).trans ((he (.lastItem done :: K)).trans (.many 1 rfl))

theorem evaluatesAll_cons {e e' : Expr} {es : List Expr} {vs us : List Value}
    (he : Evaluates host level depth scope h w e h₁ w₁ vs)
    (hes : EvaluatesAll host level depth scope h₁ w₁ (e' :: es) h₂ w₂ us) :
    EvaluatesAll host level depth scope h w (e :: e' :: es) h₂ w₂ (firstValue vs :: us) := by
  intro K done
  have hrest := hes K (firstValue vs :: done)
  rw [List.reverse_cons, List.append_assoc, List.singleton_append] at hrest
  exact (Reaches.many 1 rfl).trans ((he (.item scope done (e' :: es) :: K)).trans
    ((Reaches.many 1 rfl).trans hrest))

/-! ## Calls -/

/-- A call evaluates its callee, then its arguments. -/
theorem evaluates_call {line : Nat} {callee : Expr} {args : List Expr} {fs vs rs : List Value}
    (hcallee : Evaluates host level depth scope h w callee h₁ w₁ fs)
    (hargs : EvaluatesAll host level depth scope h₁ w₁ args h₂ w₂ vs)
    (hinvoke : Invokes host level depth h₂ w₂ (firstValue fs) vs h₃ w₃ rs) :
    Evaluates host level depth scope h w (.call line callee args) h₃ w₃ rs := by
  intro K
  exact (Reaches.many 1 rfl).trans ((hcallee (.callee scope line args false :: K)).trans
    ((Reaches.many 1 rfl).trans
      ((hargs (.arguments (firstValue fs) [] (scope.site line) false :: K) []).trans
        ((Reaches.many 1 rfl).trans (hinvoke K (some (scope.site line)))))))

/-- A function runs its body, and gives what it returns. -/
theorem invokes_returning {ref : Nat} {c : Closure} {params : List Name} {isVararg : Bool}
    {body : List Stmt} {args rs : List Value} (hc : h.functions[ref]? = some c)
    (hf : c.function = .mk params isVararg body) (hdepth : depth < maxDepth)
    (hbody : ∀ K site, Reaches host
      ⟨(h.bindParams params args c.vars).2.2, w, .activation site :: K,
        .execute ⟨(h.bindParams params args c.vars).1, params.length,
          if isVararg then (h.bindParams params args c.vars).2.1 else [], c.chunk⟩ body,
        level, depth + 1⟩
      ⟨h₁, w₁, .activation site :: K, .returning rs, level, depth + 1⟩) :
    Invokes host level depth h w (.function ref) args h₁ w₁ rs := by
  intro K site
  refine .head ?_ ((hbody K site).trans (.many 1 rfl))
  simp only [step, invoke, hc, callFunction, Nat.not_le.2 hdepth, if_false, hf]

/-- A function that runs to the end of its body gives nothing. -/
theorem invokes_finishing {ref : Nat} {c : Closure} {params : List Name} {isVararg : Bool}
    {body : List Stmt} {args : List Value} (hc : h.functions[ref]? = some c)
    (hf : c.function = .mk params isVararg body) (hdepth : depth < maxDepth)
    (hbody : ∀ K site, Reaches host
      ⟨(h.bindParams params args c.vars).2.2, w, .activation site :: K,
        .execute ⟨(h.bindParams params args c.vars).1, params.length,
          if isVararg then (h.bindParams params args c.vars).2.1 else [], c.chunk⟩ body,
        level, depth + 1⟩
      ⟨h₁, w₁, .activation site :: K, .finished, level, depth + 1⟩) :
    Invokes host level depth h w (.function ref) args h₁ w₁ [] := by
  intro K site
  refine .head ?_ ((hbody K site).trans (.many 1 rfl))
  simp only [step, invoke, hc, callFunction, Nat.not_le.2 hdepth, if_false, hf]

/-- Returning the value of an expression that is no call. -/
theorem reaches_return {e : Expr} {vs : List Value} {rest : List Stmt} {K : List (Frame φ)}
    (hcall : Grammar.isCall e = false) (he : Evaluates host level depth scope h w e h₁ w₁ vs) :
    Reaches host ⟨h, w, K, .execute scope (.return [e] :: rest), level, depth⟩
      ⟨h₁, w₁, K, .returning vs, level, depth⟩ := by
  refine .head ?_ ((he (.results :: K)).trans (.many 1 rfl))
  simp only [step, execute, executeReturn, hcall, Bool.false_eq_true, if_false]
  rfl

/-- A program that only returns a function gives a new one that sees the same variables. -/
theorem invokes_return_function {ref : Nat} {c : Closure} {f : Function} {args : List Value}
    (hc : h.functions[ref]? = some c)
    (hf : c.function = .mk [] true [.return [.function f]]) (hdepth : depth < maxDepth) :
    Invokes host level depth h w (.function ref) args
      (h.newFunction ⟨f, c.vars, c.chunk⟩).2 w [.function h.functions.size] := by
  refine invokes_returning hc hf hdepth fun K site => ?_
  exact reaches_return rfl (evaluates_function f)

theorem invokes_assert {v : Value} (hv : v.isTrue = true) :
    Invokes host level depth h w (.builtin .assert) [v] h w [v] := by
  intro K site
  refine .head ?_ (.refl _)
  simp only [step, invoke, callBuiltin, Arguments.run?, callAssert, hv, if_true]
  rfl

/-- Reading source with a name and an environment gives a function. -/
theorem invokes_load {source name : Bytes} {environment : Value} {f : Value}
    (hread : h.readChunk level name source environment = .ok (f, h₁)) :
    Invokes host level depth h w (.builtin .load)
      [.text source, .text name, .text (utf8 "t"), environment] h₁ w [f] := by
  intro K site
  refine .head ?_ (.refl _)
  have hload : step host ⟨h, w, K, .invoke (.builtin .load)
      [.text source, .text name, .text (utf8 "t"), environment] site, level, depth⟩
        = loadSource ⟨h, w, K, .invoke (.builtin .load)
          [.text source, .text name, .text (utf8 "t"), environment] site, level, depth⟩ name source
          environment := rfl
  rw [hload, loadSource, hread]

/-! ## Statements -/

/-- What is reached from an expression is reached from the first step of evaluating it. -/
theorem reaches_step_of_evaluate {e : Expr} {vs : List Value} {K : List (Frame φ)}
    (he : Reaches host ⟨h, w, K, .evaluate scope e, level, depth⟩
      ⟨h₁, w₁, K, .values vs, level, depth⟩) :
    Reaches host (step host ⟨h, w, K, .evaluate scope e, level, depth⟩)
      ⟨h₁, w₁, K, .values vs, level, depth⟩ := by
  generalize hs : (⟨h, w, K, .evaluate scope e, level, depth⟩ : State ω σ φ) = s at he ⊢
  generalize ht : (⟨h₁, w₁, K, .values vs, level, depth⟩ : State ω σ φ) = t at he ⊢
  cases he with
  | refl =>
    rw [← hs] at ht
    cases ht
  | step h => exact h

/-- A call as a statement, with some of the block left after it. -/
theorem reaches_call {e : Expr} {vs : List Value} {rest : List Stmt} {K : List (Frame φ)}
    (hcall : Grammar.isCall e = true)
    (he : Reaches host ⟨h, w, .discard :: .body scope rest :: K, .evaluate scope e, level, depth⟩
      ⟨h₁, w₁, .discard :: .body scope rest :: K, .values vs, level, depth⟩) :
    Reaches host ⟨h, w, K, .execute scope (.call e :: rest), level, depth⟩
      ⟨h₁, w₁, K, .execute scope rest, level, depth⟩ := by
  have hfirst : step host ⟨h, w, K, .execute scope (.call e :: rest), level, depth⟩
      = step host ⟨h, w, .discard :: .body scope rest :: K, .evaluate scope e, level, depth⟩ := by
    cases e <;> first | rfl | cases hcall
  exact .head hfirst ((reaches_step_of_evaluate he).trans (.many 2 rfl))

/-- A call as a statement. -/
theorem executes_call {e : Expr} {vs : List Value} (hcall : Grammar.isCall e = true)
    (he : Evaluates host level depth scope h w e h₁ w₁ vs) :
    Executes host level depth scope h w (.call e) h₁ w₁ :=
  fun _ _ => reaches_call hcall (he _)

/-- The declaration of a variable makes a new one, which the rest of the block sees. -/
theorem reaches_local {n : Name} {e : Expr} {vs : List Value} {rest : List Stmt}
    {K : List (Frame φ)}
    (he : Reaches host
      ⟨h, w, .lastItem [] :: .declare scope [n] rest :: K, .evaluate scope e, level, depth⟩
      ⟨h₁, w₁, .lastItem [] :: .declare scope [n] rest :: K, .values vs, level, depth⟩) :
    Reaches host ⟨h, w, K, .execute scope (.local [n] [e] :: rest), level, depth⟩
      ⟨(h₁.newCell (firstValue vs)).2, w₁, K, .execute (scope.declare n h₁.cells.size) rest, level,
        depth⟩ :=
  (Reaches.many 2 rfl).trans (he.trans (.many 2 rfl))

/-- A field of a table in a variable of the running function is given a value, if the table does
    what tables do. -/
theorem executes_assign_field {line line' line'' cell ref : Nat} {n : Name} {key : Bytes} {e : Expr}
    {v : Value} (hn : scope.find? n = some (cell, true)) (hcell : h.cell cell = .table ref)
    (hmeta : (h.table ref).metatable = none)
    (he : Evaluates host level depth scope h w e h w [v]) :
    Executes host level depth scope h w
      (.assign line [.index line' (.name line'' n) (.text key)] [e])
      (h.modifyTable ref fun t => t.setText key v) w := by
  intro K rest
  let target : Target := .field (scope.site line) (.variable cell) (.value (.text key))
  have hkey : step host ⟨h, w, .body scope rest :: K,
        .resolve scope line [] [.index line' (.name line'' n) (.text key)] [e], level, depth⟩
      = ⟨h, w, .targetKey scope line (.variable cell) [] [] [e] :: .body scope rest :: K,
        .evaluate scope (.text key), level, depth⟩ := by
    simp only [step, resolve, objectCell?, hn, Bool.true_or, if_true]
    rfl
  have htarget : Reaches host
      ⟨h, w, K, .execute scope (.assign line [.index line' (.name line'' n) (.text key)] [e] :: rest),
        level, depth⟩
      ⟨h, w, .body scope rest :: K, .resolve scope line [target] [] [e], level, depth⟩ :=
    (Reaches.many 1 rfl).trans (.head hkey (.many 2 rfl))
  have hvalue : Reaches host
      ⟨h, w, .body scope rest :: K, .resolve scope line [target] [] [e], level, depth⟩
      ⟨h, w, .assignment [target] :: .body scope rest :: K, .values [v], level, depth⟩ :=
    (Reaches.many 2 rfl).trans ((he _).trans (.many 1 rfl))
  have hstore : step host
      ⟨h, w, .assignRest [] :: .body scope rest :: K,
        .store (h.cell cell) (.text key) v (some (scope.site line)) 0, level, depth⟩
      = ⟨h.modifyTable ref fun t => t.setText key v, w, .assignRest [] :: .body scope rest :: K,
        .finished, level, depth⟩ := by
    simp only [step, store, hcell, Heap.metafield, Heap.metatable?, hmeta, ite_self]
    rfl
  exact htarget.trans (hvalue.trans ((Reaches.many 2 rfl).trans (.head hstore (.many 3 rfl))))

/-- A conditional without alternative runs its statements if its condition holds. -/
theorem reaches_cond {condition : Expr} {vs : List Value} (body rest : List Stmt)
    (K : List (Frame φ))
    (hcondition : Reaches host
      ⟨h, w, .cond scope body [] :: .body scope rest :: K, .evaluate scope condition, level, depth⟩
      ⟨h₁, w₁, .cond scope body [] :: .body scope rest :: K, .values vs, level, depth⟩) :
    Reaches host ⟨h, w, K, .execute scope (.cond condition body [] :: rest), level, depth⟩
      ⟨h₁, w₁, .body scope rest :: K,
        .execute scope (if (firstValue vs).isTrue then body else []), level, depth⟩ :=
  (Reaches.many 1 rfl).trans (hcondition.trans (.many 1 rfl))

/-- A conditional without alternative whose condition holds. -/
theorem executes_cond {condition : Expr} {vs : List Value} {stmt : Stmt}
    (hcondition : Evaluates host level depth scope h w condition h₁ w₁ vs)
    (htrue : (firstValue vs).isTrue = true)
    (hstmt : Executes host level depth scope h₁ w₁ stmt h₂ w₂) :
    Executes host level depth scope h w (.cond condition [stmt] []) h₂ w₂ := by
  intro K rest
  have hbody := reaches_cond [stmt] rest K (hcondition _)
  rw [if_pos htrue] at hbody
  exact hbody.trans ((hstmt (.body scope rest :: K) []).trans (.many 2 rfl))

/-- A conditional without alternative whose condition does not hold. -/
theorem executes_cond_false {condition : Expr} {vs : List Value} {stmt : Stmt}
    (hcondition : Evaluates host level depth scope h w condition h₁ w₁ vs)
    (hfalse : (firstValue vs).isTrue = false) :
    Executes host level depth scope h w (.cond condition [stmt] []) h₁ w₁ := by
  intro K rest
  have hbody := reaches_cond [stmt] rest K (hcondition _)
  rw [if_neg (by simp [hfalse])] at hbody
  exact hbody.trans (.many 2 rfl)

end ScriptedViews.Script.State

import ScriptedViews.Script.Machine.Run

set_option autoImplicit false

/-! # Runs of the machine

What the machine gets to from a state, in however many steps. A state that has an outcome is left as
it is by a step, so a run that reaches one ends there, whatever the number of steps it is given
beyond those that it needs. -/

namespace ScriptedViews.Script

variable {ω σ φ : Type} {host : Host ω σ φ}

namespace State

/-- Whether the machine gets from one state to another. -/
inductive Reaches (host : Host ω σ φ) : State ω σ φ → State ω σ φ → Prop where
  | refl (s : State ω σ φ) : Reaches host s s
  | step {s t : State ω σ φ} (h : Reaches host (s.step host) t) : Reaches host s t

theorem Reaches.trans {s t u : State ω σ φ} (hs : Reaches host s t) (ht : Reaches host t u) :
    Reaches host s u := by
  induction hs with
  | refl s => exact ht
  | step _ ih => exact .step (ih ht)

/-- The state after some steps. -/
def stepMany (host : Host ω σ φ) : Nat → State ω σ φ → State ω σ φ
  | 0, s => s
  | n + 1, s => stepMany host n (s.step host)

theorem reaches_stepMany (n : Nat) (s : State ω σ φ) : Reaches host s (stepMany host n s) := by
  induction n generalizing s with
  | zero => exact .refl s
  | succ n ih => exact .step (ih (s.step host))

/-- A state is reached that some steps give by computation. -/
theorem Reaches.many (n : Nat) {s t : State ω σ φ} (h : stepMany host n s = t) :
    Reaches host s t :=
  h ▸ reaches_stepMany n s

/-- A step with a known outcome, and what is reached from there. -/
theorem Reaches.head {s t u : State ω σ φ} (h : s.step host = t) (ht : Reaches host t u) :
    Reaches host s u :=
  .step (h ▸ ht)

/-- A step leaves a state with an outcome as it is. -/
theorem step_of_outcome? {s : State ω σ φ} {o : Except RaisedError (List Value)}
    (h : s.outcome? = some o) : s.step host = s := by
  obtain ⟨heap, world, stack, control, level, depth⟩ := s
  cases stack with
  | nil => cases control <;> first | rfl | exact absurd h (by simp [outcome?])
  | cons f rest => exact absurd h (by cases control <;> simp [outcome?])

/-- A run that reaches a state with an outcome ends in it, if it is given enough steps. -/
theorem run_of_reaches {s t : State ω σ φ} {o : Except RaisedError (List Value)}
    (h : Reaches host s t) (ht : t.outcome? = some o) :
    ∃ n, ∀ fuel, n ≤ fuel → run host fuel s = t := by
  induction h with
  | refl t =>
    refine ⟨0, fun fuel _ => ?_⟩
    cases fuel with
    | zero => rfl
    | succ fuel => rw [run, ht]
  | @step s t _ ih =>
    obtain ⟨n, hn⟩ := ih ht
    refine ⟨n + 1, fun fuel hfuel => ?_⟩
    cases hs : s.outcome? with
    | some o' =>
      have hstep : s.step host = s := step_of_outcome? hs
      rw [hstep] at hn
      exact hn fuel (by omega)
    | none =>
      obtain ⟨fuel, rfl⟩ : ∃ m, fuel = m + 1 := ⟨fuel - 1, by omega⟩
      rw [run, hs]
      exact hn fuel (by omega)

/-- A run that has ended within some steps ends in the same way if it is given more. -/
theorem run_of_le {s : State ω σ φ} {o : Except RaisedError (List Value)} {fuel fuel' : Nat}
    (h : (run host fuel s).outcome? = some o) (hle : fuel ≤ fuel') :
    run host fuel' s = run host fuel s := by
  induction fuel generalizing fuel' s with
  | zero =>
    cases fuel' with
    | zero => rfl
    | succ fuel' =>
      rw [run] at h
      rw [run, run, h]
  | succ fuel ih =>
    obtain ⟨fuel', rfl⟩ : ∃ m, fuel' = m + 1 := ⟨fuel' - 1, by omega⟩
    rw [run] at h ⊢
    rw [run]
    split
    · rfl
    · next hs =>
      rw [hs] at h
      exact ih h (by omega)

end State

/-! ## Variables -/

/-- Whether code sees the fields of a table as its global variables, and no others. -/
structure Scope.Sees (scope : Scope) (h : Heap ω) (context : Nat) : Prop where
  environment : ∃ cell own, scope.find? environmentName = some (cell, own)
    ∧ h.cell cell = .table context
  others : ∀ n, n ≠ environmentName → scope.find? n = none

/-- A scope that has an environment alone sees it. -/
theorem Scope.sees_environment {h : Heap ω} {context own cell : Nat} {varargs : List Value}
    {chunk : Bytes} {vars : List (Name × Nat)} (hvars : ∀ p ∈ vars, p.1 = environmentName)
    (hcell : h.cell cell = .table context) :
    Scope.Sees ⟨(environmentName, cell) :: vars, own, varargs, chunk⟩ h context := by
  refine ⟨⟨cell, 0 < own, ?_, hcell⟩, fun n hn => ?_⟩
  · simp [Scope.find?, Scope.findFrom]
  · have hnone (i : Nat) : Scope.findFrom n i vars = none := by
      induction vars generalizing i with
      | nil => rfl
      | cons p vars ih =>
        obtain ⟨m, c⟩ := p
        have hm : m = environmentName := hvars (m, c) List.mem_cons_self
        have hne : ¬ m = n := fun heq => hn (heq ▸ hm)
        rw [Scope.findFrom, if_neg hne]
        exact ih (fun q hq => hvars q (List.mem_cons_of_mem _ hq)) _
    have hne : ¬ environmentName = n := fun heq => hn heq.symm
    rw [Scope.find?, Scope.findFrom, if_neg hne, hnone]
    rfl

/-- Whether a variable of a context has a value: its own, or one that the metatable of the context
    finds in another table. -/
def Heap.Finds (h : Heap ω) (context : Nat) (n : Name) (v : Value) : Prop :=
  (h.table context).getText n = v ∧ v ≠ .nil
    ∨ (h.table context).getText n = .nil ∧ ∃ m g, (h.table context).metatable = some m
      ∧ (h.table m).getText (ascii "__index") = .table g ∧ (h.table g).getText n = v
      ∧ (v = .nil → (h.table g).metatable = none)

namespace State

theorem Table.get_text (t : Table) (n : Bytes) : t.get (.text n) = t.getText n := rfl

/-- A field of a table that is there is read as it is. -/
theorem step_index {h : Heap ω} {w : σ} {K : List (Frame φ)} {level depth ref hops : Nat}
    {n : Bytes} {v : Value} {site : Option Site} (hv : (h.table ref).getText n = v)
    (hne : v ≠ .nil) :
    step host ⟨h, w, K, .index (.table ref) (.text n) site hops, level, depth⟩
      = ⟨h, w, K, .values [v], level, depth⟩ := by
  simp only [step, index, Table.get_text, hv]
  cases v <;> first | exact absurd rfl hne | rfl

/-- A global variable is read. -/
theorem reaches_name {h : Heap ω} {w : σ} {K : List (Frame φ)} {level depth context line : Nat}
    {scope : Scope} {n : Name} {v : Value} (hscope : scope.Sees h context)
    (hn : n ≠ environmentName) (hv : h.Finds context n v) :
    Reaches host ⟨h, w, K, .evaluate scope (.name line n), level, depth⟩
      ⟨h, w, K, .values [v], level, depth⟩ := by
  obtain ⟨⟨cell, own, hfind, hcell⟩, hothers⟩ := hscope
  have hread : step host ⟨h, w, K, .evaluate scope (.name line n), level, depth⟩
      = ⟨h, w, K, .index (.table context) (.text n) (some (scope.site line)) 0, level, depth⟩ := by
    simp only [step, evaluate, readName, hothers n hn, hfind, hcell]
    rfl
  refine .head hread ?_
  rcases hv with ⟨hown, hne⟩ | ⟨hown, m, g, hmeta, hindex, hglobal, hnone⟩
  · exact .head (step_index hown hne) (.refl _)
  · have hpass : step host ⟨h, w, K, .index (.table context) (.text n)
          (some (scope.site line)) 0, level, depth⟩
        = ⟨h, w, K, .index (.table g) (.text n) (some (scope.site line)) 1, level, depth⟩ := by
      simp only [step, index, Table.get_text, hown, Heap.metafield, Heap.metatable?, hmeta, hindex]
      rfl
    refine .head hpass ?_
    by_cases hne : v = .nil
    · refine .head ?_ (.refl _)
      simp only [step, index, Table.get_text, hglobal, hne, Heap.metafield, Heap.metatable?,
        hnone hne]
      rfl
    · exact .head (step_index hglobal hne) (.refl _)

/-- The table of the global variables is read. -/
theorem reaches_environment {h : Heap ω} {w : σ} {K : List (Frame φ)}
    {level depth context line : Nat} {scope : Scope} (hscope : scope.Sees h context) :
    Reaches host ⟨h, w, K, .evaluate scope (.name line environmentName), level, depth⟩
      ⟨h, w, K, .values [.table context], level, depth⟩ := by
  obtain ⟨⟨cell, own, hfind, hcell⟩, -⟩ := hscope
  refine .head ?_ (.refl _)
  simp only [step, evaluate, readName, hfind, hcell]
  rfl

end State

end ScriptedViews.Script

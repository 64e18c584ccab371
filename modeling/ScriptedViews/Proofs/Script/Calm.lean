import ScriptedViews.Proofs.Script.Reaches

set_option autoImplicit false

/-! # Calm runs

Where the machine gets without handing values to a function of the host in between. What a function
of the host has called has not come to an end on such a way. -/

namespace ScriptedViews.Script.State

variable {ω σ φ : Type} {host : Host ω σ φ} {s t u : State ω σ φ}

/-- Whether a function of the host goes on with values in the next step. -/
def resumes (s : State ω σ φ) : Bool :=
  match s.control, s.stack with
  | .values _, .host _ :: _ => true
  | _, _ => false

/-- Whether the machine gets from one state to another, and hands no values to a function of the
    host before. -/
inductive Calmly (host : Host ω σ φ) : State ω σ φ → State ω σ φ → Prop where
  | refl (s : State ω σ φ) : Calmly host s s
  | step {s t : State ω σ φ} (hs : s.resumes = false) (h : Calmly host (s.step host) t) :
      Calmly host s t

/-- Tell whether some steps hand no values to a function of the host. -/
def staysCalm (host : Host ω σ φ) : Nat → State ω σ φ → Bool
  | 0, _ => true
  | n + 1, s => !s.resumes && staysCalm host n (s.step host)

namespace Calmly

theorem trans (hs : Calmly host s t) (ht : Calmly host t u) : Calmly host s u := by
  induction hs with
  | refl s => exact ht
  | step hs _ ih => exact .step hs (ih ht)

/-- A step with a known outcome, and where the machine gets calmly from there. -/
theorem head (hs : s.resumes = false) (h : s.step host = t) (ht : Calmly host t u) :
    Calmly host s u :=
  .step hs (h ▸ ht)

/-- Some steps are told to be calm, and where they lead, by computation. -/
theorem many (n : Nat) (hcalm : staysCalm host n s = true) (h : stepMany host n s = t) :
    Calmly host s t := by
  induction n generalizing s with
  | zero => exact h ▸ .refl s
  | succ n ih =>
    rw [staysCalm, Bool.and_eq_true, Bool.not_eq_true'] at hcalm
    exact .step hcalm.1 (ih hcalm.2 h)

theorem reaches (h : Calmly host s t) : Reaches host s t := by
  induction h with
  | refl s => exact .refl s
  | step _ _ ih => exact .step ih

/-- A global variable is read from the table of the context itself. -/
theorem name {h : Heap ω} {w : σ} {K : List (Frame φ)} {level depth context line : Nat}
    {scope : Scope} {n : Name} {v : Value} (hscope : scope.Sees h context)
    (hn : n ≠ environmentName) (hv : (h.table context).getText n = v) (hne : v ≠ .nil) :
    Calmly host ⟨h, w, K, .evaluate scope (.name line n), level, depth⟩
      ⟨h, w, K, .values [v], level, depth⟩ := by
  obtain ⟨⟨cell, own, hfind, hcell⟩, hothers⟩ := hscope
  have hread : State.step host ⟨h, w, K, .evaluate scope (.name line n), level, depth⟩
      = ⟨h, w, K, .index (.table context) (.text n) (some (scope.site line)) 0, level, depth⟩ := by
    simp only [State.step, evaluate, readName, hothers n hn, hfind, hcell]
    rfl
  exact .head rfl hread (.head rfl (step_index hv hne) (.refl _))

end Calmly

end ScriptedViews.Script.State

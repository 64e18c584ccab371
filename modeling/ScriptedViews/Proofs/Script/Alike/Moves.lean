import ScriptedViews.Proofs.Script.Alike.States

set_option autoImplicit false

/-! # Moves of states that are alike

The moves that steps are made of keep states alike, and states that are alike after more steps have
been alike for what there is to tell. -/

namespace ScriptedViews.Script.State

variable {ω σ φ : Type} {host : Host ω σ φ} {L : Likeness ω σ φ} {R S : Matching}
  {s s' t t' : State ω σ φ}

/-! ## Following -/

theorem stepMany_add (n m : Nat) (s : State ω σ φ) :
    s.stepMany host (n + m) = (s.stepMany host n).stepMany host m := by
  induction n generalizing s with
  | zero => rw [Nat.zero_add, stepMany]
  | succ n ih => rw [Nat.succ_add, stepMany, stepMany, ih]

theorem Matches.follows (h : Matches L R s s') : Follows host L s s' :=
  ⟨0, 0, R, h⟩

/-- The first machine may take some steps ahead. -/
theorem Follows.left (n : Nat) (h : Follows host L (s.stepMany host n) s') :
    Follows host L s s' := by
  obtain ⟨m, m', T, hm⟩ := h
  exact ⟨n + m, m', T, by rwa [stepMany_add]⟩

/-- The second machine may take some steps ahead. -/
theorem Follows.right (n : Nat) (h : Follows host L s (s'.stepMany host n)) :
    Follows host L s s' := by
  obtain ⟨m, m', T, hm⟩ := h
  exact ⟨m, n + m', T, by rwa [stepMany_add]⟩

theorem exists_stepMany_of_reaches (h : Reaches host s t) : ∃ n, s.stepMany host n = t := by
  induction h with
  | refl s => exact ⟨0, rfl⟩
  | step _ ih =>
    obtain ⟨n, hn⟩ := ih
    exact ⟨n + 1, hn⟩

theorem Follows.of_reaches (hr : Reaches host s t) (hr' : Reaches host s' t')
    (h : Follows host L t t') : Follows host L s s' := by
  obtain ⟨n, rfl⟩ := exists_stepMany_of_reaches hr
  obtain ⟨n', rfl⟩ := exists_stepMany_of_reaches hr'
  exact (h.right n').left n

/-! ## Moves -/

namespace Alike

variable (h : Alike L R s s')

include h

theorem setHeap (hg : R.Grows S) {k k' : Heap ω} (hk : Heap.Alike L S k k') :
    Alike L S { s with heap := k } { s' with heap := k' } :=
  ⟨hk, L.world_mono hg h.world, stackAlike_mono hg h.stack, h.level, h.depth⟩

theorem go {c c' : Control} (hc : c.Alike R c') : Matches L R (s.go c) (s'.go c') :=
  ⟨⟨h.heap, h.world, h.stack, h.level, h.depth⟩, hc⟩

theorem give {vs vs' : List Value} (hv : ValuesAlike R vs vs') :
    Matches L R (s.give vs) (s'.give vs') :=
  h.go (.values hv)

theorem giveOne {v v' : Value} (hv : v.Alike R v') : Matches L R (s.giveOne v) (s'.giveOne v') :=
  h.give (.single hv)

theorem pushed {f f' : Frame φ} (hf : f.Alike L R f') (c c' : Control) :
    Alike L R (s.push f c) (s'.push f' c') :=
  ⟨h.heap, h.world, .cons hf h.stack, h.level, h.depth⟩

theorem push {f f' : Frame φ} (hf : f.Alike L R f') {c c' : Control} (hc : c.Alike R c') :
    Matches L R (s.push f c) (s'.push f' c') :=
  ⟨h.pushed hf c c', hc⟩

theorem raise (site : Option Site) (message : Bytes) :
    Matches L R (s.raise site message) (s'.raise site message) :=
  h.go (.raised (.text _))

theorem raiseText (site : Option Site) (message : String) :
    Matches L R (s.raiseText site message) (s'.raiseText site message) :=
  h.raise site _

theorem callFrom {f f' : Frame φ} (hf : f.Alike L R f') {v v' : Value} (hv : v.Alike R v')
    {vs vs' : List Value} (hvs : ValuesAlike R vs vs') (site : Option Site) :
    Matches L R (s.callFrom f v vs site) (s'.callFrom f' v' vs' site) := by
  simp only [State.callFrom, h.level]
  split
  · exact h.raiseText site _
  · exact ⟨⟨h.heap, h.world, .cons .native (.cons hf h.stack), rfl, h.depth⟩,
      .invoke site hv hvs⟩

theorem enter {f f' : Frame φ} (hf : f.Alike L R f') {c c' : Control} (hc : c.Alike R c') :
    Matches L R (s.enter f c) (s'.enter f' c') := by
  simp only [State.enter, h.level]
  refine ⟨⟨h.heap, h.world, .cons hf h.stack, rfl, h.depth⟩, ?_⟩
  dsimp only
  split
  · exact .raised (.ofString _)
  · exact hc

theorem leave {c c' : Control} (hc : c.Alike R c') : Matches L R (s.leave c) (s'.leave c') :=
  ⟨⟨h.heap, h.world, h.stack, congrArg (· - 1) h.level, h.depth⟩, hc⟩

end Alike

end ScriptedViews.Script.State

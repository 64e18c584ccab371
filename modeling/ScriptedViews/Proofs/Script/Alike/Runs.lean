import ScriptedViews.Proofs.Script.Alike.Steps
import ScriptedViews.Proofs.Script.Literal

set_option autoImplicit false

/-! # Runs of states that are alike

Steps put together: while one of two machines that have been alike goes on, the other one goes on
too, and they become alike again and again. So one of them comes to an end exactly if the other one
does, and the ends are alike. -/

namespace ScriptedViews.Script.State

variable {ω σ φ : Type} {host : Host ω σ φ} {L : Likeness ω σ φ} {R : Matching}
  {asked : List (Frame φ) → State ω σ φ → Prop} {s s' t t' : State ω σ φ}

/-! ## Many steps -/

theorem stepMany_of_outcome? {o : Except RaisedError (List Value)} (h : s.outcome? = some o)
    (n : Nat) : s.stepMany host n = s := by
  induction n with
  | zero => rfl
  | succ n ih => rw [stepMany, step_of_outcome? h, ih]

theorem stepMany_succ (n : Nat) (s : State ω σ φ) :
    s.stepMany host (n + 1) = (s.stepMany host n).step host :=
  stepMany_add n 1 s

/-- What a run comes to within some steps is what it is at after more. -/
theorem stepMany_of_le {n m : Nat} {o : Except RaisedError (List Value)} (hnm : n ≤ m)
    (h : (s.stepMany host n).outcome? = some o) : s.stepMany host m = s.stepMany host n := by
  obtain ⟨k, rfl⟩ := Nat.exists_eq_add_of_le hnm
  rw [stepMany_add, stepMany_of_outcome? h]

theorem reaches_run (fuel : Nat) (s : State ω σ φ) : Reaches host s (s.run host fuel) := by
  induction fuel generalizing s with
  | zero => exact .refl s
  | succ fuel ih =>
    rw [run]
    split
    · exact .refl s
    · exact .step (ih _)

/-! ## Ends -/

theorem Matches.outcome? (hm : Matches L R s s') :
    Option.Rel (ExceptAlike (ValuesAlike R)) s.outcome? s'.outcome? := by
  obtain ⟨heap, world, stack, control, level, depth⟩ := s
  obtain ⟨heap', world', stack', control', level', depth'⟩ := s'
  have hstack := hm.rest.stack
  have hcontrol := hm.control
  dsimp only at hstack hcontrol
  cases hstack with
  | nil =>
    cases hcontrol with
    | values hv => exact .some (.ok hv)
    | failed cause => exact .some (.error cause)
    | finished => exact .some (.ok .nil)
    | leaving => exact .some (.ok .nil)
    | returning hv => exact .some (.ok hv)
    | raised hv =>
      simp only [State.outcome?, errorText_eq hv]
      exact .some (.error _)
    | _ => exact .none
  | cons _ _ => cases hcontrol <;> exact .none

/-! ## Runs -/

/-- Whether no address becomes a text in a run, and what it comes to is as `asked`. -/
structure Quiet (host : Host ω σ φ) (asked : List (Frame φ) → State ω σ φ → Prop)
    (s : State ω σ φ) : Prop where
  discreet : ∀ n, (s.stepMany host (n + 1)).IsDiscreet
  asked : ∀ n, asked (s.stepMany host n).stack (s.stepMany host (n + 1))

theorem Quiet.after (hq : Quiet host asked s) (n : Nat) :
    Quiet host asked (s.stepMany host n) where
  discreet m := by
    rw [← stepMany_add]
    exact hq.discreet (n + m)
  asked m := by
    rw [← stepMany_add, ← stepMany_add]
    exact hq.asked (n + m)

/-- Machines that are alike are so again after any number of steps of either. -/
theorem Matches.many (hhost : host.Respects L asked) (hq : Quiet host asked s)
    (hm : Matches L R s s') (k : Nat) :
    ∃ n n' S, k ≤ n ∧ k ≤ n' ∧ Matches L S (s.stepMany host n) (s'.stepMany host n') := by
  induction k with
  | zero => exact ⟨0, 0, R, Nat.le_refl _, Nat.le_refl _, hm⟩
  | succ k ih =>
    obtain ⟨n, n', S, hn, hn', hmatch⟩ := ih
    obtain ⟨m, m', T, hfollows⟩ := hmatch.step hhost
      (by rw [← stepMany_succ]; exact hq.discreet n) (by rw [← stepMany_succ]; exact hq.asked n)
    rw [← stepMany_succ, ← stepMany_add, ← stepMany_succ, ← stepMany_add] at hfollows
    exact ⟨n + 1 + m, n' + 1 + m', T, by omega, by omega, hfollows⟩

theorem Follows.many (hhost : host.Respects L asked) (hq : Quiet host asked s)
    (hf : Follows host L s s') (k : Nat) :
    ∃ n n' S, k ≤ n ∧ k ≤ n' ∧ Matches L S (s.stepMany host n) (s'.stepMany host n') := by
  obtain ⟨m, m', R, hm⟩ := hf
  obtain ⟨n, n', S, hn, hn', hmatch⟩ := hm.many hhost (hq.after m) k
  rw [← stepMany_add, ← stepMany_add] at hmatch
  exact ⟨m + n, m' + n', S, by omega, by omega, hmatch⟩

/-- The second machine comes to an end if the first one does. -/
theorem Follows.ends (hhost : host.Respects L asked) (hq : Quiet host asked s)
    (hf : Follows host L s s') {o : Except RaisedError (List Value)} (hr : Reaches host s t)
    (ho : t.outcome? = some o) :
    ∃ t' o' S, Reaches host s' t' ∧ t'.outcome? = some o' ∧ ExceptAlike (ValuesAlike S) o o'
      ∧ Matches L S t t' := by
  obtain ⟨k, rfl⟩ := exists_stepMany_of_reaches hr
  obtain ⟨n, n', S, hn, -, hm⟩ := hf.many hhost hq k
  rw [stepMany_of_le hn ho] at hm
  have hrel := hm.outcome?
  rw [ho] at hrel
  generalize ho' : (s'.stepMany host n').outcome? = x at hrel
  cases hrel with
  | some halike => exact ⟨_, _, S, reaches_stepMany n' s', ho', halike, hm⟩

/-- The first machine comes to an end if the second one does. -/
theorem Follows.ended (hhost : host.Respects L asked) (hq : Quiet host asked s)
    (hf : Follows host L s s') {o' : Except RaisedError (List Value)} (hr : Reaches host s' t')
    (ho : t'.outcome? = some o') : ∃ t o, Reaches host s t ∧ t.outcome? = some o := by
  obtain ⟨k, rfl⟩ := exists_stepMany_of_reaches hr
  obtain ⟨n, n', S, -, hn', hm⟩ := hf.many hhost hq k
  rw [stepMany_of_le hn' ho] at hm
  have hrel := hm.outcome?
  rw [ho] at hrel
  generalize ho' : (s.stepMany host n).outcome? = x at hrel
  cases hrel with
  | some halike => exact ⟨_, _, reaches_stepMany n s, ho'⟩

/-! ## Quiet runs by computation -/

/-- How the texts of addresses begin. -/
def addressKinds : List Bytes :=
  [utf8 "table: ", utf8 "function: ", utf8 "userdata: "]

/-- Whether a text begins as an address does. -/
def isLikeAddress (bytes : Bytes) : Bool :=
  addressKinds.any fun kind => kind.isPrefixOf bytes

theorem isLikeAddress_describe {v : Value} (hv : v.isReference = true) :
    isLikeAddress v.describe = true := by
  refine List.any_eq_true.2 ?_
  cases v with
  | table ref =>
    refine ⟨utf8 "table: ", by simp [addressKinds], ?_⟩
    rw [Value.describe, utf8_append, List.isPrefixOf_iff_prefix]
    exact List.prefix_append _ _
  | function ref =>
    refine ⟨utf8 "function: ", by simp [addressKinds], ?_⟩
    rw [Value.describe, utf8_append, List.isPrefixOf_iff_prefix]
    exact List.prefix_append _ _
  | object ref =>
    refine ⟨utf8 "userdata: ", by simp [addressKinds], ?_⟩
    rw [Value.describe, utf8_append, List.isPrefixOf_iff_prefix]
    exact List.prefix_append _ _
  | _ => cases hv

/-- Whether the machine has not just come to a text that begins as an address does. -/
def showsNoAddress (s : State ω σ φ) : Bool :=
  match s.control with
  | .values [.text bytes] => !isLikeAddress bytes
  | _ => true

theorem isDiscreet_of_showsNoAddress (h : s.showsNoAddress = true) : s.IsDiscreet := by
  intro v hv hcontrol
  rw [showsNoAddress, hcontrol] at h
  simp [isLikeAddress_describe hv] at h

/-- Whether the machine ends quietly within some steps, and all states that it comes to are good, each
    one after what was on the stack before it. -/
def endsQuietly (host : Host ω σ φ) (good : List (Frame φ) → State ω σ φ → Bool) :
    Nat → State ω σ φ → Bool
  | 0, _ => false
  | fuel + 1, s =>
    (s.step host).showsNoAddress && good s.stack (s.step host)
      && (s.outcome?.isSome || endsQuietly host good fuel (s.step host))

theorem quiet_of_endsQuietly {good : List (Frame φ) → State ω σ φ → Bool}
    (hgood : ∀ K t, good K t = true → asked K t)
    {fuel : Nat} (h : endsQuietly host good fuel s = true) : Quiet host asked s := by
  induction fuel generalizing s with
  | zero => cases h
  | succ fuel ih =>
    simp only [endsQuietly, Bool.and_eq_true, Bool.or_eq_true] at h
    obtain ⟨⟨haddress, hnext⟩, hend⟩ := h
    rcases hend with hend | hlater
    · -- an end is not left any more
      obtain ⟨o, ho⟩ := Option.isSome_iff_exists.1 hend
      have hstep : s.step host = s := step_of_outcome? ho
      rw [hstep] at haddress hnext
      exact ⟨fun n => by rw [stepMany_of_outcome? ho]; exact isDiscreet_of_showsNoAddress haddress,
        fun n => by rw [stepMany_of_outcome? ho, stepMany_of_outcome? ho]; exact hgood _ _ hnext⟩
    · have hquiet := ih hlater
      refine ⟨fun n => ?_, fun n => ?_⟩
      · cases n with
        | zero => exact isDiscreet_of_showsNoAddress haddress
        | succ n => exact hquiet.discreet n
      · cases n with
        | zero => exact hgood _ _ hnext
        | succ n => exact hquiet.asked n

end ScriptedViews.Script.State

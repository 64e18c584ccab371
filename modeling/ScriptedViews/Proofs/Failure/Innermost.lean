import Mathlib.Logic.Relation
import ScriptedViews.Failure

set_option autoImplicit false

/-! # Failures inside failures

A view that fails because another view has failed has the other failure for the cause of its own,
inside the wrappers that were put around it on its way. The way from a failure to the one that it
comes from, and on from there, comes to an end, however failures and wrappers are nested. The end is
the innermost failure. -/

namespace ScriptedViews

/-! ## Wrappers -/

/-- What is put around an error on its way out of code. -/
inductive Wrapper where
  /-- The error came out of a method called by code. -/
  | callback
  /-- A remark on where the error came from. -/
  | context
deriving DecidableEq

namespace RaisedError

variable {c : RaisedError} {e : ViewError}

/-- An error with a wrapper around it. -/
def wrapIn : Wrapper → RaisedError → RaisedError
  | .callback, c => .callback c
  | .context, c => .context c

/-- An error inside wrappers, the outermost first. -/
def wrapAll (ws : List Wrapper) (c : RaisedError) : RaisedError :=
  ws.foldr wrapIn c

@[simp]
theorem unwrapped_wrapIn (w : Wrapper) (c : RaisedError) :
    (wrapIn w c).unwrapped = c.unwrapped := by
  cases w <;> rfl

@[simp]
theorem unwrapped_wrapAll (ws : List Wrapper) (c : RaisedError) :
    (wrapAll ws c).unwrapped = c.unwrapped := by
  induction ws with
  | nil => rfl
  | cons w ws ih => exact (unwrapped_wrapIn w (wrapAll ws c)).trans ih

/-- Every error is what is left of it without wrappers, inside some wrappers. -/
theorem exists_wrapAll : (c : RaisedError) → ∃ ws, c = wrapAll ws c.unwrapped
  | .callback c => by
    obtain ⟨ws, hws⟩ := exists_wrapAll c
    exact ⟨.callback :: ws, congrArg RaisedError.callback hws⟩
  | .context c => by
    obtain ⟨ws, hws⟩ := exists_wrapAll c
    exact ⟨.context :: ws, congrArg RaisedError.context hws⟩
  | .malformed _ | .runtime _ | .argument | .conversion | .external _ | .view _ => ⟨[], rfl⟩

theorem unwrapped_eq_view_iff : c.unwrapped = .view e ↔ ∃ ws, c = wrapAll ws (.view e) := by
  constructor
  · intro h
    obtain ⟨ws, hws⟩ := exists_wrapAll c
    exact ⟨ws, h ▸ hws⟩
  · rintro ⟨ws, rfl⟩
    exact unwrapped_wrapAll ws (.view e)

theorem sizeOf_le_wrapAll (ws : List Wrapper) (c : RaisedError) :
    sizeOf c ≤ sizeOf (wrapAll ws c) := by
  induction ws with
  | nil => exact Nat.le_refl _
  | cons w ws ih =>
    have hone : sizeOf (wrapAll ws c) < sizeOf (wrapIn w (wrapAll ws c)) := by
      cases w <;> simp [wrapIn]
    exact Nat.le_trans ih (Nat.le_of_lt hone)

/-! ## Errors that no view is the cause of -/

/-- Whether no view has failed for there to be an error. -/
def IsPlain (cause : RaisedError) : Prop :=
  ViewError.nested? cause = none

/-- Wrappers do not count for what an error is nested in. -/
theorem nested?_unwrapped : (cause : RaisedError) →
    ViewError.nested? cause.unwrapped = ViewError.nested? cause
  | .callback cause => by
    rw [unwrapped, nested?_unwrapped cause]
    simp only [ViewError.nested?]
  | .context cause => by
    rw [unwrapped, nested?_unwrapped cause]
    simp only [ViewError.nested?]
  | .malformed _ | .runtime _ | .argument | .conversion | .external _ | .view _ => rfl

theorem nested?_of_view (h : c.unwrapped = .view e) : ViewError.nested? c = some e.innermost := by
  rw [← nested?_unwrapped, h]
  rfl

/-- No view is the cause of an error that is no view's failure once it is out of its wrappers. -/
theorem isPlain_iff : (c : RaisedError) → (c.IsPlain ↔ ∀ e, c.unwrapped ≠ .view e)
  | .callback c => isPlain_iff c
  | .context c => isPlain_iff c
  | .view e => ⟨nofun, fun h => absurd rfl (h e)⟩
  | .malformed _ | .runtime _ | .argument | .conversion | .external _ =>
    ⟨fun _ => nofun, fun _ => rfl⟩

end RaisedError

namespace ViewError

variable {e cause found : ViewError} {uri : String} {c : RaisedError}

/-! ## What a failure comes from -/

/-- Whether a failure is that of a view that failed because another view had failed, and comes from
    that view's failure. -/
inductive ComesFrom : ViewError → ViewError → Prop
  | wrapped (uri : String) (ws : List Wrapper) (cause : ViewError) :
      ComesFrom (.execution uri (.raised (.wrapAll ws (.view cause)))) cause

/-- Whether a failure is not that of a view that failed because another view had failed: it is no
    render's, or there was no runtime for the render, or what went wrong in code is, out of its
    wrappers, no view's failure. -/
def IsOriginal : ViewError → Prop
  | .execution _ (.raised c) => ∀ cause, c.unwrapped ≠ .view cause
  | _ => True

theorem comesFrom_execution_iff :
    ComesFrom (.execution uri (.raised c)) cause ↔ c.unwrapped = .view cause := by
  constructor
  · rintro ⟨⟩
    exact RaisedError.unwrapped_wrapAll _ _
  · intro h
    obtain ⟨ws, rfl⟩ := RaisedError.unwrapped_eq_view_iff.1 h
    exact .wrapped uri ws cause

theorem isOriginal_iff : e.IsOriginal ↔ ∀ cause, ¬ e.ComesFrom cause := by
  constructor
  · rintro h cause ⟨uri, ws⟩
    exact h cause (RaisedError.unwrapped_wrapAll ws (.view cause))
  · intro h
    cases e with
    | execution uri source =>
      cases source with
      | raised c => exact fun cause hc => h cause (comesFrom_execution_iff.2 hc)
      | runtimeNotFound language => trivial
    | _ => trivial

theorem ComesFrom.sizeOf_lt (h : e.ComesFrom cause) : sizeOf cause < sizeOf e := by
  obtain ⟨uri, ws, _⟩ := h
  have hwraps := RaisedError.sizeOf_le_wrapAll ws (.view cause)
  rw [RaisedError.view.sizeOf_spec] at hwraps
  rw [ViewError.execution.sizeOf_spec, ScriptError.raised.sizeOf_spec]
  omega

/-- Failures do not come from one another without end. -/
theorem wellFounded_comesFrom : WellFounded fun cause e => ComesFrom e cause :=
  Subrelation.wf ComesFrom.sizeOf_lt (measure (sizeOf : ViewError → Nat)).wf

/-- What holds of the failures that come from no other one, and of a failure if it holds of the one
    that it comes from, holds of all. -/
@[elab_as_elim]
theorem cause_induction {motive : ViewError → Prop}
    (original : ∀ e : ViewError, e.IsOriginal → motive e)
    (caused : ∀ e cause : ViewError, e.ComesFrom cause → motive cause → motive e)
    (e : ViewError) : motive e := by
  induction e using wellFounded_comesFrom.induction with
  | h e ih =>
    by_cases h : ∃ cause, e.ComesFrom cause
    · obtain ⟨cause, hcause⟩ := h
      exact caused e cause hcause (ih cause hcause)
    · exact original e (isOriginal_iff.2 (not_exists.1 h))

/-! ## The innermost failure -/

/-- The innermost failure stays the same on the way from a failure to what it comes from. -/
theorem ComesFrom.innermost_eq (h : e.ComesFrom cause) : e.innermost = cause.innermost := by
  obtain ⟨uri, ws, _⟩ := h
  rw [innermost, RaisedError.nested?_of_view (RaisedError.unwrapped_wrapAll ws (.view cause))]
  rfl

theorem innermost_eq_of_reaches (h : Relation.ReflTransGen ComesFrom e found) :
    e.innermost = found.innermost := by
  induction h with
  | refl => rfl
  | tail _ hlast ih => exact ih.trans hlast.innermost_eq

theorem innermost_of_isOriginal (h : e.IsOriginal) : e.innermost = e := by
  cases e with
  | execution uri source =>
    cases source with
    | raised c =>
      have hnone : nested? c = none := (RaisedError.isPlain_iff c).2 h
      rw [innermost, hnone]
      rfl
    | runtimeNotFound language => rfl
  | _ => rfl

theorem reaches_innermost (e : ViewError) : Relation.ReflTransGen ComesFrom e e.innermost := by
  induction e using cause_induction with
  | original e h => rw [innermost_of_isOriginal h]
  | caused e cause h ih =>
    rw [h.innermost_eq]
    exact .head h ih

theorem isOriginal_innermost (e : ViewError) : e.innermost.IsOriginal := by
  induction e using cause_induction with
  | original e h => rwa [innermost_of_isOriginal h]
  | caused e cause h ih => rwa [h.innermost_eq]

/-- Where the way from a failure to what it comes from ends is the innermost failure. -/
theorem reaches_original_iff :
    Relation.ReflTransGen ComesFrom e found ∧ found.IsOriginal ↔ found = e.innermost := by
  constructor
  · rintro ⟨hreaches, horiginal⟩
    rw [innermost_eq_of_reaches hreaches, innermost_of_isOriginal horiginal]
  · rintro rfl
    exact ⟨reaches_innermost e, isOriginal_innermost e⟩

/-- However failures and wrappers are nested, the way from a failure to the one that it comes from,
    and on from there, does not go on without end, and where it ends is the innermost failure. The
    innermost failure is its own innermost failure, and it is that of every view that fails because
    of the given failure, whatever wrappers are around that. A failure that comes from no other one,
    and only such a failure, is its own innermost one. -/
theorem causes_end_innermost (e : ViewError) :
    (Acc (fun cause e => ComesFrom e cause) e
      ∧ ∀ found, Relation.ReflTransGen ComesFrom e found ∧ found.IsOriginal ↔ found = e.innermost)
    ∧ e.innermost.innermost = e.innermost
    ∧ (∀ uri ws, (execution uri (.raised (.wrapAll ws (.view e)))).innermost = e.innermost)
    ∧ (e.IsOriginal ↔ e.innermost = e) := by
  refine ⟨⟨wellFounded_comesFrom.apply e, fun found => reaches_original_iff⟩, ?_, ?_, ?_⟩
  · exact innermost_of_isOriginal (isOriginal_innermost e)
  · intro uri ws
    exact (ComesFrom.wrapped uri ws e).innermost_eq
  · exact ⟨innermost_of_isOriginal, fun h => h ▸ isOriginal_innermost e⟩

/-- A failure that is no render's is not looked into. -/
example :
    (execution "/page" (.raised (.wrapAll [.context, .callback] (.view
      (.script (.raised (.view (.notFound "/card")))))))).innermost
    = .script (.raised (.view (.notFound "/card"))) :=
  rfl

end ViewError

end ScriptedViews

import ScriptedViews.Proofs.Failure.Innermost
import ScriptedViews.Proofs.Render.Deeds

set_option autoImplicit false

/-! # What engines fail for

A render that has passed its checks fails with a failure of its view, which nests no other one, when
its context, its variables or its code cannot be had. A method fails with an error that no view is
the cause of, but for the one that calls views. Nothing is written by what fails. -/

namespace ScriptedViews

open Script (Bytes Value utf8)

open RaisedError (IsPlain)

/-- Source that cannot be read is no failure of a view. -/
theorem isPlain_of_readSource {h : BridgeHeap} {levels : Nat} {name : String} {source : Bytes}
    {environment : Value} {cause : RaisedError}
    (hread : h.readSource levels name source environment = .error cause) : cause.IsPlain := by
  unfold Script.Heap.readSource at hread
  dsimp only at hread
  split at hread
  · cases hread
    simp [IsPlain, ViewError.nested?]
  · split at hread
    · cases hread
    · next e _ =>
      cases hread
      cases e <;> simp [IsPlain, Script.ReadError.toRaised, ViewError.nested?]

theorem isPlain_of_callOf {h : BridgeHeap} {levels context : Nat} {x : Script.Executable}
    {cause : RaisedError} (hcall : h.callOf levels x context = .error cause) : cause.IsPlain := by
  unfold Script.Heap.callOf at hcall
  split at hcall
  · cases hcall
  · split at hcall
    · cases hcall
    · next hread =>
      cases hcall
      exact isPlain_of_readSource hread

/-- Whether a turn fails for some causes only, if it fails, keeps nothing but some things if it
    calls code, and has nothing written unless it has an answer. -/
structure FailsFor (P : RaisedError → Prop) (Q : Pending → Prop) (sinks : Array Sink)
    (t : EngineTurn) : Prop where
  cause : ∀ cause, t.action = .fail cause → P cause
  keeps : ∀ p, pendingOf t = some p → Q p
  quiet : t.world.sinks = sinks ∨ ∃ vs, t.action = .answer vs

/-- Whether what is kept is that of a render. -/
def Pending.IsOf (r : Request) (p : Pending) : Prop :=
  p.request? = some r

/-- A failure of the view at a URI that has no other one for a cause. -/
inductive IsOwnFailure (uri : String) : RaisedError → Prop
  | mk {cause : RaisedError} (hplain : cause.IsPlain) :
      IsOwnFailure uri (.callback (.view (.execution uri (.raised cause))))

/-- What the start of a render fails for. -/
inductive IsStartFailure (w : World) (r : Request) : RaisedError → Prop
  | missing (hnone : w.engines[r.engine]? = none ∨ w.views[r.view]? = none) :
      IsStartFailure w r (.callback (.view (.notFound "")))
  | stranger {v : View} (hv : w.views[r.view]? = some v) (hne : v.engine ≠ r.engine) :
      IsStartFailure w r (.callback (.view (.instanceMismatch v.uri)))
  | tooDeep {e : Engine} {v : View} (he : w.engines[r.engine]? = some e)
      (hv : w.views[r.view]? = some v) (hlt : e.config.maxNestingDepth < r.depth) :
      IsStartFailure w r (.callback (.view (.nestingTooDeep v.uri e.config.maxNestingDepth)))
  | own {cause : RaisedError} (hown : IsOwnFailure (Render.uriOf w r.view) cause) :
      IsStartFailure w r cause

namespace FailsFor

variable {P P' : RaisedError → Prop} {Q Q' : Pending → Prop} {h : BridgeHeap} {w : World}
  {sinks : Array Sink} {t : EngineTurn} {levels c : Nat} {r : Request}

theorem mono (ht : FailsFor P Q sinks t) (hP : ∀ cause, P cause → P' cause)
    (hQ : ∀ p, Q p → Q' p) : FailsFor P' Q' sinks t :=
  ⟨fun cause hc => hP cause (ht.cause cause hc), fun p hp => hQ p (ht.keeps p hp), ht.quiet⟩

theorem answer (vs : List Value) : FailsFor P Q sinks (Render.answer h w vs) :=
  ⟨nofun, nofun, .inr ⟨vs, rfl⟩⟩

theorem call {f : Value} {args : List Value} {p : Pending} (hp : Q p) :
    FailsFor P Q w.sinks ⟨h, w, .call f args p⟩ := by
  refine ⟨nofun, fun p' hp' => ?_, .inl rfl⟩
  cases hp'
  exact hp

theorem failWith {cause : RaisedError} (hcause : P cause) :
    FailsFor P Q w.sinks (Render.failWith h w cause) := by
  refine ⟨fun cause' hc => ?_, nofun, .inl rfl⟩
  cases hc
  exact hcause

theorem failView {e : ViewError} (he : P (.callback (.view e))) :
    FailsFor P Q w.sinks (Render.failView h w e) :=
  failWith he

/-! ## Renders -/

theorem finish {cause : RaisedError} (hplain : cause.IsPlain) :
    FailsFor (IsOwnFailure (Render.uriOf w r.view)) (·.IsOf r) w.sinks
      (Render.finish r c h w (some cause)) :=
  failView (w := w.modifyEngine _ _) (IsOwnFailure.mk hplain)

theorem execute (x : Script.Executable) :
    FailsFor (IsOwnFailure (Render.uriOf w r.view)) (·.IsOf r) w.sinks
      (Render.execute levels r c x h w) := by
  unfold Render.execute
  split
  · next cause hcall => exact finish (isPlain_of_callOf hcall)
  · exact call rfl

theorem uriOf_prepared (w : World) (view : Nat) (x : Script.Executable) :
    Render.uriOf (w.modifyView view fun v => v.prepared x) view = Render.uriOf w view := by
  unfold Render.uriOf
  rw [World.modifyView, Array.getElem?_modify, if_pos rfl]
  cases w.views[view]? <;> rfl

theorem executePrepared (x : Script.Executable) : FailsFor (IsOwnFailure (Render.uriOf w r.view))
    (·.IsOf r) w.sinks (Render.executePrepared levels r c x h w) := by
  rw [← uriOf_prepared w r.view x]
  exact execute (w := w.modifyView r.view fun v => v.prepared x) _

theorem compile (v : View) : FailsFor (IsOwnFailure (Render.uriOf w r.view)) (·.IsOf r) w.sinks
    (Render.compile levels r c v h w) := by
  unfold Render.compile
  dsimp only
  split
  · next cause hread =>
    rw [World.nameSource_sourceName?]
    exact finish (isPlain_of_readSource hread)
  · exact call (w := w.nameSource _ _) rfl

theorem prepare (compiles : Bool) (v : View) : FailsFor (IsOwnFailure (Render.uriOf w r.view))
    (·.IsOf r) w.sinks (Render.prepare levels r c compiles v h w) := by
  unfold Render.prepare
  split
  · exact execute _
  · split
    · exact compile v
    · exact executePrepared _

theorem acquire (e : Engine) (v : View) : FailsFor (IsOwnFailure (Render.uriOf w r.view)) (·.IsOf r)
    w.sinks (Render.acquire levels r e v h w) := by
  unfold Render.acquire
  split
  · exact prepare (w := w.modifyEngine _ _) _ v
  · split
    · exact failView (IsOwnFailure.mk (by simp [IsPlain, ViewError.nested?]))
    · exact call rfl

theorem start : FailsFor (IsStartFailure w r) (·.IsOf r) w.sinks (Render.start levels r h w) := by
  unfold Render.start
  split
  · next e v he hv =>
    split
    · next hne => exact failView (IsStartFailure.stranger hv hne)
    · split
      · next hlt => exact failView (IsStartFailure.tooDeep he hv hlt)
      · exact (acquire e v).mono (fun _ => .own) fun _ => id
  · next hnone =>
    refine failView (IsStartFailure.missing ?_)
    cases he : w.engines[r.engine]? with
    | none => exact .inl rfl
    | some e => exact .inr (Option.eq_none_iff_forall_ne_some.2 fun v hv => hnone e v he hv)

theorem acquired (vs : List Value) : FailsFor (IsOwnFailure (Render.uriOf w r.view)) (·.IsOf r)
    w.sinks (Render.acquired levels r vs h w) := by
  unfold Render.acquired
  split
  · exact prepare _ _
  · exact failView (IsOwnFailure.mk (by simp [IsPlain, ViewError.nested?]))

theorem compiled (vs : List Value) : FailsFor (IsOwnFailure (Render.uriOf w r.view)) (·.IsOf r)
    w.sinks (Render.compiled levels r c vs h w) := by
  unfold Render.compiled
  dsimp only
  split
  · exact executePrepared (w := w.modifyRuntime _ _) _
  · exact finish (by simp [IsPlain, ViewError.nested?])

/-! ## Methods -/

theorem write (sink : Nat) (vs : List Value) :
    FailsFor IsPlain (fun _ => True) w.sinks (Render.write sink vs h w) := by
  unfold Render.write
  split
  · exact failWith (by simp [IsPlain, ViewError.nested?])
  · split
    · exact answer _
    · exact failWith (by simp [IsPlain, ViewError.nested?])

theorem printWith (sink : Nat) (v : Value) (vs : List Value) :
    FailsFor IsPlain (fun _ => True) w.sinks (Render.printWith sink v vs h w) := by
  unfold Render.printWith
  dsimp only
  split
  · exact call trivial
  · exact failWith (by simp [IsPlain, ViewError.nested?])

theorem print (b : Bridge) (v : Value) :
    FailsFor IsPlain (fun _ => True) w.sinks (Render.print b v h w) := by
  unfold Render.print
  split
  · exact answer _
  · exact ⟨nofun, fun _ _ => trivial, .inl rfl⟩

end FailsFor

/-! ## Arguments -/

namespace Bridge

theorem isPlain_of_textArgument {v : Value} {cause : RaisedError}
    (h : textArgument v = .error cause) : cause.IsPlain := by
  unfold textArgument at h
  split at h
  · cases h
    simp [IsPlain, ViewError.nested?]
  · next bytes _ =>
    cases hdecode : Text.decodeUtf8 ⟨bytes.toArray⟩ <;> rw [hdecode] at h <;> cases h
    simp [IsPlain, ViewError.nested?]

theorem isPlain_of_optionalText {v : Value} {cause : RaisedError}
    (h : optionalText v = .error cause) : cause.IsPlain := by
  unfold optionalText at h
  split at h
  · cases h
  · cases htext : textArgument v with
    | ok text => rw [htext] at h; cases h
    | error cause' =>
      rw [htext] at h
      cases h
      exact isPlain_of_textArgument htext

theorem isPlain_of_optionalTable {v : Value} {cause : RaisedError}
    (h : optionalTable v = .error cause) : cause.IsPlain := by
  unfold optionalTable at h
  split at h
  · cases h
  · cases h
  · cases h
    simp [IsPlain, ViewError.nested?]

/-- Attributes whose keys are names can be added. -/
theorem exists_addAttributes_of_named {given : List (Value × Value)}
    (hnamed : ∀ e ∈ given, (attributeName? e.1).isSome = true) (scope : List (String × Value)) :
    ∃ scope', addAttributes scope given = some scope' := by
  induction given generalizing scope with
  | nil => exact ⟨scope, rfl⟩
  | cons e given ih =>
    obtain ⟨key, value⟩ := e
    obtain ⟨name, hname⟩ := Option.isSome_iff_exists.1 (hnamed _ List.mem_cons_self)
    rw [addAttributes, hname]
    exact ih (fun e he => hnamed e (List.mem_cons_of_mem _ he)) _

end Bridge

/-! ## Loading -/

/-- Whether a view could not be loaded. -/
def ViewError.IsLoadFailure : ViewError → Prop
  | .notFound _ => True
  | .load _ _ => True
  | .encoding _ _ => True
  | .validation _ _ => True
  | .parse _ _ => True
  | .namespaces _ _ => True
  | .unknownTag _ _ => True
  | _ => False

theorem error_of_bind {ε α β : Type} {x : Except ε α} {f : α → Except ε β} {e : ε}
    (h : x >>= f = .error e) : x = .error e ∨ ∃ a, f a = .error e := by
  cases x with
  | error e' =>
    cases h
    exact .inl rfl
  | ok a => exact .inr ⟨a, h⟩

theorem error_of_mapError {ε ε' α : Type} {f : ε → ε'} {x : Except ε α} {e : ε'}
    (h : x.mapError f = .error e) : ∃ e', x = .error e' ∧ e = f e' := by
  cases x with
  | error e' => exact ⟨e', rfl, (Except.error.inj h).symm⟩
  | ok a => cases h

/-- Whether a text that was there could not be made into a view. -/
def ViewError.IsTextFailure : ViewError → Prop
  | .encoding _ _ => True
  | .validation _ _ => True
  | .parse _ _ => True
  | .namespaces _ _ => True
  | .unknownTag _ _ => True
  | _ => False

theorem ViewError.IsTextFailure.isLoadFailure {e : ViewError} (h : e.IsTextFailure) :
    e.IsLoadFailure := by
  cases e with
  | encoding | validation | parse | namespaces | unknownTag => trivial
  | _ => cases h

theorem View.isTextFailure_of_compile {engine : Nat} {uri text : String} {e : ViewError}
    (h : View.compile engine uri text = .error e) : e.IsTextFailure := by
  have hdocument (e' : DocumentError) : (ViewError.ofDocument uri e').IsTextFailure := by
    cases e' <;> trivial
  obtain h | ⟨root, h⟩ := error_of_bind h
  · obtain ⟨e', -, rfl⟩ := error_of_mapError h
    exact hdocument e'
  obtain h | ⟨namespaces, h⟩ := error_of_bind h
  · obtain ⟨e', -, rfl⟩ := error_of_mapError h
    exact hdocument e'
  obtain h | ⟨source, h⟩ := error_of_bind h
  · obtain ⟨⟨tag⟩, -, rfl⟩ := error_of_mapError h
    trivial
  · cases h

/-- A view is not read because the loader has no bytes for it, or because of the text that it has. -/
theorem World.error_of_readView {w : World} {engine : Nat} {e : Engine} {uri : String}
    {error : ViewError} (h : w.readView engine e uri = .error error) :
    (∃ cause, e.loader.load w.sources uri = .error cause
      ∧ error = if cause.isNotFound then .notFound uri else .load uri cause)
    ∨ (∃ bytes, e.loader.load w.sources uri = .ok bytes) ∧ error.IsTextFailure := by
  unfold readView at h
  cases hload : e.loader.load w.sources uri with
  | error cause =>
    rw [hload] at h
    exact .inl ⟨cause, rfl, (Except.error.inj h).symm⟩
  | ok bytes =>
    refine .inr ⟨⟨bytes, rfl⟩, ?_⟩
    rw [hload] at h
    obtain h | ⟨text, h⟩ := error_of_bind (x := decodeView uri bytes) h
    · unfold decodeView at h
      split at h
      · cases h
        trivial
      · split at h <;> cases h
    obtain h | ⟨-, h⟩ := error_of_bind h
    · unfold validate at h
      split at h
      · split at h
        · obtain ⟨message, -, rfl⟩ := error_of_mapError h
          trivial
        · cases h
      · cases h
    · exact View.isTextFailure_of_compile h

/-- What cannot be loaded fails for one of a few reasons. -/
theorem World.isLoadFailure_of_load {w : World} {engine : Nat} {uri : String} {e : ViewError}
    (hl : w.load engine uri = .error e) : e.IsLoadFailure := by
  unfold load at hl
  split at hl
  · cases hl
    trivial
  · split at hl
    · cases hl
    · split at hl
      · next hread =>
        cases hl
        obtain ⟨cause, -, rfl⟩ | ⟨-, htext⟩ := error_of_readView hread
        · split <;> trivial
        · exact htext.isLoadFailure
      · dsimp only at hl
        split at hl <;> cases hl

end ScriptedViews

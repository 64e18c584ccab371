import Mathlib.Data.Nat.Find
import ScriptedViews.Proofs.Render.CallScope
import ScriptedViews.Proofs.Render.Histories
import ScriptedViews.Proofs.Script.Unwinding

set_option autoImplicit false

/-! # Errors that name the views they come through

An error in a view's code ends the code of every view that called it, one after the other, and each
of them is named by the failure that its caller gets. So the failure of a render from outside tells
all views that were active when something went wrong, down to the one where it did. -/

namespace ScriptedViews

open Script (Bytes Value Frame State Rests utf8)
open Script.State (Fails LetsPass Reaches)

/-! ## Chains -/

/-- Whether an error, taken out of its wrappers, is a failure of each of some views in turn, the
    outermost first, and then comes down to a cause. -/
def IsChain (cause : RaisedError) : List String → RaisedError → Prop
  | [], c => c.unwrapped = cause.unwrapped
  | uri :: uris, c => ∃ c', c.unwrapped = .view (.execution uri (.raised c'))
      ∧ IsChain cause uris c'

namespace IsChain

variable {cause c c' : RaisedError} {uri : String} {uris : List String}

theorem congr (h : IsChain cause uris c) (hsame : c'.unwrapped = c.unwrapped) :
    IsChain cause uris c' := by
  cases uris with
  | nil => exact hsame.trans h
  | cons uri uris =>
    obtain ⟨c₁, hc, hrest⟩ := h
    exact ⟨c₁, hsame.trans hc, hrest⟩

/-- If no view has failed for the cause, the innermost failure is that of the last of the views. -/
theorem innermost_of_isPlain (h : IsChain cause (uris ++ [uri]) c) (hplain : cause.IsPlain) :
    ∃ c', ViewError.nested? c = some (.execution uri (.raised c'))
      ∧ c'.unwrapped = cause.unwrapped := by
  induction uris generalizing c with
  | nil =>
    obtain ⟨c', hc, hc'⟩ := h
    have hnone : ViewError.nested? c' = none := by
      rw [← RaisedError.nested?_unwrapped, hc', RaisedError.nested?_unwrapped]
      exact hplain
    refine ⟨c', ?_, hc'⟩
    rw [RaisedError.nested?_of_view hc, ViewError.innermost, hnone]
    rfl
  | cons first uris ih =>
    obtain ⟨c', hc, hc'⟩ := h
    obtain ⟨c'', hnested, hlast⟩ := ih hc'
    refine ⟨c'', ?_, hlast⟩
    rw [RaisedError.nested?_of_view hc, ViewError.innermost, hnested]
    rfl

/-- If a view has failed for the cause, its innermost failure is that of all. -/
theorem innermost_of_view {e : ViewError} (h : IsChain cause uris c)
    (hview : cause.unwrapped = .view e) : ViewError.nested? c = some e.innermost := by
  induction uris generalizing c with
  | nil => exact RaisedError.nested?_of_view (h.trans hview)
  | cons first uris ih =>
    obtain ⟨c', hc, hc'⟩ := h
    rw [RaisedError.nested?_of_view hc, ViewError.innermost, ih hc']
    rfl

end IsChain

/-- What a function of the host makes of an error that comes to it. -/
def Pending.passOn (w : World) (cause : RaisedError) : Pending → RaisedError
  | .nothing => cause
  | .acquiring r => .callback (.view (Render.executionError w r.view cause))
  | .preparing r _ _ => .callback (.view (Render.executionError w r.view cause))
  | .running r _ => .callback (.view (Render.executionError w r.view cause))
  | .lookingUp _ _ => .callback cause
  | .printing _ => .callback cause

/-- The URIs of the views whose renders are active, the outermost first. -/
def RenderState.activeUris (s : RenderState) : List String :=
  ((activeOn s.stack).map fun r => Render.uriOf s.world r.view).reverse

/-- Every function of the engine that an error passes adds its view to the chain, if it has one. -/
theorem isChain_foldl {w : World} {cause c : RaisedError} {uris : List String}
    (h : IsChain cause uris c) (ps : List Pending) :
    IsChain cause (((ps.filterMap Pending.request?).map fun r => Render.uriOf w r.view).reverse
      ++ uris) (ps.foldl (Pending.passOn w) c) := by
  induction ps generalizing c uris with
  | nil => exact h
  | cons p ps ih =>
    have hrender {r : Request} : IsChain cause (Render.uriOf w r.view :: uris)
        (.callback (.view (Render.executionError w r.view c))) := ⟨c, rfl, h⟩
    have hwrapped : IsChain cause uris (.callback c) := h.congr rfl
    rw [List.foldl_cons]
    cases p with
    | nothing => exact ih h
    | lookingUp | printing => exact ih hwrapped
    | acquiring | preparing | running =>
      simp only [List.filterMap_cons, Pending.request?, List.map_cons, List.reverse_cons,
        List.append_assoc]
      exact ih hrender

/-! ## The way of an error -/

namespace RenderState

variable {s : RenderState} {cause : RaisedError}

/-- A function of the engine that an error comes to passes it on, and writes nothing. -/
theorem resume_error (p : Pending) (cause : RaisedError) (levels : Nat) (h : BridgeHeap)
    (w : World) :
    ∃ h' w', Render.resume p (.error cause) levels h w = ⟨h', w', .fail (p.passOn w cause)⟩
      ∧ w'.views = w.views ∧ w'.sinks = w.sinks := by
  cases p <;> exact ⟨_, _, rfl, rfl, rfl⟩

theorem passOn_congr {w w' : World} (hviews : w'.views = w.views) :
    Pending.passOn w' = Pending.passOn w := by
  funext cause p
  cases p <;> simp only [Pending.passOn, Render.executionError, Render.uriOf, hviews]

/-- An error that nothing catches comes to the end of a render that has code running, and has been
    passed on by every function of the engine on its way. -/
theorem reaches_end {p : Pending} (h : s.Fails cause) (hrests : Rests p s.stack)
    (hpass : ∀ t, Reaches Render.host s t → t.LetsPass) :
    ∃ t, Reaches Render.host s t ∧ t.stack = []
      ∧ t.control = .failed ((hostsOf s.stack).foldl (Pending.passOn s.world) cause)
      ∧ t.world.sinks = s.world.sinks := by
  generalize hs : s.stack = K at hrests ⊢
  induction K generalizing s cause with
  | nil => exact absurd hrests.last nofun
  | cons f K ih =>
    cases hf : f.isHosts with
    | false =>
      have hK : K ≠ [] := by
        rintro rfl
        cases hrests.last
        cases hf
      obtain ⟨t, ht, hstack, hworld, hfails⟩ := h.pop hs hf hpass
      obtain ⟨u, hu, hend⟩ := ih hfails (fun u hu => hpass u (ht.trans hu)) hstack (hrests.tail hK)
      have hhosts : hostsOf (f :: K) = hostsOf K := by
        cases f <;> first | rfl | cases hf
      rw [hhosts, ← hworld]
      exact ⟨u, ht.trans hu, hend⟩
    | true =>
      obtain ⟨q, rfl⟩ : ∃ q, f = .host q := by
        cases f <;> first | exact ⟨_, rfl⟩ | cases hf
        exact absurd List.mem_cons_self hrests.undisturbed
      obtain ⟨heap, level, depth, ht⟩ := h.resume hs (hpass s (.refl s))
      obtain ⟨heap', w', hturn, hviews, hsinks⟩ := resume_error q cause level heap s.world
      have ht' : Reaches Render.host s
          ⟨heap', w', K, .failed (q.passOn s.world cause), level, depth⟩ := by
        have hresume : Render.host.resume q (.error cause) level heap s.world = _ := hturn
        rw [hresume] at ht
        exact ht
      rw [hostsOf_host, List.foldl_cons]
      cases K with
      | nil => exact ⟨_, ht', rfl, rfl, hsinks⟩
      | cons g K =>
        obtain ⟨u, hu, hstack, hcontrol, hwrites⟩ := ih (.failed rfl)
          (fun u hu => hpass u (ht'.trans hu)) rfl (hrests.tail (List.cons_ne_nil _ _))
        dsimp only at hcontrol hwrites
        rw [passOn_congr hviews] at hcontrol
        exact ⟨u, ht'.trans hu, hstack, hcontrol, hwrites.trans hsinks⟩

/-! ## What goes wrong -/

/-- Whether a view is being set up, or is going to be in the next step. -/
def SetsUp (s : RenderState) (uri : String) : Prop :=
  (∃ c view w, s.viewCall? = some c ∧ s.world.load c.bridge.engine c.target = .ok (view, w)
    ∧ c.target = uri)
  ∨ ∃ p r K, s.stack = .host p :: K ∧ p.request? = some r ∧ (∀ context, p ≠ .running r context)
    ∧ Render.uriOf s.world r.view = uri

/-- What an error of the next step has for a cause. -/
inductive WhyFails (s : RenderState) : RaisedError → Prop
  /-- No view has failed. -/
  | plain {cause : RaisedError} (hplain : cause.IsPlain) : WhyFails s cause
  /-- A view is called that cannot be loaded. -/
  | unloaded {c : ViewCall} {e : ViewError} (hcall : s.viewCall? = some c)
      (hl : s.world.load c.bridge.engine c.target = .error e) (hfailure : e.IsLoadFailure) :
      WhyFails s (.callback (.view e))
  /-- A view is called too deep. -/
  | tooDeep {c : ViewCall} {e : Engine} (hcall : s.viewCall? = some c)
      (he : s.world.engines[c.bridge.engine]? = some e)
      (hlt : e.config.maxNestingDepth ≤ c.bridge.depth) :
      WhyFails s (.callback (.view (.nestingTooDeep c.target e.config.maxNestingDepth)))
  /-- A view is called of an engine that nobody holds. -/
  | dropped {c : ViewCall} (hcall : s.viewCall? = some c)
      (hheld : (s.world.engines[c.bridge.engine]?.any Engine.isHeld) = false) :
      WhyFails s (.callback (.view (.config "view engine dropped during render")))
  /-- A view cannot be set up. -/
  | setUp {uri : String} {cause : RaisedError} (hsets : s.SetsUp uri)
      (hown : IsOwnFailure uri cause) : WhyFails s cause

/-- Whether an error that is on its way is not caught next, one that the next step raises is a text,
    and the attributes of a view that it calls have names. -/
structure IsCandid (s : RenderState) : Prop where
  uncaught : ∀ {error : Value} {f : Frame Pending} {K : List (Frame Pending)},
    s.control = .raised error → s.stack = f :: K → f.catches = false
  texts : s.control.isFailing = false → ∀ error : Value,
    (s.step Render.host).control = .raised error → ∃ bytes, error = .text bytes
  named : ∀ {c : ViewCall} {ref : Nat}, s.viewCall? = some c → c.given = some ref →
    ∀ e ∈ (s.heap.table ref).toList, (Bridge.attributeName? e.1).isSome = true

/-! ## One step -/

/-- What is called by the engine is no failure, unless there is no room for it. -/
theorem fails_turn {P : RaisedError → Prop} {Q : Pending → Prop} {t : EngineTurn}
    {sinks : Array Sink} (ht : FailsFor P Q sinks t)
    (hfailing : (s.turn t).control.isFailing = true) :
    ∃ cause, (s.turn t).Fails cause ∧ (P cause ∨ cause.IsPlain)
      ∧ (s.turn t).world.sinks = sinks := by
  have hroom {u : RenderState} {f : Frame Pending} {c : Script.Control} (hc : c.isFailing = false)
      (hfailing : (State.enter u f c).control.isFailing = true) :
      (State.enter u f c).control = .raised (.ofString "C stack overflow") := by
    unfold State.enter at hfailing ⊢
    dsimp only at hfailing ⊢
    split at hfailing
    · next hfull => rw [if_pos hfull]
    · rw [hc] at hfailing
      cases hfailing
  have hplain (text : String) : (RaisedError.runtime text).IsPlain := by
    simp [RaisedError.IsPlain, ViewError.nested?]
  have hquiet (hnone : ∀ vs, t.action ≠ .answer vs) : (s.turn t).world.sinks = sinks := by
    rw [world_turn]
    exact ht.quiet.resolve_right fun hvs => hvs.elim hnone
  obtain ⟨h, w, action⟩ := t
  cases action with
  | answer vs => cases hfailing
  | fail cause => exact ⟨cause, .failed rfl, .inl (ht.cause cause rfl), hquiet fun _ h => by cases h⟩
  | call f args p =>
    exact ⟨_, .text (hroom rfl hfailing), .inr (hplain _), hquiet fun _ h => by cases h⟩
  | get object key p =>
    exact ⟨_, .text (hroom rfl hfailing), .inr (hplain _), hquiet fun _ h => by cases h⟩

theorem failsFor_invoke {name : Bytes} {args : List Value} {K : List (Frame Pending)}
    (hmethod : s.methodCall? = some (name, args, K)) (hnone : s.viewCall? = none) :
    FailsFor RaisedError.IsPlain (fun _ => True) s.world.sinks
      (Render.invoke name args s.level s.heap s.world) := by
  obtain ⟨cause, hplain, heq⟩ | ⟨vs, heq⟩ | ⟨b, v, heq⟩ := invoke_cases hmethod hnone <;> rw [heq]
  · exact .failWith hplain
  · exact .answer vs
  · exact .print b v

theorem failsFor_callView {c : ViewCall} (hcall : s.viewCall? = some c)
    (hviews : s.world.HasOwnViews) (hcandid : s.IsCandid) :
    FailsFor s.WhyFails (fun _ => True) s.world.sinks (c.turn s) := by
  unfold ViewCall.turn Render.callView
  split
  · next hheld => exact .failView (WhyFails.dropped hcall (by simpa using hheld))
  · next hheld =>
    obtain ⟨e, he, -⟩ : ∃ e, s.world.engines[c.bridge.engine]? = some e ∧ e.isHeld = true := by
      simpa [Option.any_eq_true] using hheld
    split
    · next e hl => exact .failView (WhyFails.unloaded hcall hl (World.isLoadFailure_of_load hl))
    · next view w hl =>
      have hsinks : w.sinks = s.world.sinks := (World.load_leaves hl).2.2
      obtain ⟨-, v, hv, hengine, huri⟩ := hviews.load hl
      obtain ⟨e', he', hsame, -⟩ := (World.engines_load hl).2 _ e he
      have huri' : Render.uriOf w view = c.target := by
        rw [Render.uriOf, hv]
        exact huri
      dsimp only
      split
      · next hnone =>
        refine absurd hnone (Option.ne_none_iff_exists'.2 ?_)
        refine Bridge.exists_addAttributes_of_named (fun e he => ?_) _
        split at he
        · next ref hgiven => exact hcandid.named hcall hgiven e he
        · cases he
      · next scope _ =>
        rw [← hsinks]
        refine FailsFor.start.mono (fun cause hcause => ?_) fun _ _ => trivial
        cases hcause with
        | missing hnone =>
          refine absurd hnone (not_or.2 ⟨?_, ?_⟩)
          · exact Option.ne_none_iff_exists'.2 ⟨e', he'⟩
          · exact Option.ne_none_iff_exists'.2 ⟨v, hv⟩
        | stranger hv' hne =>
          cases hv.symm.trans hv'
          exact absurd hengine hne
        | tooDeep he'' hv' hlt =>
          cases hv.symm.trans hv'
          cases he'.symm.trans he''
          rw [hsame.config] at hlt ⊢
          exact huri ▸ .tooDeep hcall he (Nat.le_of_lt_succ hlt)
        | own hown => exact .setUp (.inl ⟨c, view, w, hcall, hl, rfl⟩) (huri' ▸ hown)

/-- A render that goes on with values fails with a failure of its view. -/
theorem failsFor_resume_render {p : Pending} {r : Request} (hp : p.IsOf r) (vs : List Value)
    (levels : Nat) (h : BridgeHeap) (w : World) :
    FailsFor (fun cause => IsOwnFailure (Render.uriOf w r.view) cause ∧ ∀ c, p ≠ .running r c)
      (·.IsOf r) w.sinks (Render.resume p (.ok vs) levels h w) := by
  cases p with
  | acquiring =>
    cases hp
    exact (FailsFor.acquired vs).mono (fun _ hc => ⟨hc, nofun⟩) fun _ => id
  | preparing =>
    cases hp
    exact (FailsFor.compiled (w := w.nameSource _ _) vs).mono (fun _ hc => ⟨hc, nofun⟩) fun _ => id
  | running => exact .answer []
  | nothing | lookingUp | printing => cases hp

/-- What a function of the engine fails for that goes on with values. -/
theorem failsFor_resume {p : Pending} {K : List (Frame Pending)} (hs : s.stack = .host p :: K)
    (vs : List Value) (levels : Nat) (h : BridgeHeap) :
    FailsFor s.WhyFails (fun _ => True) s.world.sinks
      (Render.resume p (.ok vs) levels h s.world) := by
  have hrender {r : Request} (hp : p.IsOf r) := (failsFor_resume_render hp vs levels h s.world).mono
    (fun _ hc => WhyFails.setUp (.inr ⟨p, r, K, hs, hp, hc.2, rfl⟩) hc.1) fun _ _ => trivial
  cases p with
  | nothing => exact .answer vs
  | acquiring | preparing | running => exact hrender rfl
  | lookingUp sink v => exact (FailsFor.printWith sink v vs).mono (fun _ => .plain) fun _ => id
  | printing sink => exact (FailsFor.write sink vs).mono (fun _ => .plain) fun _ => id

/-- What goes wrong in a step has a cause, and nothing is written then. -/
theorem fails_step (hsound : s.IsSound) (hviews : s.world.HasOwnViews) (hcandid : s.IsCandid)
    (hbefore : s.control.isFailing = false) (hundisturbed : .describing ∉ s.stack)
    (hfailing : (s.step Render.host).control.isFailing = true) :
    ∃ cause, (s.step Render.host).Fails cause ∧ s.WhyFails cause
      ∧ (s.step Render.host).world.sinks = s.world.sinks := by
  have hturn {u : RenderState} {t : EngineTurn} {P : RaisedError → Prop} {Q : Pending → Prop}
      (ht : FailsFor P Q s.world.sinks t) (hP : ∀ cause, P cause → s.WhyFails cause)
      (hfailing : (u.turn t).control.isFailing = true) : ∃ cause, (u.turn t).Fails cause
        ∧ s.WhyFails cause ∧ (u.turn t).world.sinks = s.world.sinks := by
    obtain ⟨cause, hfails, hcause, hsinks⟩ := fails_turn ht hfailing
    exact ⟨cause, hfails, hcause.elim (hP cause) .plain, hsinks⟩
  cases hcall : s.viewCall? with
  | some c =>
    rw [(viewCall?_spec hcall).2] at hfailing ⊢
    exact hturn (failsFor_callView hcall hviews hcandid) (fun _ => id) hfailing
  | none =>
    have htexts := hcandid.texts hbefore
    have hmove : s.Moves Render.host (s.step Render.host) := hsound.moves
    generalize s.step Render.host = t at hmove hfailing htexts ⊢
    cases hmove with
    | internal h =>
      -- Code has no failures, so this is an error that it raises.
      cases hc : t.control with
      | raised error =>
        obtain ⟨bytes, rfl⟩ := htexts _ hc
        exact ⟨_, .text hc, .plain (by simp [RaisedError.IsPlain, ViewError.nested?]),
          congrArg _ h.world⟩
      | failed cause =>
        have hquiet := h.quiet
        rw [hc] at hquiet
        cases hquiet
      | _ =>
        rw [hc] at hfailing
        cases hfailing
    | ended hs =>
      rw [hbefore] at hfailing
      cases hfailing
    | @invoked K hpart hshaped name args hmethod =>
      exact hturn (failsFor_invoke hmethod hcall) (fun _ => .plain) hfailing
    | @resumed p K outcome hs harrives =>
      cases harrives with
      | values hc => exact hturn (failsFor_resume hs _ _ _) (fun _ => id) hfailing
      | failed hc | raised hc =>
        rw [hc] at hbefore
        cases hbefore
    | described hs hc =>
      rw [hc] at hbefore
      cases hbefore
    | undescribed hs hc => exact absurd (hs ▸ List.mem_cons_self) hundisturbed

/-- Whether a render is at the bottom of a stack. -/
def RestsOn (r : Request) (K : List (Frame Pending)) : Prop :=
  ∃ p : Pending, p.IsOf r ∧ Rests p K

/-- Whether the outermost render has come to its end, and to a failure of its view if to any. -/
structure HasEnded (uri : String) (t : RenderState) : Prop where
  stack : t.stack = []
  control : (∃ vs, t.control = .values vs) ∨ ∃ cause, t.control = .failed cause
    ∧ IsOwnFailure uri cause

/-- While nothing goes wrong, a render stays at the bottom of the stack, or comes to its end. -/
theorem rests_step {r : Request} (hrests : RestsOn r s.stack) (hsound : s.IsSound)
    (hquiet : s.control.isFailing = false) : RestsOn r (s.step Render.host).stack
      ∨ HasEnded (Render.uriOf s.world r.view) (s.step Render.host) := by
  obtain ⟨p₀, hp₀, hrests⟩ := hrests
  have hturn {K : List (Frame Pending)} (hK : Rests p₀ K) (u : RenderState)
      (hu : u.stack = K) (t : EngineTurn) : Rests p₀ (u.turn t).stack := by
    rw [stack_turn, hu]
    cases pendingOf t with
    | none => exact hK
    | some p => exact hK.cons p
  have hmove : s.Moves Render.host (s.step Render.host) := hsound.moves
  generalize s.step Render.host = t at hmove ⊢
  cases hmove with
  | internal h => exact .inl ⟨p₀, hp₀, hrests.congr h.hostPart⟩
  | ended hs => exact .inl ⟨p₀, hp₀, hrests⟩
  | invoked hpart => exact .inl ⟨p₀, hp₀, hturn (hrests.congr hpart) _ rfl _⟩
  | @resumed p K outcome hs harrives =>
    cases harrives with
    | @values vs hc =>
      cases K with
      | nil =>
        -- The render itself goes on.
        have hlast := hrests.last
        rw [hs] at hlast
        cases hlast
        have hfails := failsFor_resume_render hp₀ vs (s.level - 1) s.heap s.world
        have hown : Render.host.resume p₀ (.ok vs) (s.level - 1) s.heap s.world
            = Render.resume p₀ (.ok vs) (s.level - 1) s.heap s.world := rfl
        rw [hown]
        generalize Render.resume p₀ (.ok vs) (s.level - 1) s.heap s.world = t at hfails ⊢
        obtain ⟨h, w, action⟩ := t
        cases action with
        | answer vs => exact .inr ⟨rfl, .inl ⟨vs, rfl⟩⟩
        | fail cause => exact .inr ⟨rfl, .inr ⟨cause, rfl, (hfails.cause cause rfl).1⟩⟩
        | call f args p =>
          refine .inl ⟨p, hfails.keeps p rfl, ?_⟩
          rw [stack_turn]
          exact ⟨rfl, by simp [pendingOf]⟩
        | get object key p =>
          refine .inl ⟨p, hfails.keeps p rfl, ?_⟩
          rw [stack_turn]
          exact ⟨rfl, by simp [pendingOf]⟩
      | cons f K =>
        rw [hs] at hrests
        exact .inl ⟨p₀, hp₀, hturn (hrests.tail (List.cons_ne_nil _ _)) _ rfl _⟩
    | failed hc | raised hc =>
      rw [hc] at hquiet
      cases hquiet
  | described hs hc =>
    rw [hc] at hquiet
    cases hquiet
  | undescribed hs hc => exact absurd (hs ▸ List.mem_cons_self) hrests.undisturbed

/-! ## Runs -/

/-- Whether code has not changed what the text of an error is that comes to the engine. -/
def LeavesTexts (s : RenderState) : Prop :=
  ∀ {bytes : Bytes} {p : Pending} {K : List (Frame Pending)}, s.control = .raised (.text bytes) →
    s.stack = .host p :: K → s.heap.metafield (.text bytes) "__tostring" = .nil

theorem isFailing_of_outcome? (h : s.outcome? = some (.error cause)) :
    s.control.isFailing = true := by
  have hstack := stack_of_outcome? h
  unfold State.outcome? at h
  rw [hstack] at h
  cases hc : s.control <;> rw [hc] at h <;> cases h <;> rfl

/-- What ends with an error has gone wrong for the first time before. -/
theorem exists_first_failing (hquiet : s.control.isFailing = false) {fuel : Nat}
    (hend : (s.stepMany Render.host fuel).outcome? = some (.error cause)) :
    ∃ n, (s.stepMany Render.host (n + 1)).control.isFailing = true
      ∧ ∀ k ≤ n, (s.stepMany Render.host k).control.isFailing = false := by
  have hexists : ∃ n, (s.stepMany Render.host n).control.isFailing = true :=
    ⟨fuel, isFailing_of_outcome? hend⟩
  obtain ⟨n, hn⟩ : ∃ n, Nat.find hexists = n + 1 := by
    refine Nat.exists_eq_succ_of_ne_zero fun hzero => ?_
    have hfirst := Nat.find_spec hexists
    rw [hzero] at hfirst
    exact absurd (hquiet.symm.trans hfirst) nofun
  refine ⟨n, hn ▸ Nat.find_spec hexists, fun k hk => ?_⟩
  have hmin : ¬ (s.stepMany Render.host k).control.isFailing = true :=
    Nat.find_min hexists (by omega)
  rwa [Bool.not_eq_true] at hmin

theorem HasEnded.outcome? {uri : String} {t : RenderState} (h : t.HasEnded uri) :
    ∃ o, t.outcome? = some o := by
  obtain ⟨hstack, ⟨vs, hc⟩ | ⟨cause, hc, -⟩⟩ := h
  · exact ⟨.ok vs, by rw [State.outcome?, hstack, hc]⟩
  · exact ⟨.error cause, by rw [State.outcome?, hstack, hc]⟩

/-- Until something goes wrong, the render stays at the bottom of the stack, and it comes to its end
    if it is itself what goes wrong. -/
theorem rests_until {r : Request} {n : Nat} (hs : RestsOn r s.stack)
    (hsound : ∀ n, (s.stepMany Render.host n).IsSound)
    (hbefore : ∀ k ≤ n, (s.stepMany Render.host k).control.isFailing = false)
    (hfailing : (s.stepMany Render.host (n + 1)).control.isFailing = true) :
    RestsOn r (s.stepMany Render.host n).stack
      ∧ (RestsOn r (s.stepMany Render.host (n + 1)).stack
        ∨ HasEnded (Render.uriOf (s.stepMany Render.host n).world r.view)
          (s.stepMany Render.host (n + 1))) := by
  have hstep {k : Nat} (hk : k ≤ n) (h : RestsOn r (s.stepMany Render.host k).stack) :
      RestsOn r (s.stepMany Render.host (k + 1)).stack
        ∨ HasEnded (Render.uriOf (s.stepMany Render.host k).world r.view)
          (s.stepMany Render.host (k + 1)) := by
    rw [State.stepMany_succ]
    exact rests_step h (hsound k) (hbefore k hk)
  have hrests : ∀ k ≤ n, RestsOn r (s.stepMany Render.host k).stack := by
    intro k hk
    induction k with
    | zero => exact hs
    | succ k ih =>
      refine (hstep (by omega) (ih (by omega))).resolve_right fun hended => ?_
      -- What has come to its end stays as it is.
      obtain ⟨o, ho⟩ := hended.outcome?
      rw [State.stepMany_of_le (Nat.le_succ_of_le hk) ho, hbefore _ hk] at hfailing
      cases hfailing
  exact ⟨hrests n (Nat.le_refl n), hstep (Nat.le_refl n) (hrests n (Nat.le_refl n))⟩

/-- However many steps are taken, a run ends in one way. -/
theorem eq_of_outcome? {a b : Nat} {o o' : Except RaisedError (List Value)}
    (ha : (s.stepMany Render.host a).outcome? = some o)
    (hb : (s.stepMany Render.host b).outcome? = some o') :
    s.stepMany Render.host a = s.stepMany Render.host b := by
  obtain hle | hle := Nat.le_total a b
  · exact (State.stepMany_of_le hle ha).symm
  · exact State.stepMany_of_le hle hb

/-- A render at the bottom of the stack fails because something goes wrong for the first time, with
    what all functions of the engine that are at work then pass on, and nothing is written any
    more. -/
theorem fails_once {r : Request} (hsound : ∀ n, (s.stepMany Render.host n).IsSound)
    (hviews : ∀ n, (s.stepMany Render.host n).world.HasOwnViews)
    (hcandid : ∀ n, IsCandid (s.stepMany Render.host n))
    (htexts : ∀ n, LeavesTexts (s.stepMany Render.host n))
    (hs : RestsOn r s.stack) (hquiet : s.control.isFailing = false)
    {fuel : Nat} {final : RaisedError}
    (hend : (s.stepMany Render.host fuel).outcome? = some (.error final)) :
    ∃ n cause, (∀ k ≤ n, (s.stepMany Render.host k).control.isFailing = false)
      ∧ (s.stepMany Render.host (n + 1)).Fails cause
      ∧ WhyFails (s.stepMany Render.host n) cause
      ∧ (RestsOn r (s.stepMany Render.host (n + 1)).stack
        ∨ (s.stepMany Render.host (n + 1)).stack = []
          ∧ IsOwnFailure (Render.uriOf (s.stepMany Render.host n).world r.view) cause)
      ∧ final = (hostsOf (s.stepMany Render.host (n + 1)).stack).foldl
        (Pending.passOn (s.stepMany Render.host (n + 1)).world) cause
      ∧ (s.stepMany Render.host fuel).world.sinks = (s.stepMany Render.host n).world.sinks := by
  obtain ⟨n, hfailing, hbefore⟩ := exists_first_failing hquiet hend
  obtain ⟨⟨p, -, hrests⟩, hnext⟩ := rests_until hs hsound hbefore hfailing
  -- What the step comes to is an error with a cause.
  have hstep : s.stepMany Render.host (n + 1) = (s.stepMany Render.host n).step Render.host :=
    State.stepMany_succ n s
  obtain ⟨cause, hfails, hwhy, hsinks⟩ := fails_step (hsound n) (hviews n) (hcandid n)
    (hbefore n (Nat.le_refl n)) hrests.undisturbed (hstep ▸ hfailing)
  rw [← hstep] at hfails hsinks
  have hpass (t : RenderState) (ht : Reaches Render.host (s.stepMany Render.host (n + 1)) t) :
      t.LetsPass := by
    obtain ⟨k, rfl⟩ := State.exists_stepMany_of_reaches ht
    rw [← State.stepMany_add]
    exact ⟨(hcandid _).uncaught, htexts _⟩
  -- It goes all the way to the end.
  have hway : (RestsOn r (s.stepMany Render.host (n + 1)).stack
        ∨ (s.stepMany Render.host (n + 1)).stack = []
          ∧ IsOwnFailure (Render.uriOf (s.stepMany Render.host n).world r.view) cause)
      ∧ ∃ t, Reaches Render.host (s.stepMany Render.host (n + 1)) t ∧ t.stack = []
        ∧ t.control = .failed ((hostsOf (s.stepMany Render.host (n + 1)).stack).foldl
          (Pending.passOn (s.stepMany Render.host (n + 1)).world) cause)
        ∧ t.world.sinks = (s.stepMany Render.host (n + 1)).world.sinks := by
    obtain ⟨q, hq, hrests⟩ | ⟨hstack, ⟨vs, hc⟩ | ⟨cause', hc, hown⟩⟩ := hnext
    · exact ⟨.inl ⟨q, hq, hrests⟩, reaches_end hfails hrests hpass⟩
    · rw [hc] at hfailing
      cases hfailing
    · obtain rfl : cause = cause' := by
        cases hfails with
        | failed hc' => exact Script.Control.failed.inj (hc'.symm.trans hc)
        | raised hc' | text hc' => cases hc'.symm.trans hc
      refine ⟨.inr ⟨hstack, hown⟩, _, .refl _, hstack, ?_, rfl⟩
      rw [hstack]
      exact hc
  obtain ⟨hwhere, t, ht, hstack, hcontrol, hwrites⟩ := hway
  obtain ⟨k, rfl⟩ := State.exists_stepMany_of_reaches ht
  rw [← State.stepMany_add] at hstack hcontrol hwrites
  have houtcome : (s.stepMany Render.host (n + 1 + k)).outcome? = some (.error
      ((hostsOf (s.stepMany Render.host (n + 1)).stack).foldl
        (Pending.passOn (s.stepMany Render.host (n + 1)).world) cause)) := by
    rw [State.outcome?, hstack, hcontrol]
  have hsame := eq_of_outcome? hend houtcome
  rw [hsame, houtcome] at hend
  exact ⟨n, cause, hbefore, hfails, hwhy, hwhere, (Except.error.inj (Option.some.inj hend)).symm,
    hsame ▸ hwrites.trans hsinks⟩

/-! ## What the failure of a render tells -/

/-- A failure of a view for which something goes wrong is not nested any further. -/
theorem WhyFails.innermost (h : s.WhyFails cause) {e : ViewError}
    (he : cause.unwrapped = .view e) : e.innermost = e := by
  cases h with
  | plain hplain => exact absurd he ((RaisedError.isPlain_iff cause).1 hplain e)
  | unloaded _ _ hfailure =>
    cases he
    cases e <;> first | rfl | cases hfailure
  | tooDeep | dropped =>
    cases he
    rfl
  | setUp _ hown =>
    obtain ⟨hplain⟩ := hown
    cases he
    exact ViewError.innermost_of_isOriginal ((RaisedError.isPlain_iff _).1 hplain)

/-- What the failure of a render tells when something has gone wrong in the step between two states:
    it names the views that were active then, one inside the other, and ends with what has gone
    wrong. -/
structure NamesChain (uri : String) (s t : RenderState) (cause : RaisedError) (error : ViewError) :
    Prop where
  fails : t.Fails cause
  why : s.WhyFails cause
  outermost : ∃ c, error = .execution uri (.raised c)
  chain : IsChain cause (activeUris t) (.view error)
  /-- The outermost of them is the one that has been asked for, if it is not what has failed. -/
  active : (∃ uris, activeUris t = uri :: uris) ∨ activeUris t = [] ∧ IsOwnFailure uri cause
  /-- The innermost failure is that of the innermost view if code has raised an error. -/
  raised : cause.IsPlain → ∃ uris last c, activeUris t = uris ++ [last]
    ∧ error.innermost = .execution last (.raised c) ∧ c.unwrapped = cause.unwrapped
  /-- Otherwise it is that of the view that has failed. -/
  failed : ∀ e, cause.unwrapped = .view e → error.innermost = e

/-- The views of the renders on a stack are those of the functions of the engine. -/
theorem isChain_activeUris (s : RenderState) (cause : RaisedError) :
    IsChain cause (activeUris s) ((hostsOf s.stack).foldl (Pending.passOn s.world) cause) := by
  have hstart : IsChain cause [] cause := rfl
  have h : IsChain cause (activeUris s ++ []) _ := isChain_foldl hstart (hostsOf s.stack)
  rwa [List.append_nil] at h

theorem exists_activeUris {r : Request} (h : RestsOn r s.stack) :
    ∃ uris, activeUris s = Render.uriOf s.world r.view :: uris := by
  obtain ⟨p, hp, hrests⟩ := h
  obtain ⟨K, hK⟩ := List.getLast?_eq_some_iff.1 hrests.last
  have hactive : activeOn s.stack = activeOn K ++ [r] := by
    rw [hK, activeOn, hostsOf, List.filterMap_append, List.filterMap_append]
    simp only [List.filterMap_cons, List.filterMap_nil, show p.request? = some r from hp]
    rfl
  exact ⟨_, by rw [activeUris, hactive, List.map_append, List.reverse_append]; rfl⟩

/-- The failure that comes out in the end names the chain. -/
theorem namesChain_of_fails {t : RenderState} {r : Request} {uri : String} (hfails : t.Fails cause)
    (hwhy : s.WhyFails cause) (huri : Render.uriOf t.world r.view = uri)
    (hwhere : RestsOn r t.stack ∨ t.stack = [] ∧ IsOwnFailure uri cause) :
    NamesChain uri s t cause
      (World.viewErrorOf ((hostsOf t.stack).foldl (Pending.passOn t.world) cause)) := by
  have hchain := isChain_activeUris t cause
  generalize (hostsOf t.stack).foldl (Pending.passOn t.world) cause = final at hchain ⊢
  have hactive : (∃ uris, activeUris t = uri :: uris)
      ∨ activeUris t = [] ∧ IsOwnFailure uri cause := by
    refine hwhere.imp (fun h => huri ▸ exists_activeUris h) fun ⟨hs, hown⟩ => ⟨?_, hown⟩
    rw [activeUris, hs]
    rfl
  obtain ⟨c, hc⟩ : ∃ c, final.unwrapped = .view (.execution uri (.raised c)) := by
    obtain ⟨uris, huris⟩ | ⟨hnone, ⟨hplain⟩⟩ := hactive
    · rw [huris] at hchain
      obtain ⟨c, hc, -⟩ := hchain
      exact ⟨c, hc⟩
    · rw [hnone] at hchain
      exact ⟨_, hchain⟩
  have herror : World.viewErrorOf final = .execution uri (.raised c) := by
    rw [World.viewErrorOf, hc]
  rw [herror]
  replace hchain : IsChain cause (activeUris t) (.view (.execution uri (.raised c))) :=
    hchain.congr hc.symm
  refine ⟨hfails, hwhy, ⟨c, rfl⟩, hchain, hactive, fun hplain => ?_, fun e he => ?_⟩
  · obtain ⟨uris, huris⟩ | ⟨-, ⟨_⟩⟩ := hactive
    · have hne : activeUris t ≠ [] := huris ▸ List.cons_ne_nil uri uris
      obtain ⟨before, last, hlast⟩ : ∃ before last, activeUris t = before ++ [last] :=
        ⟨_, _, (List.dropLast_append_getLast hne).symm⟩
      rw [hlast] at hchain
      obtain ⟨c', hnested, hc'⟩ := hchain.innermost_of_isPlain hplain
      exact ⟨before, last, c', hlast, Option.some.inj hnested, hc'⟩
    · cases hplain
  · rw [← hwhy.innermost he]
    exact Option.some.inj (hchain.innermost_of_view he)

end RenderState

theorem StartsCode.restsOn {s : RenderState} {r : Request} {context : Nat}
    (h : StartsCode r context [] s) :
    RenderState.RestsOn r s.stack ∧ s.control.isFailing = false := by
  have hrests {p : Pending} (hs : s.stack = [.host p]) (hp : p.IsOf r) :
      RenderState.RestsOn r s.stack := ⟨p, hp, by rw [hs]; exact ⟨rfl, by simp⟩⟩
  cases h with
  | runs _ hs hc | compiles hs hc => exact ⟨hrests hs rfl, by rw [hc]; rfl⟩

namespace World

variable {w w' : World} {engine : Nat} {e : Engine}

/-- A view has its URI at any time of a render. -/
theorem Settled.uriOf_rendering (hw : w.Settled) (he : w.engines[engine]? = some e) {view : Nat}
    {v : View} (hv : w.views[view]? = some v) (sink : Nat) (attributes : List (String × Json))
    (children : Option String) (n : Nat) :
    Render.uriOf ((w.rendering engine view sink attributes children).stepMany Render.host n).world
      view = v.uri := by
  obtain ⟨-, hviews, -⟩ := w.importAttributes_same (w.runtimeOf engine) attributes
  have hstart : Stage.Keeps view v ((w.given engine attributes).stageAt [] (w.runtimeOf engine)) :=
    ⟨v, (congrArg (·[view]?) hviews).trans hv, v.sameBut_refl⟩
  obtain ⟨v', hv', hsame⟩ := hw.keeps_rendering he view sink attributes children [] hstart
    (fun ha => ha.keeps) n fun _ _ _ _ ha => ha.keeps
  dsimp only at hv'
  rw [Render.uriOf, hv']
  exact hsame.uri

/-- Tell whether code catches no error and raises none but a text next, and gives a call attributes
    with names. -/
def isCandid (s : RenderState) : Bool :=
  (match s.control, s.stack with
    | .raised _, f :: _ => !f.catches
    | _, _ => true)
  && (s.control.isFailing || match (s.step Render.host).control with
    | .raised (.text _) => true
    | .raised _ => false
    | _ => true)
  && s.viewCall?.all fun c => c.given.all fun ref =>
    (s.heap.table ref).toList.all fun e => (Bridge.attributeName? e.1).isSome

theorem isCandid_of_true {s : RenderState} (h : isCandid s = true) : s.IsCandid := by
  rw [isCandid, Bool.and_eq_true, Bool.and_eq_true] at h
  obtain ⟨⟨hcatches, htext⟩, hnamed⟩ := h
  refine ⟨fun hc hs => ?_, fun hquiet error hc => ?_, fun {c ref} hcall hgiven => ?_⟩
  · rw [hc, hs] at hcatches
    simpa using hcatches
  · rw [hquiet, hc] at htext
    cases error with
    | text bytes => exact ⟨bytes, rfl⟩
    | _ => cases htext
  · rw [hcall, Option.all_some, hgiven, Option.all_some] at hnamed
    exact List.all_eq_true.1 hnamed

/-- Tell whether the text of an error that comes to the engine is what it is. -/
def leavesTexts (s : RenderState) : Bool :=
  match s.control, s.stack with
  | .raised (.text bytes), .host _ :: _ => (s.heap.metafield (.text bytes) "__tostring").isNil
  | _, _ => true

theorem leavesTexts_of_true {s : RenderState} (h : leavesTexts s = true) : s.LeavesTexts := by
  intro bytes p K hc hs
  rw [leavesTexts, hc, hs] at h
  exact Script.Table.isNil_iff.1 h

/-- Tell whether the code of a view starts that is asked for from outside with nothing given. -/
def startsPage (engine view : Nat) (s : RenderState) : Bool :=
  match s.stack, s.control with
  | [.host (.running r context)], .invoke _ [.table ref] none =>
    ref == context && r.engine == engine && r.view == view && r.sink == 0 && r.depth == 0
      && r.attributes.isEmpty && r.children == none
  | _, _ => false

theorem exists_startsCode_page {view : Nat} {s : RenderState}
    (h : startsPage engine view s = true) :
    ∃ context, StartsCode (w.requestOf engine view 0 [] none) context [] s := by
  unfold startsPage at h
  split at h
  · next r context f ref hs hc =>
    simp only [Bool.and_eq_true, beq_iff_eq, List.isEmpty_iff] at h
    obtain ⟨⟨⟨⟨⟨⟨rfl, hengine⟩, hview⟩, hsink⟩, hdepth⟩, hattributes⟩, hchildren⟩ := h
    obtain ⟨engine', view', sink, depth, attributes, children⟩ := r
    cases hengine
    cases hview
    cases hsink
    cases hdepth
    cases hattributes
    cases hchildren
    have hcall : s.heap.callOf 0 (.compiled f) ref = .ok (f, [.table ref], s.heap) := rfl
    exact ⟨ref, .runs hcall hs hc⟩
  · cases h

/-- Tell whether the code of a view starts after some steps, and the render comes to a failure then;
    what is so of every state, and of the failure and the end. -/
def failsPage (engine view start steps : Nat) (p : RenderState → Bool)
    (q : ViewError → RenderState → Bool) (w : World) : Bool :=
  let s := w.rendering engine view 0 [] none
  w.engines[engine]?.isSome && startsPage engine view (s.stepMany Render.host start)
    && holdsThroughout p (fun t => match t.outcome? with
      | some (.error cause) => q (viewErrorOf cause) t
      | _ => false) steps s

theorem exists_of_failsPage {view start steps : Nat} {p : RenderState → Bool}
    {q : ViewError → RenderState → Bool} (h : w.failsPage engine view start steps p q = true) :
    let s (n : Nat) : RenderState := (w.rendering engine view 0 [] none).stepMany Render.host n
    ∃ e context error w', w.engines[engine]? = some e
      ∧ StartsCode (w.requestOf engine view 0 [] none) context [] (s start)
      ∧ (∀ n, p (s n) = true)
      ∧ w.render steps engine view 0 [] none = (some (.error error), w')
      ∧ q error (s steps) = true ∧ w'.sinks = (s steps).world.sinks := by
  intro s
  simp only [failsPage, Bool.and_eq_true] at h
  obtain ⟨⟨hengine, hstarts⟩, hruns⟩ := h
  obtain ⟨e, he⟩ := Option.isSome_iff_exists.1 hengine
  obtain ⟨context, hstarts⟩ := exists_startsCode_page (w := w) hstarts
  obtain ⟨hp, ⟨o, ho⟩, hq⟩ := of_holdsThroughout hruns
  have hrender := render_eq he steps view 0 [] none
  dsimp only at hrender
  rw [ho] at hrender hq
  cases o with
  | ok vs => cases hq
  | error cause => exact ⟨e, context, _, _, he, hstarts, hp, hrender, hq, rfl⟩

/-- A page with a card that calls a view that there is none of. -/
def missingViews : ViewStore :=
  [("/card.xview",
      "<x:view xmlns:x=\"xview\" xmlns:u=\"/\"><p/><u:missing/></x:view>".toUTF8),
   ("/page.xview", "<x:view xmlns:x=\"xview\" xmlns:u=\"/\"><u:card/></x:view>".toUTF8)]

/-- A page that has something written when its error is turned to a text. -/
def lateViews : ViewStore :=
  [("/page.xview",
      ("<x:view xmlns:x=\"xview\"><p/><x:script>local told  "
        ++ "getmetatable('').__tostring = function(s) if not told then told = true  "
        ++ "xview:print('late') end return s end  error('stop')</x:script></x:view>").toUTF8)]

/-- A page that has a view that there is none of called when the context of a card is made. -/
def setUpViews : ViewStore :=
  [("/card.xview", "<p/>".toUTF8),
   ("/page.xview",
      ("<x:view xmlns:x=\"xview\" xmlns:u=\"/\"><x:script>local bridge, set = xview, setmetatable  "
        ++ "_G.setmetatable = function(...) bridge:execute('/', 'missing') return set(...) end"
        ++ "</x:script><u:card/></x:view>").toUTF8)]

/-- A page that calls a view through a bridge that another view has left. -/
def heldViews : ViewStore :=
  [("/keep.xview",
      "<x:view xmlns:x=\"xview\"><x:script>_G.held = xview</x:script></x:view>".toUTF8),
   ("/page.xview",
      ("<x:view xmlns:x=\"xview\"><x:script>held:execute('/', 'keep')</x:script>"
        ++ "</x:view>").toUTF8)]

/-- The world where the engine that the bridge is of has been let go. -/
def heldWorld : World :=
  let (_, registry, w) := (withViews heldViews).createEngine 100 [] Expansion.memorySetup
  let w := (w.createEngine 100 registry Expansion.memorySetup).2.2
  match w.load 0 "/keep.xview" with
  | .error _ => w
  | .ok (keep, w) =>
    let w := ((w.render 250 0 keep 0 [] none).2).release 0
    match w.load 1 "/page.xview" with
    | .ok (_, w) => w
    | .error _ => w

/-- Tell whether no code but that of a view runs. -/
def runsOnly (view : Nat) (s : RenderState) : Bool :=
  (hostsOf s.stack).all fun p =>
    match p with
    | .running r _ => r.view == view
    | _ => true

theorem runsOnly_of_true {view : Nat} {s : RenderState} (h : runsOnly view s = true) (r : Request)
    (c : Nat) (hmem : .running r c ∈ hostsOf s.stack) : r.view = view :=
  beq_iff_eq.1 (List.all_eq_true.1 h _ hmem)

/-- Tell whether an error is on its way when a text has been written. -/
def hasFailedAfter (text : String) (s : RenderState) : Bool :=
  s.control.isFailing && s.world.sinks.map Sink.bytes == #[utf8 text]

/-- A page that has failed after writing a text may have written another in the end. -/
theorem exists_written {start failing steps : Nat} {before after : String}
    (h : w.failsPage 0 0 start steps isCandid
        (fun _ s => s.world.sinks.map Sink.bytes == #[utf8 after]) = true
      ∧ hasFailedAfter before
        ((w.rendering 0 0 0 [] none).stepMany Render.host failing) = true) :
    let s (n : Nat) : RenderState := (w.rendering 0 0 0 [] none).stepMany Render.host n
    ∃ context error w', StartsCode (w.requestOf 0 0 0 [] none) context [] (s start)
      ∧ (∀ n, RenderState.IsCandid (s n)) ∧ (s failing).control.isFailing = true
      ∧ (s failing).world.sinks.map Sink.bytes = #[utf8 before]
      ∧ w.render steps 0 0 0 [] none = (some (.error error), w')
      ∧ w'.sinks.map Sink.bytes = #[utf8 after] := by
  obtain ⟨hfails, hbefore⟩ := h
  obtain ⟨e, context, error, w', -, hstarts, hholds, hend, htells, hlast⟩ :=
    exists_of_failsPage hfails
  rw [← hlast, beq_iff_eq] at htells
  rw [hasFailedAfter, Bool.and_eq_true, beq_iff_eq] at hbefore
  exact ⟨context, error, w', hstarts, fun n => isCandid_of_true (hholds n), hbefore.1, hbefore.2,
    hend, htells⟩

/-- A page may fail with some failure. -/
theorem exists_failure {view start steps only : Nat} {error : ViewError}
    (hfails : w.failsPage engine view start steps
      (fun s => isCandid s && leavesTexts s && runsOnly only s) (fun e _ => e == error) = true) :
    let s (n : Nat) : RenderState := (w.rendering engine view 0 [] none).stepMany Render.host n
    ∃ context w', StartsCode (w.requestOf engine view 0 [] none) context [] (s start)
      ∧ (∀ n, RenderState.IsCandid (s n) ∧ RenderState.LeavesTexts (s n)
        ∧ ∀ r c, .running r c ∈ hostsOf (s n).stack → r.view = only)
      ∧ w.render steps engine view 0 [] none = (some (.error error), w') := by
  obtain ⟨e, context, error', w', -, hstarts, hholds, hend, htells, -⟩ :=
    exists_of_failsPage hfails
  cases beq_iff_eq.1 htells
  refine ⟨context, w', hstarts, fun n => ?_, hend⟩
  have hn := hholds n
  rw [Bool.and_eq_true, Bool.and_eq_true] at hn
  exact ⟨isCandid_of_true hn.1.1, leavesTexts_of_true hn.1.2, runsOnly_of_true hn.2⟩

end World

end ScriptedViews

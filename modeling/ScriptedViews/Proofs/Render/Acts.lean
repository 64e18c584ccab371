import ScriptedViews.Proofs.Render.Kept

set_option autoImplicit false

/-! # What renders come to

A render passes its checks, is given a context, may have the code of its view compiled, runs, and
comes to its end. Meanwhile code may load views, whose renders then do the same above it. Every turn
of the engine consists of such acts, or of none. What happens to views meanwhile is written down. -/

namespace ScriptedViews

open Script (Bytes Value Frame State hostPart utf8)
open Relation (ReflTransGen)

/-- What happens to the views of engines. -/
inductive ViewEvent where
  /-- A view comes from a URI, from where there are the given sources. -/
  | loaded (engine : Nat) (uri : String) (view : Nat) (sources : Sources)
  /-- The code of a view has been compiled for an engine. -/
  | compiled (engine view : Nat)
  /-- An engine forgets the views that it has kept. -/
  | cleared (engine : Nat)

/-- What has happened, the last of it first, the renders that have passed their checks, the
    innermost first, and the world. -/
structure Stage where
  log : List ViewEvent
  renders : List Pending
  world : World

/-- What is known of acts: which renders may pass their checks above which others, and among which
    renders code may have been compiled. -/
structure Occasion where
  enters : Request → List Pending → Prop
  compiles : List Pending → Prop

/-- What renders do to a stage. -/
inductive Act (o : Occasion) : Stage → Stage → Prop
  /-- A view is loaded. -/
  | loaded {L : List ViewEvent} {R : List Pending} {w w' : World} {i view : Nat} {uri : String}
      (hl : w.load i uri = .ok (view, w')) :
      Act o ⟨L, R, w⟩ ⟨.loaded i uri view w.sources :: L, R, w'⟩
  /-- A render passes its checks. -/
  | entered {L : List ViewEvent} {R : List Pending} {w : World} {r : Request} {e : Engine}
      {v : View} (he : w.engines[r.engine]? = some e) (hv : w.views[r.view]? = some v)
      (hengine : v.engine = r.engine) (hdepth : r.depth ≤ e.config.maxNestingDepth)
      (ho : o.enters r R) : Act o ⟨L, R, w⟩ ⟨L, .acquiring r :: R, w⟩
  /-- It takes an idle context. -/
  | taken {L : List ViewEvent} {R : List Pending} {w : World} {r : Request} {c : Nat}
      (pool : Pool Nat) : Act o ⟨L, .acquiring r :: R, w⟩
        ⟨L, .running r c :: R, w.modifyEngine r.engine fun e => { e with pool }⟩
  /-- It has a context made. -/
  | made {L : List ViewEvent} {R : List Pending} {w : World} {r : Request} {c : Nat} :
      Act o ⟨L, .acquiring r :: R, w⟩ ⟨L, .running r c :: R, w⟩
  /-- It gets no context. -/
  | abandoned {L : List ViewEvent} {R : List Pending} {w : World} {r : Request} :
      Act o ⟨L, .acquiring r :: R, w⟩ ⟨L, R, w⟩
  /-- The code of its view, which has not been prepared, starts being compiled. -/
  | named {L : List ViewEvent} {R : List Pending} {w : World} {r : Request} {c : Nat} {e : Engine}
      {v : View} (he : w.engines[r.engine]? = some e) (hcompile : e.config.compile = true)
      (hv : w.views[r.view]? = some v) (hnone : v.executable = none) :
      Act o ⟨L, .running r c :: R, w⟩
        ⟨L, .preparing r c (w.sourceName? (w.runtimeOf r.engine)) :: R,
          w.nameSource (w.runtimeOf r.engine) (some v.uri)⟩
  /-- It cannot be compiled. -/
  | failed {L : List ViewEvent} {R : List Pending} {w : World} {r : Request} {c : Nat}
      {previous : Option String} : Act o ⟨L, .preparing r c previous :: R, w⟩
        ⟨L, .running r c :: R, w.nameSource (w.runtimeOf r.engine) previous⟩
  /-- It has been compiled. -/
  | compiled {L : List ViewEvent} {R : List Pending} {w : World} {r : Request} {c : Nat}
      {previous : Option String} {f : Value}
      (ho : o.compiles (.preparing r c previous :: R)) :
      Act o ⟨L, .preparing r c previous :: R, w⟩
        ⟨.compiled r.engine r.view :: L, .running r c :: R,
          ((w.nameSource (w.runtimeOf r.engine) previous).modifyRuntime (w.runtimeOf r.engine)
            fun rt => { rt with compilations := rt.compilations + 1 }).modifyView r.view
              fun v => v.prepared (.compiled f)⟩
  /-- The code of its view is to be read each time. -/
  | published {L : List ViewEvent} {R : List Pending} {w : World} {r : Request} {c : Nat}
      {e : Engine} {x : Script.Executable} (he : w.engines[r.engine]? = some e)
      (hcompile : e.config.compile = false) : Act o ⟨L, .running r c :: R, w⟩
        ⟨L, .running r c :: R, w.modifyView r.view fun v => v.prepared x⟩
  /-- Something is written. -/
  | wrote {L : List ViewEvent} {R : List Pending} {w : World} (sinks : Array Sink) :
      Act o ⟨L, R, w⟩ ⟨L, R, { w with sinks }⟩
  /-- A render comes to its end. -/
  | left {L : List ViewEvent} {R : List Pending} {w : World} {r : Request} {c : Nat} :
      Act o ⟨L, .running r c :: R, w⟩
        ⟨L, R, w.modifyEngine r.engine fun e => { e with pool := e.pool.keep c }⟩

/-- Acts, one after the other. -/
abbrev Acts (o : Occasion) : Stage → Stage → Prop :=
  ReflTransGen (Act o)

/-- What every act keeps holds after any number of them. -/
theorem Acts.keeps {o : Occasion} {I : Stage → Prop}
    (hact : ∀ {s s' : Stage}, Act o s s' → I s → I s') {s s' : Stage} (h : Acts o s s') (hs : I s) :
    I s' := by
  induction h with
  | refl => exact hs
  | tail _ ha ih => exact hact ha ih

/-! ## What acts leave as it is -/

/-- Whether a view is the same one but for its code, which may have been prepared meanwhile. -/
structure View.SameBut (v v' : View) : Prop where
  same : { v' with executable := v.executable } = v
  keeps : ∀ x, v.executable = some x → v'.executable = some x

namespace View

theorem sameBut_refl (v : View) : v.SameBut v :=
  ⟨rfl, fun _ => id⟩

theorem sameBut_prepared (v : View) (x : Script.Executable) : v.SameBut (v.prepared x) := by
  obtain ⟨uri, defaults, root, namespaces, source, engine, executable⟩ := v
  refine ⟨rfl, fun y hy => ?_⟩
  cases hy
  rfl

variable {v v' v'' : View}

theorem SameBut.trans (h : v.SameBut v') (h' : v'.SameBut v'') : v.SameBut v'' := by
  refine ⟨?_, fun x hx => h'.keeps x (h.keeps x hx)⟩
  conv_rhs => rw [← h.same, ← h'.same]

theorem SameBut.engine (h : v.SameBut v') : v'.engine = v.engine :=
  (congrArg View.engine h.same :)

theorem SameBut.uri (h : v.SameBut v') : v'.uri = v.uri :=
  (congrArg View.uri h.same :)

end View

namespace World

/-- An engine that keeps other views or other contexts is the same one but for them. -/
theorem sameBut_modifyEngine (w : World) (j : Nat) {f : Engine → Engine}
    (hf : ∀ e : Engine, e.SameBut (f e))
    (i : Nat) (e : Engine) (he : w.engines[i]? = some e) :
    ∃ e', (w.modifyEngine j f).engines[i]? = some e' ∧ e.SameBut e' := by
  rw [getElem?_modifyEngine, he]
  split
  · exact ⟨_, rfl, hf e⟩
  · exact ⟨e, rfl, e.sameBut_refl⟩

end World

section Same

variable {o : Occasion} {s s' : Stage}

/-- Engines stay the same but for what they keep. -/
theorem Act.engines (ha : Act o s s') (i : Nat) (e : Engine)
    (he : s.world.engines[i]? = some e) : ∃ e', s'.world.engines[i]? = some e' ∧ e.SameBut e' := by
  cases ha with
  | loaded hl =>
    obtain ⟨e', he', hsame, -⟩ := (World.engines_load hl).2 i e he
    exact ⟨e', he', hsame⟩
  | taken | left =>
    exact World.sameBut_modifyEngine _ _ (by intro _; exact ⟨rfl, rfl, rfl, rfl, rfl⟩) i e he
  | _ => exact ⟨e, he, e.sameBut_refl⟩

/-- Views stay the same but for their code. -/
theorem Act.views (ha : Act o s s') (j : Nat) (v : View) (hv : s.world.views[j]? = some v) :
    ∃ v', s'.world.views[j]? = some v' ∧ v.SameBut v' := by
  have hprepared (w : World) (view : Nat) (x : Script.Executable) (hv : w.views[j]? = some v) :
      ∃ v', (w.modifyView view fun v => v.prepared x).views[j]? = some v' ∧ v.SameBut v' := by
    rw [World.HasOwnViews.getElem?_modifyView, hv]
    split
    · exact ⟨_, rfl, v.sameBut_prepared x⟩
    · exact ⟨v, rfl, v.sameBut_refl⟩
  cases ha with
  | loaded hl => exact ⟨v, World.views_load hl j v hv, v.sameBut_refl⟩
  | compiled | published => exact hprepared _ _ _ hv
  | _ => exact ⟨v, hv, v.sameBut_refl⟩

/-- Whether a view is one that there was, with the code that it had. -/
def Stage.Keeps (view : Nat) (v : View) (s : Stage) : Prop :=
  ∃ v', s.world.views[view]? = some v' ∧ v.SameBut v'

theorem Act.keeps (ha : Act o s s') {view : Nat} {v : View} (h : s.Keeps view v) :
    s'.Keeps view v := by
  obtain ⟨v', hv', hsame⟩ := h
  obtain ⟨v'', hv'', hsame'⟩ := ha.views view v' hv'
  exact ⟨v'', hv'', hsame.trans hsame'⟩

/-- The renders of a stage, as they were asked for. -/
def Stage.active (s : Stage) : List Request :=
  s.renders.filterMap Pending.request?

/-- An act leaves the renders that there are, ends the innermost of them, or has one pass its
    checks. -/
theorem Act.active (ha : Act o s s') : s'.active = s.active ∨ (∃ r, s.active = r :: s'.active)
    ∨ ∃ r e v, s'.active = r :: s.active ∧ o.enters r s.renders
      ∧ s'.world.engines[r.engine]? = some e ∧ s'.world.views[r.view]? = some v
      ∧ v.engine = r.engine ∧ r.depth ≤ e.config.maxNestingDepth := by
  cases ha with
  | entered he hv hengine hdepth ho =>
    exact .inr (.inr ⟨_, _, _, rfl, ho, he, hv, hengine, hdepth⟩)
  | abandoned | left => exact .inr (.inl ⟨_, rfl⟩)
  | _ => exact .inl rfl

end Same

/-! ## Renders on a stack -/

/-- Whether what is kept is that of a render that has passed its checks. -/
def Pending.isRender (p : Pending) : Bool :=
  p.request?.isSome

/-- The renders on a stack that have passed their checks, the innermost first. -/
def rendersOn (K : List (Frame Pending)) : List Pending :=
  (hostsOf K).filter Pending.isRender

/-- What is asked for by the renders on a stack, the innermost first. -/
def activeOn (K : List (Frame Pending)) : List Request :=
  (hostsOf K).filterMap Pending.request?

/-- The render that a turn leaves. -/
def rendersOf (t : EngineTurn) : List Pending :=
  (pendingOf t).toList.filter Pending.isRender

theorem rendersOn_congr {K K' : List (Frame Pending)} (h : hostPart K = hostPart K') :
    rendersOn K = rendersOn K' := by
  rw [rendersOn, rendersOn, hostsOf_congr h]

theorem rendersOn_host (p : Pending) (K : List (Frame Pending)) :
    rendersOn (.host p :: K) = [p].filter Pending.isRender ++ rendersOn K := by
  rw [rendersOn, hostsOf_host, ← List.singleton_append, List.filter_append]
  rfl

theorem filterMap_request?_rendersOn (K : List (Frame Pending)) :
    (rendersOn K).filterMap Pending.request? = activeOn K := by
  rw [rendersOn, activeOn, List.filterMap_filter]
  refine List.filterMap_congr fun p _ => ?_
  unfold Pending.isRender
  cases p.request? <;> rfl

/-! ## Turns -/

/-- What happens when an engine, which has to be held for that, is asked by code for a view. -/
def loadedEvent? (w : World) (engine : Nat) (uri : String) : Option ViewEvent :=
  if !(w.engines[engine]?.any Engine.isHeld) then none
  else match w.load engine uri with
    | .error _ => none
    | .ok (view, _) => some (.loaded engine uri view w.sources)

/-- What happens when code has been called that compiles a view's code. -/
def compiledEvent? (r : Request) (vs : List Value) : Option ViewEvent :=
  if (Script.firstValue vs).isFunction then some (.compiled r.engine r.view) else none

/-- What happens when a function of the engine goes on. -/
def Pending.resumedEvent? (p : Pending) (outcome : Except RaisedError (List Value)) :
    Option ViewEvent :=
  match p, outcome with
  | .preparing r _ _, .ok vs => compiledEvent? r vs
  | _, _ => none

/-- The method that calls a view is the one with its name. -/
theorem Bridge.eq_of_lookup_execute {name : Bytes} (h : methods.lookup name = some .execute) :
    name = utf8 "execute" := by
  obtain ⟨l₁, l₂, hl, -⟩ := List.lookup_eq_some_iff.1 h
  have hmem : (name, Method.execute) ∈ methods := by
    rw [hl]
    simp
  simpa [methods] using hmem

/-- Whether a turn comes from a stage by acts, and leaves its own render, if it has one, above
    others. -/
def Leads (o : Occasion) (s : Stage) (L : List ViewEvent) (R : List Pending) (t : EngineTurn) :
    Prop :=
  Acts o s ⟨L, rendersOf t ++ R, t.world⟩

namespace Leads

variable {o : Occasion} {s s' : Stage} {L L' : List ViewEvent} {R : List Pending} {h : BridgeHeap}
  {w : World} {t : EngineTurn} {levels : Nat} {r : Request} {c : Nat}

theorem of_act (ha : Act o s s') (ht : Leads o s' L R t) : Leads o s L R t :=
  .head ha ht

theorem answer (vs : List Value) : Leads o ⟨L, R, w⟩ L R (Render.answer h w vs) :=
  .refl

theorem failWith (cause : RaisedError) : Leads o ⟨L, R, w⟩ L R (Render.failWith h w cause) :=
  .refl

theorem failView (e : ViewError) : Leads o ⟨L, R, w⟩ L R (Render.failView h w e) :=
  .refl

theorem finish (failure : Option RaisedError) :
    Leads o ⟨L, .running r c :: R, w⟩ L R (Render.finish r c h w failure) := by
  cases failure with
  | none => exact .of_act .left (answer _)
  | some cause => exact .of_act .left (failView _)

theorem execute (x : Script.Executable) :
    Leads o ⟨L, .running r c :: R, w⟩ L R (Render.execute levels r c x h w) := by
  unfold Render.execute
  split
  · exact finish _
  · exact .refl

/-- Code that is published is run then. -/
theorem executePrepared {x : Script.Executable}
    (ha : Act o s ⟨L, .running r c :: R, w.modifyView r.view fun v => v.prepared x⟩) :
    Leads o s L R (Render.executePrepared levels r c x h w) :=
  .of_act ha (execute (w := w.modifyView r.view fun v => v.prepared x) _)

section Views

variable {e : Engine} {v : View} (he : w.engines[r.engine]? = some e)
  (hv : w.views[r.view]? = some v)

include he hv

theorem compile (hcompile : e.config.compile = true) (hnone : v.executable = none) :
    Leads o ⟨L, .running r c :: R, w⟩ L R (Render.compile levels r c v h w) := by
  refine .of_act (.named he hcompile hv hnone) ?_
  unfold Render.compile
  dsimp only
  split
  · exact .of_act .failed (finish _)
  · exact .refl

theorem prepare : Leads o ⟨L, .running r c :: R, w⟩ L R
    (Render.prepare levels r c e.config.compile v h w) := by
  unfold Render.prepare
  split
  · exact execute _
  · next hnone =>
    split
    · next hcompile => exact compile he hv hcompile hnone
    · next hcompile =>
      exact executePrepared (.published he (Bool.not_eq_true _ ▸ hcompile))

theorem runIn : Leads o ⟨L, .running r c :: R, w⟩ L R
    (Render.runIn levels r c e.config.compile v h w) :=
  prepare he hv

theorem acquire : Leads o ⟨L, .acquiring r :: R, w⟩ L R (Render.acquire levels r e v h w) := by
  unfold Render.acquire
  split
  · next c pool hp =>
    refine .of_act (.taken (c := c) pool) ?_
    have he' : (w.modifyEngine r.engine fun e => { e with pool }).engines[r.engine]?
        = some { e with pool } := by
      rw [World.getElem?_modifyEngine, if_pos rfl, he]
      rfl
    exact runIn (e := { e with pool }) he' hv
  · split
    · exact .of_act .abandoned (failView _)
    · exact .refl

end Views

theorem start (ho : o.enters r R) : Leads o ⟨L, R, w⟩ L R (Render.start levels r h w) := by
  unfold Render.start
  split
  · next e v he hv =>
    split
    · exact failView _
    · next hengine =>
      split
      · exact failView _
      · next hdepth =>
        exact .of_act (.entered he hv (Classical.not_not.1 hengine) (Nat.not_lt.1 hdepth) ho)
          (acquire he hv)
  · exact failView _

theorem acquired (vs : List Value) :
    Leads o ⟨L, .acquiring r :: R, w⟩ L R (Render.acquired levels r vs h w) := by
  unfold Render.acquired
  split
  · next c e v hvs he hv => exact .of_act (.made (c := c)) (runIn he hv)
  · exact .of_act .abandoned (failView _)

theorem compiled (vs : List Value) {previous : Option String}
    (ho : o.compiles (.preparing r c previous :: R)) :
    Leads o ⟨L, .preparing r c previous :: R, w⟩ ((compiledEvent? r vs).toList ++ L) R
      (Render.compiled levels r c vs h (w.nameSource (w.runtimeOf r.engine) previous)) := by
  unfold Render.compiled compiledEvent?
  dsimp only
  split
  · exact executePrepared (.compiled ho)
  · exact .of_act .failed (finish _)

/-! ## Methods -/

theorem write (sink : Nat) (vs : List Value) :
    Leads o ⟨L, R, w⟩ L R (Render.write sink vs h w) := by
  unfold Render.write
  split
  · exact failWith _
  · split
    · exact .of_act (.wrote _) (answer _)
    · exact failWith _

theorem printWith (sink : Nat) (v : Value) (vs : List Value) :
    Leads o ⟨L, R, w⟩ L R (Render.printWith sink v vs h w) := by
  unfold Render.printWith
  dsimp only
  split <;> exact .refl

theorem print (b : Bridge) (v : Value) : Leads o ⟨L, R, w⟩ L R (Render.print b v h w) := by
  unfold Render.print
  split <;> exact .refl

theorem callView {b : Bridge} {base tag : String} {attributes : Option Nat}
    {children : Option String}
    (ho : ∀ (r : Request) (w' : World), r.engine = b.engine → r.depth = b.depth + 1 →
      w.load b.engine (Bridge.target base tag) = .ok (r.view, w') → o.enters r R) :
    Leads o ⟨L, R, w⟩ ((loadedEvent? w b.engine (Bridge.target base tag)).toList ++ L) R
      (Render.callView levels b base tag attributes children h w) := by
  unfold Render.callView loadedEvent?
  by_cases hheld : (!(w.engines[b.engine]?.any Engine.isHeld)) = true
  · rw [if_pos hheld, if_pos hheld]
    exact failView _
  · rw [if_neg hheld, if_neg hheld]
    cases hl : w.load b.engine (Bridge.target base tag) with
    | error e => exact failView _
    | ok loaded =>
      obtain ⟨view, w'⟩ := loaded
      refine .of_act (.loaded hl) ?_
      dsimp only
      split
      · exact failView _
      · next scope _ =>
        exact start (r := ⟨b.engine, view, b.sink, b.depth + 1, scope, children⟩)
          (ho _ w' rfl rfl hl)

theorem resume (p : Pending) (outcome : Except RaisedError (List Value))
    (ho : p.isRender = true → o.compiles (p :: R)) :
    Leads o ⟨L, [p].filter Pending.isRender ++ R, w⟩ ((p.resumedEvent? outcome).toList ++ L) R
      (Render.resume p outcome levels h w) := by
  unfold Render.resume
  split
  · exact answer _
  · exact failWith _
  · exact acquired _
  · exact .of_act .abandoned (failView _)
  · exact compiled _ (ho rfl)
  · exact .of_act .failed (finish _)
  · exact finish _
  · exact finish _
  · exact printWith _ _ _
  · exact write _ _
  · exact failWith _
  · exact failWith _

end Leads

end ScriptedViews

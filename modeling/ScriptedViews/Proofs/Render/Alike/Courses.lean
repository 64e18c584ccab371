import ScriptedViews.Proofs.Render.Alike.Answers
import ScriptedViews.Proofs.Render.Alike.Prepared

set_option autoImplicit false

/-! # Renders that take their course alike

How engines take contexts and give them back is the same however far their worlds may differ: it
needs no more than that their idle contexts stand for each other. So renders go alike from beginning
to end if the code of their views is prepared alike. -/

namespace ScriptedViews

open Script (Value Heap Matching State Frame ValuesAlike ExceptAlike utf8)
open Script.State (Follows)

variable {R : Matching} {W : WorldLikeness}
  {A : List (Frame Pending) → State Bridge World Pending → Prop}

/-- Whether two pools keep contexts that stand for each other, as many as each other. -/
structure Pool.Alike (R : Matching) (p p' : Pool Nat) : Prop where
  capacity : p.capacity = p'.capacity
  idle : List.Forall₂ R.table p.idle p'.idle

theorem Pool.Alike.keep {p p' : Pool Nat} (h : p.Alike R p') {c c' : Nat} (ht : R.table c c') :
    (p.keep c).Alike R (p'.keep c') := by
  simp only [Pool.keep, h.idle.length_eq, h.capacity]
  split
  · exact ⟨rfl, List.rel_append h.idle (.cons ht .nil)⟩
  · exact h

/-- Whether engines that are alike have pools that are alike, and stay so with others that are. -/
structure WorldLikeness.Pools (W : WorldLikeness) : Prop where
  views : ∀ {R w w'}, W.world R w w' → ∀ {i j : Nat}, R.hosted i j →
    ∃ v v', w.views[i]? = some v ∧ w'.views[j]? = some v' ∧ v.Agrees v'
  pools : ∀ {R w w'}, W.world R w w' → ∀ i : Nat,
    Option.Rel (fun e e' : Engine => e.pool.Alike R e'.pool) w.engines[i]? w'.engines[i]?
  withPool : ∀ {R w w'}, W.world R w w' → ∀ (i : Nat) (f f' : Pool Nat → Pool Nat),
    (∀ {p p' : Pool Nat}, p.Alike R p' → (f p).Alike R (f' p')) →
    W.world R (w.modifyEngine i fun e => { e with pool := f e.pool })
      (w'.modifyEngine i fun e => { e with pool := f' e.pool })

/-- Whether renders take their course alike: contexts may be in the making in both worlds, and code
    is prepared alike. -/
structure WorldLikeness.Courses (W : WorldLikeness)
    (asked : List (Frame Pending) → State Bridge World Pending → Prop) : Prop extends W.Pools where
  making : W.making
  prepare : ∀ {R s s' r r' c c' e e' v v' K}, State.Alike W.likeness R s s' → r.Alike R r' →
    R.table c c' → s.world.engines[r.engine]? = some e → s'.world.engines[r'.engine]? = some e' →
    s.world.views[r.view]? = some v → s'.world.views[r'.view]? = some v' →
    asked K (s.turn (Render.prepare s.level r c e.config.compile v s.heap s.world)) →
    Follows Render.host W.likeness
      (s.turn (Render.prepare s.level r c e.config.compile v s.heap s.world))
      (s'.turn (Render.prepare s'.level r' c' e'.config.compile v' s'.heap s'.world))

/-! ## Reading source -/

/-- Source is read or refused on both of two heaps. -/
theorem Script.Heap.Alike.readSource {L : Script.Likeness Bridge World Pending} {h h' : BridgeHeap}
    (hh : Heap.Alike L R h h') (levels : Nat) (name : String) (source : Script.Bytes) {v v' : Value}
    (hv : v.Alike R v') :
    ExceptAlike (fun p p' => ∃ S, R.Grows S ∧ p.1.Alike S p'.1 ∧ Heap.Alike L S p.2 p'.2)
      (h.readSource levels name source v) (h'.readSource levels name source v') := by
  have hread := hh.readChunk levels (chunkName name) source hv
  simp only [readSource_eq]
  split
  · exact .error _
  · generalize h.readChunk levels (chunkName name) source v = x at hread ⊢
    generalize h'.readChunk levels (chunkName name) source v' = x' at hread ⊢
    cases hread with
    | error e => exact .error _
    | ok hread => exact .ok hread

/-- Code that is read for a render runs alike, if renders whose code is refused end alike. -/
theorem turn_interpreted {s s' : State Bridge World Pending} {r r' : Request} {c c' : Nat}
    {K : List (Frame Pending)} (h : State.Alike W.likeness R s s') (hr : r.Alike R r')
    (ht : R.table c c') (name source : String)
    (hfinish : ∀ cause, A K (s.turn (Render.finish r c s.heap s.world (some cause))) →
      Follows Render.host W.likeness (s.turn (Render.finish r c s.heap s.world (some cause)))
        (s'.turn (Render.finish r' c' s'.heap s'.world (some cause))))
    (ha : A K
      (s.turn (Render.execute s.level r c (.interpreted name source) s.heap s.world))) :
    Follows Render.host W.likeness
      (s.turn (Render.execute s.level r c (.interpreted name source) s.heap s.world))
      (s'.turn (Render.execute s'.level r' c' (.interpreted name source) s'.heap s'.world)) := by
  have hread := h.heap.readSource s.level name (utf8 source) (.table ht)
  simp only [Render.execute, Heap.callOf] at ha
  simp only [Render.execute, Heap.callOf, ← h.level]
  generalize s.heap.readSource s.level name (utf8 source) (.table c) = x at hread ha ⊢
  generalize s'.heap.readSource s.level name (utf8 source) (.table c') = x' at hread ⊢
  cases hread with
  | error cause => exact hfinish cause ha
  | ok hread =>
    obtain ⟨S, hg, hf, hheap⟩ := hread
    exact turn_call (h.setHeap hg hheap) hf .nil (.running (hr.mono hg) (hg.table ht))

/-! ## Ends -/

/-- Renders end alike if what they leave is alike, and a failure of one is one of the other. -/
theorem turn_finish {s s' : State Bridge World Pending} {r r' : Request} {c c' : Nat} {w w' : World}
    (hs : State.Alike W.likeness R
      { s with
        heap := s.heap.contextClear c
        world := w.modifyEngine r.engine fun e => { e with pool := e.pool.keep c } }
      { s' with
        heap := s'.heap.contextClear c'
        world := w'.modifyEngine r'.engine fun e => { e with pool := e.pool.keep c' } })
    (hcause : ∀ cause,
      Render.executionError w r.view cause = Render.executionError w' r'.view cause)
    (failure : Option RaisedError) :
    Follows Render.host W.likeness (s.turn (Render.finish r c s.heap w failure))
      (s'.turn (Render.finish r' c' s'.heap w' failure)) := by
  unfold Render.finish
  cases failure with
  | none => exact turn_answer hs .nil
  | some cause =>
    have hsame : Render.executionError
        (w.modifyEngine r.engine fun e => { e with pool := e.pool.keep c }) r.view cause
        = Render.executionError
          (w'.modifyEngine r'.engine fun e => { e with pool := e.pool.keep c' }) r'.view cause :=
      hcause cause
    dsimp only at hsame ⊢
    rw [hsame]
    exact turn_failView hs _

namespace WorldLikeness.Pools

variable (hW : W.Pools) {s s' : State Bridge World Pending} {r r' : Request} {c c' : Nat}
  (h : State.Alike W.likeness R s s') (hr : r.Alike R r')

include hW h hr

theorem executionError_eq (cause : RaisedError) :
    Render.executionError s.world r.view cause = Render.executionError s'.world r'.view cause := by
  obtain ⟨v, v', hv, hv', hagrees⟩ := hW.views h.world hr.view
  simp only [Render.executionError, Render.uriOf, hv, hv', hagrees.uri]

variable (ht : R.table c c')

include ht

/-- The contexts of both renders are given back. -/
theorem finish (failure : Option RaisedError) :
    Follows Render.host W.likeness (s.turn (Render.finish r c s.heap s.world failure))
      (s'.turn (Render.finish r' c' s'.heap s'.world failure)) := by
  have hworld : W.world R (s.world.modifyEngine r.engine fun e => { e with pool := e.pool.keep c })
      (s'.world.modifyEngine r'.engine fun e => { e with pool := e.pool.keep c' }) := by
    rw [← hr.engine]
    exact hW.withPool h.world r.engine (·.keep c) (·.keep c') fun hp => hp.keep ht
  exact turn_finish ⟨h.heap.contextClear ht, hworld, h.stack, h.level, h.depth⟩
    (hW.executionError_eq h hr) failure

/-- Code that is read for a render runs alike. -/
theorem interpreted (name source : String) :
    Follows Render.host W.likeness
      (s.turn (Render.execute s.level r c (.interpreted name source) s.heap s.world))
      (s'.turn (Render.execute s'.level r' c' (.interpreted name source) s'.heap s'.world)) :=
  turn_interpreted (A := fun _ _ => True) (K := []) h hr ht name source
    (fun cause _ => hW.finish h hr ht (some cause)) trivial

end WorldLikeness.Pools

/-! ## Beginnings -/

namespace WorldLikeness.Courses

variable (hW : W.Courses A) {s s' : State Bridge World Pending} {r r' : Request}
  {e e' : Engine} {v v' : View} (h : State.Alike W.likeness R s s') (hr : r.Alike R r')
  (he : s.world.engines[r.engine]? = some e) (he' : s'.world.engines[r'.engine]? = some e')
  (hv : s.world.views[r.view]? = some v) (hv' : s'.world.views[r'.view]? = some v')
  {K : List (Frame Pending)}

include hW h hr he he' hv hv'

/-- A context is given its variables, and the code of the view runs in it. -/
theorem runIn {c c' : Nat} (ht : R.table c c')
    (ha : A K (s.turn (Render.runIn s.level r c e.config.compile v s.heap s.world))) :
    Follows Render.host W.likeness
      (s.turn (Render.runIn s.level r c e.config.compile v s.heap s.world))
      (s'.turn (Render.runIn s'.level r' c' e'.config.compile v' s'.heap s'.world)) := by
  obtain ⟨v₀, v₀', hv₀, hv₀', hagrees⟩ := hW.views h.world hr.view
  rw [hv, Option.some.injEq] at hv₀
  rw [hv', Option.some.injEq] at hv₀'
  subst hv₀ hv₀'
  have hbridge : Bridge.Alike R ⟨r.engine, r.view, c, r.sink, r.depth⟩
      ⟨r'.engine, r'.view, c', r'.sink, r'.depth⟩ :=
    ⟨hr.engine, hr.view, ht, hr.sink, hr.depth⟩
  obtain ⟨S, hg, hheap⟩ := h.heap.bindVariables ht v.defaults hr.attributes r.children hbridge
  unfold Render.runIn at ha ⊢
  rw [← hagrees.defaults, ← hr.children]
  exact hW.prepare (h.setHeap hg hheap) (hr.mono hg) (hg.table ht) he he' hv hv' ha

/-- A context is taken from both pools, or made for both renders. -/
theorem acquire (ha : A K (s.turn (Render.acquire s.level r e v s.heap s.world))) :
    Follows Render.host W.likeness
      (s.turn (Render.acquire s.level r e v s.heap s.world))
      (s'.turn (Render.acquire s'.level r' e' v' s'.heap s'.world)) := by
  have hpools : e.pool.Alike R e'.pool := by
    have hrel := hW.pools h.world r.engine
    rw [he, hr.engine, he'] at hrel
    cases hrel with
    | some halike => exact halike
  have hidle := hpools.idle
  unfold Render.acquire Pool.take? at ha ⊢
  rw [← hr.engine]
  generalize e.pool.idle = idle at hidle ha ⊢
  generalize e'.pool.idle = idle' at hidle ⊢
  cases hidle with
  | nil =>
    have hread := h.heap.readChunk s.level (utf8 "=context") Script.contextSource
      (.table h.heap.globals)
    dsimp only
    rw [← h.level, hW.executionError_eq h hr]
    generalize s.heap.readChunk s.level (utf8 "=context") Script.contextSource
      (.table s.heap.globals) = x at hread ⊢
    generalize s'.heap.readChunk s.level (utf8 "=context") Script.contextSource
      (.table s'.heap.globals) = x' at hread ⊢
    cases hread with
    | error error => exact turn_failView h _
    | ok hread =>
      obtain ⟨S, hg, hf, hheap⟩ := hread
      exact turn_call (h.setHeap hg hheap) hf .nil (.acquiring hW.making (hr.mono hg))
  | @cons c c' rest rest' ht hrest =>
    have hs : State.Alike W.likeness R
        { s with
          world := s.world.modifyEngine r.engine fun e₀ =>
            { e₀ with pool := { e.pool with idle := rest } } }
        { s' with
          world := s'.world.modifyEngine r.engine fun e₀ =>
            { e₀ with pool := { e'.pool with idle := rest' } } } :=
      ⟨h.heap, hW.withPool h.world r.engine (fun _ => { e.pool with idle := rest })
        (fun _ => { e'.pool with idle := rest' }) fun _ => ⟨hpools.capacity, hrest⟩, h.stack,
        h.level, h.depth⟩
    have htaken : ∀ {w : World} {i : Nat} {e₀ : Engine} (p : Pool Nat), w.engines[i]? = some e₀ →
        (w.modifyEngine i fun e => { e with pool := p }).engines[i]?
          = some { e₀ with pool := p } := by
      intro w i e₀ p he₀
      simp only [World.modifyEngine, Array.getElem?_modify, if_true, he₀, Option.map_some]
    have htaken' : (s'.world.modifyEngine r.engine fun e₀ =>
        { e₀ with pool := { e'.pool with idle := rest' } }).engines[r'.engine]?
          = some { e' with pool := { e'.pool with idle := rest' } } := by
      rw [hr.engine]
      exact htaken _ he'
    exact hW.runIn hs hr (htaken _ he) htaken' hv hv' ht ha

omit he he' hv hv' in
/-- Both renders go on with the contexts that have been made for them. -/
theorem acquired (hengines : ∀ i : Nat,
      Option.Rel Engine.Agrees s.world.engines[i]? s'.world.engines[i]?)
    {vs vs' : List Value} (hvs : ValuesAlike R vs vs')
    (ha : A K (s.turn (Render.acquired s.level r vs s.heap s.world))) :
    Follows Render.host W.likeness
      (s.turn (Render.acquired s.level r vs s.heap s.world))
      (s'.turn (Render.acquired s'.level r' vs' s'.heap s'.world)) := by
  obtain ⟨v, v', hv, hv', -⟩ := hW.views h.world hr.view
  have hrel := hengines r.engine
  have hfirst := hvs.firstValue
  have hfail : Follows Render.host W.likeness
      (s.turn (Render.failView s.heap s.world (Render.executionError s.world r.view .conversion)))
      (s'.turn (Render.failView s'.heap s'.world
        (Render.executionError s'.world r'.view .conversion))) := by
    rw [hW.executionError_eq h hr]
    exact turn_failView h _
  unfold Render.acquired at ha ⊢
  rw [hv] at ha
  rw [hv, ← hr.engine, hv']
  generalize Script.firstValue vs = x at hfirst ha ⊢
  generalize Script.firstValue vs' = x' at hfirst ⊢
  cases hfirst with
  | table ht =>
    cases he : s.world.engines[r.engine]? <;> cases he' : s'.world.engines[r.engine]? <;>
      rw [he, he'] at hrel <;> cases hrel
    · exact hfail
    · rw [he] at ha
      exact hW.runIn h hr he (hr.engine ▸ he') hv hv' ht ha
  | _ => exact hfail

end WorldLikeness.Courses

end ScriptedViews

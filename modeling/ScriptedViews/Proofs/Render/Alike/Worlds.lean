import ScriptedViews.Proofs.Render.Alike.Courses

set_option autoImplicit false

/-! # Worlds that differ in places alone

Two worlds may be the same but for where things are on the heaps of their runtimes: the same views
have been read, kept and prepared, and as many contexts are idle. Renders on them go about
everything at the same time, so their views go by the same numbers for good. -/

namespace ScriptedViews

open Script (Value Bytes Heap Matching State Frame ValuesAlike ExceptAlike utf8)
open Script.State (Follows)

variable {R S : Matching} {runtime : Nat} {held : Nat → Nat → Prop} {w w' : World}

/-! ## Views, engines and worlds -/

/-- Whether two pieces of prepared code are the same up to places on the heap. -/
inductive Script.Executable.Alike (R : Matching) :
    Script.Executable → Script.Executable → Prop where
  | compiled {f f' : Value} (h : f.Alike R f') : Alike R (.compiled f) (.compiled f')
  | interpreted (name source : String) :
    Alike R (.interpreted name source) (.interpreted name source)

/-- Whether two views are the same up to places on the heap. -/
structure View.Mirrors (R : Matching) (v v' : View) : Prop where
  agrees : v.Agrees v'
  executable : Option.Rel (Script.Executable.Alike R) v.executable v'.executable

/-- Whether two engines are the same up to places on the heap. -/
structure Engine.Mirrors (R : Matching) (e e' : Engine) : Prop where
  config : e.config = e'.config
  loader : e.loader = e'.loader
  validator : e.validator = e'.validator
  cache : e.cache = e'.cache
  runtime : e.runtime = e'.runtime
  isHeld : e.isHeld = e'.isHeld
  pool : e.pool.Alike R e'.pool

/-- Whether two worlds are the same up to places on the heaps of their runtimes, of which one is
    there. Tables that are held on to from outside stand for each other, and the views that engines
    keep are there. -/
structure World.Mirrors (runtime : Nat) (held : Nat → Nat → Prop) (R : Matching) (w w' : World) :
    Prop where
  runs : runtime < w.runtimes.size
  runs' : runtime < w'.runtimes.size
  sinks : w.sinks = w'.sinks
  sources : w.sources = w'.sources
  engines : ∀ i : Nat, Option.Rel (Engine.Mirrors R) w.engines[i]? w'.engines[i]?
  views : ∀ i : Nat, Option.Rel (View.Mirrors R) w.views[i]? w'.views[i]?
  hosted : ∀ {i j : Nat}, R.hosted i j → i = j ∧ i < w.views.size
  tables : ∀ {a b : Nat}, held a b → R.table a b
  kept : ∀ {i : Nat} {e : Engine} {uri : String} {k : Nat}, w.engines[i]? = some e →
    e.cache.get? uri = some k → k < w.views.size

theorem Script.Executable.Alike.mono (hg : R.Widens S) {x x' : Script.Executable}
    (h : x.Alike R x') : x.Alike S x' := by
  cases h with
  | compiled hf => exact .compiled (hf.mono hg)
  | interpreted name source => exact .interpreted name source

theorem View.Mirrors.mono (hg : R.Widens S) {v v' : View} (h : v.Mirrors R v') : v.Mirrors S v' :=
  { h with executable := Script.optionRel_mono (fun _ _ hx => hx.mono hg) h.executable }

theorem Engine.Mirrors.mono (hg : R.Widens S) {e e' : Engine} (h : e.Mirrors R e') :
    e.Mirrors S e' :=
  { h with pool := { h.pool with idle := h.pool.idle.imp fun _ _ => hg.table } }

theorem World.Mirrors.mono (hg : R.Widens S) (hhosted : ∀ {i j}, S.hosted i j → R.hosted i j)
    (h : World.Mirrors runtime held R w w') : World.Mirrors runtime held S w w' :=
  { h with
    engines := fun i => Script.optionRel_mono (fun _ _ he => he.mono hg) (h.engines i)
    views := fun i => Script.optionRel_mono (fun _ _ hv => hv.mono hg) (h.views i)
    hosted := fun hr => h.hosted (hhosted hr)
    tables := fun hr => hg.table (h.tables hr) }

/-- When worlds are the same up to places on the heaps. -/
def mirrored (runtime : Nat) (held : Nat → Nat → Prop) : WorldLikeness where
  world := World.Mirrors runtime held
  making := True
  compiling := True
  mono hg h := h.mono hg.toWidens hg.hosted_of

theorem Engine.Mirrors.agrees {e e' : Engine} (h : e.Mirrors R e') : e.Agrees e' :=
  ⟨h.isHeld, by rw [h.config]⟩

theorem Engine.Mirrors.readView_eq {e e' : Engine} (h : e.Mirrors R e')
    (hsources : w.sources = w'.sources) (i : Nat) (uri : String) :
    w.readView i e uri = w'.readView i e' uri := by
  simp only [World.readView, World.validate, h.loader, h.validator, h.config, hsources]

namespace World.Mirrors

/-! ## Changes of worlds -/

/-- Worlds that mirror each other have as many views. -/
theorem size_eq (h : World.Mirrors runtime held R w w') : w.views.size = w'.views.size := by
  refine Nat.le_antisymm ?_ ?_ <;> refine Nat.le_of_not_lt fun hlt => ?_
  · have hrel := h.views w'.views.size
    rw [Array.getElem?_eq_getElem hlt, Array.getElem?_eq_none (Nat.le_refl _)] at hrel
    cases hrel
  · have hrel := h.views w.views.size
    rw [Array.getElem?_eq_getElem hlt, Array.getElem?_eq_none (Nat.le_refl _)] at hrel
    cases hrel

/-- Views that the host knows are there, under the same number. -/
theorem view (h : World.Mirrors runtime held R w w') {i j : Nat} (hr : R.hosted i j) :
    i = j ∧ ∃ v v', w.views[i]? = some v ∧ w'.views[j]? = some v' ∧ v.Mirrors R v' := by
  obtain ⟨rfl, hlt⟩ := h.hosted hr
  have hrel := h.views i
  rw [Array.getElem?_eq_getElem hlt] at hrel ⊢
  generalize w'.views[i]? = x' at hrel ⊢
  cases hrel with
  | some hmirrors => exact ⟨rfl, _, _, rfl, rfl, hmirrors⟩

/-- What is in the runtimes is of no consequence. -/
theorem withRuntimes (h : World.Mirrors runtime held R w w') {rs rs' : Array Runtime}
    (hsize : rs.size = w.runtimes.size) (hsize' : rs'.size = w'.runtimes.size) :
    World.Mirrors runtime held R { w with runtimes := rs } { w' with runtimes := rs' } :=
  { h with
    runs := by simpa only [hsize] using h.runs
    runs' := by simpa only [hsize'] using h.runs' }

theorem modifyRuntime (h : World.Mirrors runtime held R w w') (i i' : Nat)
    (f f' : Runtime → Runtime) :
    World.Mirrors runtime held R (w.modifyRuntime i f) (w'.modifyRuntime i' f') :=
  h.withRuntimes Array.size_modify Array.size_modify

/-- A view that is known may be known to the host. -/
theorem withHosted (h : World.Mirrors runtime held R w w') {i : Nat} (hi : i < w.views.size) :
    World.Mirrors runtime held (R.withHosted i i) w w' :=
  { h with
    engines := fun j => Script.optionRel_mono (fun _ _ he => he.mono Matching.widens_withHosted)
      (h.engines j)
    views := fun j => Script.optionRel_mono (fun _ _ hv => hv.mono Matching.widens_withHosted)
      (h.views j)
    hosted := by
      rintro x y (hold | ⟨rfl, rfl⟩)
      · exact h.hosted hold
      · exact ⟨rfl, hi⟩ }

/-- The engines of both worlds may change alike. -/
theorem modifyEngine (h : World.Mirrors runtime held R w w') (i : Nat) {f f' : Engine → Engine}
    (hf : ∀ e e', e.Mirrors R e' → (f e).Mirrors R (f' e'))
    (hkept : ∀ {e uri k}, w.engines[i]? = some e → (f e).cache.get? uri = some k →
      k < w.views.size) :
    World.Mirrors runtime held R (w.modifyEngine i f) (w'.modifyEngine i f') :=
  { h with
    engines := by
      intro j
      have hrel := h.engines j
      simp only [World.modifyEngine, Array.getElem?_modify]
      generalize w.engines[j]? = x at hrel ⊢
      generalize w'.engines[j]? = x' at hrel ⊢
      split
      · cases hrel with
        | none => exact .none
        | some he => exact .some (hf _ _ he)
      · exact hrel
    kept := by
      intro j e uri k he hk
      simp only [World.modifyEngine, Array.getElem?_modify] at he
      split at he
      · rename_i hij
        subst hij
        obtain ⟨e₀, he₀, rfl⟩ := Option.map_eq_some_iff.1 he
        exact hkept he₀ hk
      · exact h.kept he hk }

/-- The code of a view may be published. -/
theorem publish (h : World.Mirrors runtime held R w w') (i : Nat) {x x' : Script.Executable}
    (hx : x.Alike R x') :
    World.Mirrors runtime held R (w.modifyView i fun v => v.prepared x)
      (w'.modifyView i fun v => v.prepared x') :=
  { h with
    views := by
      intro j
      have hrel := h.views j
      simp only [World.modifyView, Array.getElem?_modify]
      split
      · generalize w.views[j]? = y at hrel ⊢
        generalize w'.views[j]? = y' at hrel ⊢
        cases hrel with
        | none => exact .none
        | @some v v' hv =>
          refine .some ⟨?_, ?_⟩
          · have hagrees : v.unprepared = v'.unprepared := hv.agrees
            exact hagrees
          · have hexecutable := hv.executable
            simp only [View.prepared]
            generalize v.executable = z at hexecutable ⊢
            generalize v'.executable = z' at hexecutable ⊢
            cases hexecutable with
            | none => exact .some hx
            | some hz => exact .some hz
      · exact hrel
    hosted := fun hr => by
      simpa only [World.modifyView, Array.size_modify] using h.hosted hr
    kept := fun he hk => by
      simpa only [World.modifyView, Array.size_modify] using h.kept he hk }

/-- The same view may be put into both worlds. -/
theorem addView (h : World.Mirrors runtime held R w w') {v : View} (hv : v.executable = none) :
    World.Mirrors runtime held R (w.addView v).2 (w'.addView v).2 := by
  have hlt : ∀ {k}, k < w.views.size → k < (w.views.push v).size := by
    intro k hk
    rw [Array.size_push]
    exact Nat.lt_succ_of_lt hk
  exact
    { h with
      views := by
        intro j
        have hrel := h.views j
        simp only [World.addView, Array.getElem?_push, ← h.size_eq]
        split
        · exact .some ⟨rfl, by rw [hv]; exact .none⟩
        · exact hrel
      hosted := fun hr => (h.hosted hr).imp id hlt
      kept := fun he hk => hlt (h.kept he hk) }

/-! ## Loads -/

/-- The same view is loaded. -/
theorem load (h : World.Mirrors runtime held R w w') (engine : Nat) (uri : String) :
    ExceptAlike (fun r r' => World.Mirrors runtime held (R.withHosted r.1 r'.1) r.2 r'.2)
      (w.load engine uri) (w'.load engine uri) := by
  have hrel := h.engines engine
  unfold World.load
  cases he : w.engines[engine]? <;> cases he' : w'.engines[engine]? <;> rw [he, he'] at hrel <;>
    cases hrel
  · exact .error _
  · rename_i e e' hmirrors
    dsimp only
    rw [← hmirrors.config, ← hmirrors.cache, ← hmirrors.readView_eq h.sources engine uri]
    cases hkept : (if e.config.cacheViews then e.cache.get? uri else none) with
    | some k =>
      have hget : e.cache.get? uri = some k := by
        split at hkept
        · exact hkept
        · cases hkept
      exact .ok (h.withHosted (h.kept he hget))
    | none =>
      cases hread : w.readView engine e uri with
      | error error => exact .error _
      | ok v =>
        have hadd := h.addView (Expansion.isRead_of_readView hread).executable
        have hnew : w.views.size < (w.addView v).2.views.size := by
          simp [World.addView]
        have hsize : (w'.addView v).1 = w.views.size := h.size_eq.symm
        have hkeep : ∀ e e' : Engine, e.Mirrors R e' →
            Engine.Mirrors R { e with cache := e.cache.insert uri w.views.size }
              { e' with cache := e'.cache.insert uri w.views.size } :=
          fun e e' he => { he with cache := congrArg (·.insert uri w.views.size) he.cache }
        have hcached := hadd.modifyEngine engine hkeep fun {e₁ uri' k} he₁ hk => by
          rw [OrderedMap.get?_insert] at hk
          split at hk
          · rw [← Option.some.inj hk]
            exact hnew
          · exact hadd.kept he₁ hk
        simp only [hsize]
        split
        · exact .ok (hcached.withHosted hnew)
        · exact .ok (hadd.withHosted hnew)

end World.Mirrors

/-! ## Preparing code -/

/-- Whether worlds that are alike have views whose code is the same up to places on the heap, and stay
    alike when code is prepared in both of them. -/
structure WorldLikeness.Publishes (W : WorldLikeness) : Prop where
  compiling : W.compiling
  view : ∀ {R w w'}, W.world R w w' → ∀ {i j : Nat}, R.hosted i j →
    i = j ∧ ∃ v v', w.views[i]? = some v ∧ w'.views[j]? = some v' ∧ v.Mirrors R v'
  publish : ∀ {R w w'}, W.world R w w' → ∀ (i : Nat) {x x' : Script.Executable}, x.Alike R x' →
    W.world R (w.modifyView i fun v => v.prepared x) (w'.modifyView i fun v => v.prepared x')
  modifyRuntime : ∀ {R w w'}, W.world R w w' → ∀ (i i' : Nat) (f f' : Runtime → Runtime),
    W.world R (w.modifyRuntime i f) (w'.modifyRuntime i' f')

namespace WorldLikeness.Publishes

section Course

-- The worlds are alike by a matching that may know less than the one of the heaps: what a render
-- has been given before its code runs is of no consequence to them.
variable {W : WorldLikeness} {A : List (Frame Pending) → State Bridge World Pending → Prop}
  {s s' : State Bridge World Pending} {r r' : Request} {c c' : Nat} {K : List (Frame Pending)}
  {B : Matching} (hW : W.Publishes) (hg : B.Grows R) (h : State.Alike W.likeness R s s')
  (hr : r.Alike R r') (ht : R.table c c')
  (hfinish : ∀ {w w'}, W.world B w w' → ∀ cause,
    A K (s.turn (Render.finish r c s.heap w (some cause))) →
    Follows Render.host W.likeness (s.turn (Render.finish r c s.heap w (some cause)))
      (s'.turn (Render.finish r' c' s'.heap w' (some cause))))
  (hw : W.world B w w')

include hW hg h hr ht hfinish hw

omit hW in
theorem turn_execute {x x' : Script.Executable} (hx : x.Alike R x')
    (ha : A K (s.turn (Render.execute s.level r c x s.heap w))) :
    Follows Render.host W.likeness (s.turn (Render.execute s.level r c x s.heap w))
      (s'.turn (Render.execute s'.level r' c' x' s'.heap w')) := by
  have hs : State.Alike W.likeness R { s with world := w } { s' with world := w' } :=
    ⟨h.heap, W.mono hg hw, h.stack, h.level, h.depth⟩
  cases hx with
  | compiled hf => exact turn_call hs hf (.single (.table ht)) (.running hr ht)
  | interpreted name source => exact turn_interpreted hs hr ht name source (hfinish hw) ha

theorem turn_executePrepared {x x' : Script.Executable} (hx : x.Alike B x')
    (ha : A K (s.turn (Render.executePrepared s.level r c x s.heap w))) :
    Follows Render.host W.likeness (s.turn (Render.executePrepared s.level r c x s.heap w))
      (s'.turn (Render.executePrepared s'.level r' c' x' s'.heap w')) := by
  have hhosted := hg.hosted_of hr.view
  obtain ⟨hview, -⟩ := hW.view hw hhosted
  have hpublished := hW.publish hw r.view hx
  obtain ⟨-, v, v', hv, hv', hmirrors⟩ := hW.view hpublished hhosted
  have hexecutable := hmirrors.executable
  unfold Render.executePrepared at ha ⊢
  dsimp only at ha ⊢
  rw [hv] at ha
  rw [← hview] at hv' ⊢
  rw [hv, hv']
  refine turn_execute hg h hr ht hfinish hpublished (Script.Executable.Alike.mono hg.toWidens ?_) ha
  simp only [Option.bind_some]
  generalize v.executable = z at hexecutable ⊢
  generalize v'.executable = z' at hexecutable ⊢
  cases hexecutable with
  | none => exact hx
  | some hz => exact hz

/-- The source of a view is compiled in both worlds. -/
theorem turn_compile {v v' : View} (hv : v.Agrees v')
    (ha : A K (s.turn (Render.compile s.level r c v s.heap w))) :
    Follows Render.host W.likeness (s.turn (Render.compile s.level r c v s.heap w))
      (s'.turn (Render.compile s'.level r' c' v' s'.heap w')) := by
  have hread := h.heap.readSource (s.level + 1) v.uri (Script.functionSource v.source)
    (.table h.heap.globals)
  unfold Render.compile at ha ⊢
  dsimp only at ha ⊢
  rw [← hv.uri, ← hv.source, ← h.level]
  generalize s.heap.readSource (s.level + 1) v.uri (Script.functionSource v.source)
    (.table s.heap.globals) = y at hread ha ⊢
  generalize s'.heap.readSource (s.level + 1) v.uri (Script.functionSource v.source)
    (.table s'.heap.globals) = y' at hread ⊢
  cases hread with
  | error cause =>
    simp only [World.nameSource_sourceName?] at ha ⊢
    exact hfinish hw cause ha
  | ok hread =>
    obtain ⟨S, hS, hf, hheap⟩ := hread
    have hs : State.Alike W.likeness R
        { s with world := w.nameSource (w.runtimeOf r.engine) (some v.uri) }
        { s' with world := w'.nameSource (w'.runtimeOf r'.engine) (some v.uri) } :=
      ⟨h.heap, W.mono hg (hW.modifyRuntime hw _ _ _ _), h.stack, h.level, h.depth⟩
    exact turn_call (hs.setHeap hS hheap) hf .nil
      (.preparing hW.compiling (hr.mono hS) (hS.table ht) _ _)

theorem turn_prepare (compile : Bool) {v v' : View} (hv : v.Mirrors B v')
    (ha : A K (s.turn (Render.prepare s.level r c compile v s.heap w))) :
    Follows Render.host W.likeness (s.turn (Render.prepare s.level r c compile v s.heap w))
      (s'.turn (Render.prepare s'.level r' c' compile v' s'.heap w')) := by
  have hexecutable := hv.executable
  have hcompile := turn_compile hW hg h hr ht hfinish hw hv.agrees
  unfold Render.prepare at ha ⊢
  rw [← hv.agrees.uri, ← hv.agrees.source]
  generalize v.executable = x at hexecutable ha ⊢
  generalize v'.executable = x' at hexecutable ⊢
  cases hexecutable with
  | some hx => exact turn_execute hg h hr ht hfinish hw (hx.mono hg) ha
  | none =>
    dsimp only at ha ⊢
    cases compile with
    | true => exact hcompile ha
    | false => exact turn_executePrepared hW hg h hr ht hfinish hw (.interpreted _ _) ha

omit hg hw hfinish in
/-- The code of a view has been compiled in both worlds. -/
theorem turn_compiled (hw : W.world R w w') {vs vs' : List Value} (hvs : ValuesAlike R vs vs')
    (hfinish : ∀ {w w'}, W.world R w w' → ∀ cause,
      A K (s.turn (Render.finish r c s.heap w (some cause))) →
      Follows Render.host W.likeness (s.turn (Render.finish r c s.heap w (some cause)))
        (s'.turn (Render.finish r' c' s'.heap w' (some cause))))
    (ha : A K (s.turn (Render.compiled s.level r c vs s.heap w))) :
    Follows Render.host W.likeness (s.turn (Render.compiled s.level r c vs s.heap w))
      (s'.turn (Render.compiled s'.level r' c' vs' s'.heap w')) := by
  have hcounted := hW.modifyRuntime hw (w.runtimeOf r.engine) (w'.runtimeOf r'.engine)
    (fun rt => { rt with compilations := rt.compilations + 1 })
    fun rt => { rt with compilations := rt.compilations + 1 }
  unfold Render.compiled at ha ⊢
  dsimp only at ha ⊢
  rw [← hvs.firstValue.isFunction_eq]
  split at ha
  · rename_i hfunction
    simp only [hfunction, if_true]
    exact turn_executePrepared hW (.refl R) h hr ht hfinish hcounted (.compiled hvs.firstValue) ha
  · rename_i hnot
    simp only [hnot]
    exact hfinish hw _ ha

end Course

end WorldLikeness.Publishes

/-! ## What is left to engines -/

namespace Mirrored

/-- Engines in worlds that mirror each other have pools that are alike. -/
theorem pools : (mirrored runtime held).Pools where
  views h _ _ hr := by
    obtain ⟨-, v, v', hv, hv', hmirrors⟩ := h.view hr
    exact ⟨v, v', hv, hv', hmirrors.agrees⟩
  pools h i := Script.optionRel_mono (fun _ _ he => he.pool) (h.engines i)
  withPool h i _ _ hf := h.modifyEngine i (fun _ _ he => { he with pool := hf he.pool })
    fun he hk => h.kept he hk

theorem publishes : (mirrored runtime held).Publishes where
  compiling := trivial
  view h _ _ hr := h.view hr
  publish h i _ _ hx := h.publish i hx
  modifyRuntime h i i' f f' := h.modifyRuntime i i' f f'

section Course

variable {s s' : State Bridge World Pending} {r r' : Request} {c c' : Nat}
  (h : State.Alike (mirrored runtime held).likeness R s s') (hr : r.Alike R r')
  (ht : R.table c c')

include h hr ht

/-- Renders end alike, whatever their worlds have become. -/
theorem turn_finish (hw : World.Mirrors runtime held R w w') (failure : Option RaisedError) :
    Follows Render.host (mirrored runtime held).likeness
      (s.turn (Render.finish r c s.heap w failure))
      (s'.turn (Render.finish r' c' s'.heap w' failure)) := by
  have hs : State.Alike (mirrored runtime held).likeness R { s with world := w }
      { s' with world := w' } :=
    ⟨h.heap, hw, h.stack, h.level, h.depth⟩
  exact pools.finish hs hr ht failure

end Course

/-- Their renders take their course alike. -/
theorem courses : (mirrored runtime held).Courses fun _ _ => True where
  toPools := pools
  making := trivial
  prepare {R s s' r r' c c' e e' v v' K} h hr ht he he' hv hv' _ := by
    have hengine := h.world.engines r.engine
    have hview := h.world.views r.view
    obtain ⟨hsame, -⟩ := h.world.hosted hr.view
    rw [he, hr.engine, he'] at hengine
    rw [hv, hsame, hv'] at hview
    cases hengine with
    | some hengine =>
      cases hview with
      | some hview =>
        rw [← hengine.config]
        exact publishes.turn_prepare (A := fun _ _ => True) (K := []) (.refl R) h hr ht
          (fun hw cause _ => turn_finish h hr ht hw (some cause)) h.world _ hview trivial

/-- Engines in worlds that mirror each other answer alike. -/
theorem keeps : (mirrored runtime held).Keeps fun _ _ => True where
  sinks h := h.sinks
  withSinks h _ := { h with sinks := rfl }
  engines h i := Script.optionRel_mono (fun _ _ he => he.agrees) (h.engines i)
  views := pools.views
  load h := h.load
  acquire h hr he he' hv hv' ha := courses.acquire (K := []) h hr he he' hv hv' ha
  acquired _ := fun h hr hvs ha => courses.acquired (K := []) h hr
    (fun i => Script.optionRel_mono (fun _ _ he => he.agrees) (h.world.engines i)) hvs ha
  named _ := fun h _ _ _ _ => h.modifyRuntime _ _ _ _
  compiled _ := fun h hr ht hvs _ _ => publishes.turn_compiled (A := fun _ _ => True) (K := [])
    h hr ht h.world hvs (fun hw cause _ => turn_finish h hr ht hw (some cause)) trivial
  finish h hr ht _ failure _ := pools.finish h hr ht failure

end Mirrored

end ScriptedViews

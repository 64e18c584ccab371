import ScriptedViews.Proofs.Render.Alike.Bodies
import ScriptedViews.Proofs.Render.Alike.Courses

set_option autoImplicit false

/-! # Engines with other settings

Whether an engine keeps views, and whether it compiles their code, makes no difference to renders, if
the source of every view is no more than the body of one function. The views of two such engines need
not have been read or prepared at the same time, so a view of one of them may stand for many of the
other one. -/

namespace ScriptedViews

open Script (Value Bytes Heap Matching State Host Frame Stmt ValuesAlike ExceptAlike Likeness ascii
  utf8 environmentName)
open Script.State (Follows Matches)

/-- What is held on to from outside of two worlds: which views and tables stand for each other. -/
structure Held where
  view : Nat → Nat → Prop := fun _ _ => False
  table : Nat → Nat → Prop := fun _ _ => False

variable {R S : Matching} {most : Nat} {compile compile' : Bool} {held : Held}
  {w w' w₁ w₁' : World}

/-! ## Views, engines and worlds -/

/-- Whether it makes no difference to some source which of two engines compile it. -/
inductive Fits (most : Nat) (source : String) : Bool → Bool → Prop where
  | compiled (h : IsSealed most source) : Fits most source true true
  | interpreted : Fits most source false false
  | mixed (h : IsPortable most source) : Fits most source true false

/-- Whether two engines differ in no more than the views that they keep and in whether they keep and
    compile them. -/
structure Engine.Alike (R : Matching) (e e' : Engine) : Prop where
  loader : e.loader = e'.loader
  validator : e.validator = e'.validator
  validateSchema : e.config.validateSchema = e'.config.validateSchema
  maxNestingDepth : e.config.maxNestingDepth = e'.config.maxNestingDepth
  runtime : e.runtime = e'.runtime
  isHeld : e.isHeld = e'.isHeld
  capacity : e.pool.capacity = e'.pool.capacity
  idle : List.Forall₂ R.table e.pool.idle e'.pool.idle

/-- Whether two views have come of the same text, and it makes no difference which of two engines
    compile their code. -/
structure View.Fits (most : Nat) (compile compile' : Bool) (v v' : View) : Prop where
  agrees : v.Agrees v'
  fits : ScriptedViews.Fits most v.source compile compile'

/-- Whether two worlds are alike but for the settings of their engines. Besides what the heaps refer
    to, the views and tables that are held on to stand for each other. -/
structure World.Alike (most : Nat) (compile compile' : Bool) (held : Held) (R : Matching)
    (w w' : World) : Prop where
  sinks : w.sinks = w'.sinks
  sources : w.sources = w'.sources
  engines : ∀ i : Nat, Option.Rel (Engine.Alike R) w.engines[i]? w'.engines[i]?
  views : ∀ {i j : Nat}, R.hosted i j ∨ held.view i j →
    ∃ v v', w.views[i]? = some v ∧ w'.views[j]? = some v' ∧ v.Fits most compile compile' v'
  tables : ∀ {a b : Nat}, held.table a b → R.table a b
  stored : ∀ {i : Nat} {e : Engine} {uri : String} {v : View}, w.engines[i]? = some e →
    w.readView i e uri = .ok v → Fits most v.source compile compile'
  left : w.Tidy R.knownLeft most compile
  right : w'.Tidy R.knownRight most compile'

theorem Engine.Alike.mono (hg : R.Widens S) {e e' : Engine} (h : e.Alike R e') : e.Alike S e' :=
  { h with idle := h.idle.imp fun _ _ => hg.table }

/-- When worlds are alike but for the settings of their engines. -/
def settings (most : Nat) (compile compile' : Bool) (held : Held) : WorldLikeness where
  world := World.Alike most compile compile' held
  making := True
  compiling := False
  mono hg h :=
    { h with
      engines := fun i => Script.optionRel_mono (fun _ _ he => he.mono hg) (h.engines i)
      views := fun hr => h.views (hr.imp_left hg.hosted_of)
      tables := fun hr => hg.table (h.tables hr)
      left := h.left.mono hg.knownLeft
      right := h.right.mono hg.knownRight }

theorem Engine.Alike.agrees {e e' : Engine} (h : e.Alike R e') : e.Agrees e' :=
  ⟨h.isHeld, h.maxNestingDepth⟩

theorem Engine.Alike.readView_eq {e e' : Engine} (h : e.Alike R e') (hsources : w.sources = w'.sources)
    (i : Nat) (uri : String) : w.readView i e uri = w'.readView i e' uri := by
  simp only [World.readView, World.validate, h.loader, h.validator, h.validateSchema, hsources]

namespace World.Alike

/-! ## Changes of worlds -/

/-- Worlds stay alike with more views, more prepared code and other views kept. -/
theorem stays (h : World.Alike most compile compile' held R w w') (hs : w.Stays w₁) (hs' : w'.Stays w₁')
    (hg : R.Grows S) (hleft : w₁.Tidy S.knownLeft most compile) (hright : w₁'.Tidy S.knownRight most compile') :
    World.Alike most compile compile' held S w₁ w₁' := by
  have hengine : ∀ {i : Nat} {e₁ : Engine}, w₁.engines[i]? = some e₁ →
      ∃ e cache, w.engines[i]? = some e ∧ e₁ = { e with cache } := by
    intro i e₁ he₁
    have hrel := hs.engines i
    rw [he₁] at hrel
    generalize hx : w.engines[i]? = x at hrel
    cases hrel with
    | some hsame =>
      obtain ⟨cache, rfl⟩ := hsame
      exact ⟨_, cache, rfl, rfl⟩
  refine ⟨by rw [hs.sinks, hs'.sinks, h.sinks], by rw [hs.sources, hs'.sources, h.sources],
    fun i => ?_, fun hr => ?_, fun hr => hg.table (h.tables hr),
    fun {i e₁ uri v} he₁ hread => ?_, hleft, hright⟩
  · have hrel := h.engines i
    have hrel₁ := hs.engines i
    have hrel₁' := hs'.engines i
    generalize w.engines[i]? = x at hrel hrel₁
    generalize w'.engines[i]? = x' at hrel hrel₁'
    generalize w₁.engines[i]? = y at hrel₁ ⊢
    generalize w₁'.engines[i]? = y' at hrel₁' ⊢
    cases hrel with
    | none =>
      cases hrel₁
      cases hrel₁'
      exact .none
    | some he =>
      cases hrel₁ with
      | some hsame =>
        cases hrel₁' with
        | some hsame' =>
          obtain ⟨cache, rfl⟩ := hsame
          obtain ⟨cache', rfl⟩ := hsame'
          exact .some { he.mono hg with }
  · obtain ⟨v, v', hv, hv', hfits⟩ := h.views (hr.imp_left hg.hosted_of)
    obtain ⟨x, hx⟩ := hs.views hv
    obtain ⟨x', hx'⟩ := hs'.views hv'
    exact ⟨_, _, hx, hx', ⟨hfits.agrees, hfits.fits⟩⟩
  · obtain ⟨e, cache, he, rfl⟩ := hengine he₁
    have hold : w.readView i e uri = .ok v := by
      rw [← hread]
      simp only [World.readView, World.validate, hs.sources]
    exact h.stored he hold

/-- Views that have come of the same text may stand for each other. -/
theorem withHosted (h : World.Alike most compile compile' held R w w') {i j : Nat} {v v' : View}
    (hv : w.views[i]? = some v) (hv' : w'.views[j]? = some v') (hfits : v.Fits most compile compile' v') :
    World.Alike most compile compile' held (R.withHosted i j) w w' :=
  { h with
    engines := fun i => Script.optionRel_mono (fun _ _ he => he.mono Matching.widens_withHosted)
      (h.engines i)
    views := by
      rintro x y ((hold | ⟨rfl, rfl⟩) | hheld)
      · exact h.views (.inl hold)
      · exact ⟨v, v', hv, hv', hfits⟩
      · exact h.views (.inr hheld) }

/-- The idle contexts of an engine may be others that stand for each other. -/
theorem withPool (h : World.Alike most compile compile' held R w w') (i : Nat) (f f' : Pool Nat → Pool Nat)
    (hf : ∀ {p p' : Pool Nat}, p.capacity = p'.capacity → List.Forall₂ R.table p.idle p'.idle →
      (f p).capacity = (f' p').capacity ∧ List.Forall₂ R.table (f p).idle (f' p').idle) :
    World.Alike most compile compile' held R (w.modifyEngine i fun e => { e with pool := f e.pool })
      (w'.modifyEngine i fun e => { e with pool := f' e.pool }) := by
  have hget : ∀ (u : World) (g : Pool Nat → Pool Nat) (j : Nat),
      (u.modifyEngine i fun e => { e with pool := g e.pool }).engines[j]?
        = u.engines[j]?.map fun e => { e with pool := if i = j then g e.pool else e.pool } := by
    intro u g j
    simp only [World.modifyEngine, Array.getElem?_modify]
    split
    · rfl
    · simp
  have htidy : ∀ {known : Nat → Script.Closure → Prop} {b : Bool} {u : World}
      (g : Pool Nat → Pool Nat), u.Tidy known most b →
      (u.modifyEngine i fun e => { e with pool := g e.pool }).Tidy known most b := by
    intro known b u g hu
    refine ⟨hu.runs, fun he => ?_, fun he => ?_, fun he hk => ?_, fun hv hx => hu.prepared hv hx⟩
    · rw [hget] at he
      obtain ⟨e₀, he₀, rfl⟩ := Option.map_eq_some_iff.1 he
      have hruntime := hu.runtime he₀
      exact hruntime
    · rw [hget] at he
      obtain ⟨e₀, he₀, rfl⟩ := Option.map_eq_some_iff.1 he
      have hcompiles := hu.compiles he₀
      exact hcompiles
    · rw [hget] at he
      obtain ⟨e₀, he₀, rfl⟩ := Option.map_eq_some_iff.1 he
      have hkept := hu.kept he₀ hk
      exact hkept
  refine ⟨h.sinks, h.sources, fun j => ?_, h.views, h.tables, fun he hread => ?_,
    htidy f h.left, htidy f' h.right⟩
  · have hrel := h.engines j
    rw [hget, hget]
    generalize w.engines[j]? = x at hrel ⊢
    generalize w'.engines[j]? = x' at hrel ⊢
    cases hrel with
    | none => exact .none
    | some he =>
      have hnew := hf he.capacity he.idle
      refine .some { he with capacity := ?_, idle := ?_ }
      · dsimp only
        split
        · exact hnew.1
        · exact he.capacity
      · dsimp only
        split
        · exact hnew.2
        · exact he.idle
  · rw [hget] at he
    obtain ⟨e₀, he₀, rfl⟩ := Option.map_eq_some_iff.1 he
    have hfits := h.stored he₀ hread
    exact hfits

/-! ## Loads -/

/-- Views that are loaded stand for each other, whether they were kept or are read now. -/
theorem load (h : World.Alike most compile compile' held R w w') (engine : Nat) (uri : String) :
    ExceptAlike (fun r r' => World.Alike most compile compile' held (R.withHosted r.1 r'.1) r.2 r'.2)
      (w.load engine uri) (w'.load engine uri) := by
  have hrel := h.engines engine
  cases he : w.engines[engine]? <;> cases he' : w'.engines[engine]? <;> rw [he, he'] at hrel <;>
    cases hrel
  · simp only [World.load, he, he']
    exact .error _
  · rename_i e e' halike
    have hsame := halike.readView_eq h.sources engine uri
    rcases h.left.load he uri with ⟨error, hread, hload⟩ | ⟨v, k, w₁, x, hread, hload, htidy, hstays, hview⟩ <;>
      rcases h.right.load he' uri with
        ⟨error', hread', hload'⟩ | ⟨v', k', w₁', x', hread', hload', htidy', hstays', hview'⟩ <;>
      rw [hload, hload'] <;> rw [hsame, hread'] at hread <;> cases hread
    · exact .error _
    · have hfits := h.stored he (hsame.trans hread')
      exact .ok ((h.stays hstays hstays' (.refl R) htidy htidy').withHosted hview hview'
        ⟨rfl, hfits⟩)

end World.Alike

/-! ## Calls of prepared code -/

/-- Whether there are few levels of calls if the code of views is compiled, and the engine calls a
    function only if no more are running than may be. -/
def IsWithin (compile : Bool) (most : Nat) (_ : List (Frame Pending))
    (t : State Bridge World Pending) : Prop :=
  compile = true →
    t.level ≤ most ∧ ∀ p rest, t.stack = .host p :: rest → t.depth < Script.maxDepth

theorem level_le_turn (s : State Bridge World Pending) (t : EngineTurn) :
    s.level ≤ (s.turn t).level := by
  unfold State.turn
  dsimp only
  split <;> first | exact Nat.le_refl _ | exact Nat.le_succ _

/-- The engine begins within such bounds. -/
theorem isWithin_turn {s : State Bridge World Pending} (hlevel : s.level = 0) (hdepth : s.depth = 0)
    (hmost : compile = true → 0 < most) (t : EngineTurn) (K : List (Frame Pending)) :
    IsWithin compile most K (s.turn t) := by
  intro hcompile
  have hpositive := hmost hcompile
  unfold State.turn State.enter
  dsimp only
  refine ⟨?_, fun _ _ _ => ?_⟩
  · split <;> simp only [State.give, State.go, hlevel] <;> omega
  · split <;> simp only [State.give, State.go, hdepth] <;> decide

theorem IsWithin.level {K : List (Frame Pending)} {s : State Bridge World Pending} {t : EngineTurn}
    (h : IsWithin compile most K (s.turn t)) (hcompile : compile = true) : s.level ≤ most :=
  Nat.le_trans (level_le_turn s t) (h hcompile).1

theorem IsWithin.depth {K : List (Frame Pending)} {s : State Bridge World Pending} {t : EngineTurn}
    (h : IsWithin true most K (s.turn t)) {h₁ : BridgeHeap} {f : Value} {args : List Value}
    {p : Pending} (ht : t = ⟨h₁, w₁, .call f args p⟩) : s.depth < Script.maxDepth := by
  subst ht
  exact (h rfl).2 p s.stack rfl

/-! ## What is left to engines -/

/-- Engines that differ in no more than in whether they keep and compile views have pools that are
    alike. -/
theorem settings_pools : (settings most compile compile' held).Pools where
  views h _ _ hr := by
    obtain ⟨v, v', hv, hv', hfits⟩ := h.views (.inl hr)
    exact ⟨v, v', hv, hv', hfits.agrees⟩
  pools h i := Script.optionRel_mono (fun _ _ he => ⟨he.capacity, he.idle⟩) (h.engines i)
  withPool h i f f' hf := h.withPool i f f' fun hcapacity hidle =>
    ⟨(hf ⟨hcapacity, hidle⟩).capacity, (hf ⟨hcapacity, hidle⟩).idle⟩

section Course

variable {s s' : State Bridge World Pending} {r r' : Request} {c c' : Nat} {v v' : View}
  (h : State.Alike (settings most compile compile' held).likeness R s s') (hr : r.Alike R r')

include h hr

/-- The code of a view is prepared on both sides if it has to be, and runs alike. -/
theorem follows_prepare (ht : R.table c c') (hv : s.world.views[r.view]? = some v)
    (hv' : s'.world.views[r'.view]? = some v') (hfits : v.Fits most compile compile' v')
    (hmost : compile = true → most ≤ 197) {K : List (Frame Pending)}
    (ha : IsWithin compile most K
      (s.turn (Render.prepare s.level r c compile v s.heap s.world))) :
    Follows Render.host (settings most compile compile' held).likeness
      (s.turn (Render.prepare s.level r c compile v s.heap s.world))
      (s'.turn (Render.prepare s'.level r' c' compile' v' s'.heap s'.world)) := by
  have huri := hfits.agrees.uri
  have hsource := hfits.agrees.source
  have hcode := hfits.fits
  have hleft := h.world.left
  have hright := h.world.right
  cases hcode with
  | compiled hsealed =>
    have hmost := hmost rfl
    have hlevel := ha.level rfl
    have hlevel' : s'.level ≤ most := h.level ▸ hlevel
    rcases hsealed.cases v.uri with ⟨cause, hrefused⟩ | ⟨hname, body, hbody⟩
    · rw [hleft.prepare_refused hv hlevel hrefused,
        hright.prepare_refused hv' hlevel' (huri ▸ hsource ▸ hrefused)]
      exact settings_pools.finish h hr ht _
    · obtain ⟨_, _, _, _, _, hcalls⟩ :=
        hleft.prepare_calls (r := r) (c := c) (h := s.heap) hv hlevel hbody hname
      have hdepth := ha.depth hcalls
      have hdepth' : s'.depth < Script.maxDepth := h.depth ▸ hdepth
      obtain ⟨h₁, w₁, f, behind, hkeeps, hstays, hfunction, htidy, hreach⟩ :=
        hleft.prepare_compiled (c := c) (h := s.heap) hv hlevel hbody hname hmost hdepth s.stack
          s.control
      obtain ⟨h₁', w₁', f', behind', hkeeps', hstays', hfunction', htidy', hreach'⟩ :=
        hright.prepare_compiled (c := c') (h := s'.heap) hv' hlevel' (hsource ▸ hbody)
          (huri ▸ hname) hmost hdepth' s'.stack s'.control
      have hc := hfunction h.heap.knownLeft
      have hc' := hfunction' h.heap.knownRight
      rw [← huri] at hc' htidy'
      refine Follows.of_reaches hreach hreach' ?_
      -- both functions are known from now on
      let S : Matching := (R.withKnownLeft f (viewClosure v.uri body behind)).withKnownRight f'
        (viewClosure v.uri body behind')
      have hg : R.Grows S := Matching.grows_withKnownLeft.trans Matching.grows_withKnownRight
      have hheap := ((h.heap.keeps hkeeps hkeeps').withKnownLeft hc).withKnownRight hc'
      have hworld : World.Alike most true true held S w₁ w₁' := h.world.stays hstays hstays' hg
        (htidy _ .inl (.inr ⟨rfl, rfl⟩)) (htidy' _ .inl (.inr ⟨rfl, rfl⟩))
      have hs : State.Alike (settings most true true held).likeness S
          { s with heap := h₁, world := w₁ } { s' with heap := h₁', world := w₁' } :=
        ⟨hheap, hworld, Script.stackAlike_mono hg h.stack, h.level, h.depth⟩
      exact follows_viewFunctions hs (.running (hr.mono hg) (hg.table ht)) (hg.table ht) hc
        (by dsimp only; omega) hdepth hc'
  | interpreted =>
    obtain ⟨w₁, htidy, hstays, hprepare⟩ := hleft.prepare_interpreted hv
    obtain ⟨w₁', htidy', hstays', hprepare'⟩ := hright.prepare_interpreted hv'
    rw [hprepare, hprepare', ← huri, ← hsource]
    have hs : State.Alike (settings most false false held).likeness R { s with world := w₁ }
        { s' with world := w₁' } :=
      ⟨h.heap, h.world.stays hstays hstays' (.refl R) htidy htidy', h.stack, h.level, h.depth⟩
    exact settings_pools.interpreted hs hr ht v.uri v.source
  | mixed hportable =>
    have hmost := hmost rfl
    have hlevel := ha.level rfl
    obtain ⟨w₁', htidy', hstays', hprepare'⟩ := hright.prepare_interpreted hv'
    rw [hprepare', ← huri, ← hsource]
    -- source that is refused by both fails for the same cause
    have hrefused : ∀ cause, IsUnreadable most v.uri v.source cause →
        s'.heap.readSource s'.level v.uri (utf8 v.source) (.table c') = .error cause →
        Follows Render.host (settings most true false held).likeness
          (s.turn (Render.prepare s.level r c true v s.heap s.world))
          (s'.turn (Render.execute s'.level r' c' (.interpreted v.uri v.source) s'.heap w₁')) := by
      intro cause hunreadable hread
      rw [hleft.prepare_refused hv hlevel hunreadable]
      simp only [Render.execute, Heap.callOf, hread]
      have hs : State.Alike (settings most true false held).likeness R s { s' with world := w₁' } :=
        ⟨h.heap, h.world.stays (.refl _) hstays' (.refl R) hleft htidy', h.stack, h.level, h.depth⟩
      exact settings_pools.finish hs hr ht _
    by_cases hname : (chunkName v.uri).contains 0 = true
    · exact hrefused _ (isUnreadable_of_zero hname most _) (readSource_of_zero hname _ _ _ _)
    · rw [Bool.not_eq_true] at hname
      rcases hportable with ⟨body, hbody, hchunk, hleaves⟩ | ⟨e, hcompiled, hchunk⟩
      · obtain ⟨_, _, _, _, _, hcalls⟩ :=
          hleft.prepare_calls (r := r) (c := c) (h := s.heap) hv hlevel hbody hname
        have hdepth := ha.depth hcalls
        obtain ⟨h₁, w₁, f, behind, hkeeps, hstays, hfunction, htidy, hreach⟩ :=
          hleft.prepare_compiled (c := c) (h := s.heap) hv hlevel hbody hname hmost hdepth s.stack
            s.control
        have hc := hfunction h.heap.knownLeft
        refine Follows.of_reaches hreach (.refl _) ?_
        let S : Matching := R.withKnownLeft f (viewClosure v.uri body behind)
        have hg : R.Grows S := Matching.grows_withKnownLeft
        have hworld : World.Alike most true false held S w₁ w₁' :=
          h.world.stays hstays hstays' hg (htidy _ .inl (.inr ⟨rfl, rfl⟩)) htidy'
        have hs : State.Alike (settings most true false held).likeness S
            { s with heap := h₁, world := w₁ } { s' with world := w₁' } :=
          ⟨(h.heap.keeps hkeeps (.refl _ _)).withKnownLeft hc, hworld,
            Script.stackAlike_mono hg h.stack, h.level, h.depth⟩
        simp only [Render.execute, Heap.callOf,
          hchunk.readSource hname (show s'.level ≤ most from h.level ▸ hlevel)]
        exact follows_viewFunction_chunk hs (.running (hr.mono hg) (hg.table ht)) (hg.table ht) hc
          (by dsimp only; omega) hdepth hleaves
      · exact hrefused _ (isUnreadable_of_refused hcompiled hname)
          (readSource_of_error (hchunk s'.level (h.level ▸ hlevel)) hname _ _)

end Course

/-- Their renders take their course alike. -/
theorem settings_courses (hmost : compile = true → most ≤ 197) :
    (settings most compile compile' held).Courses (IsWithin compile most) where
  toPools := settings_pools
  making := trivial
  prepare {R s s' r r' c c' e e' v v' K} h hr ht he he' hv hv' ha := by
    obtain ⟨v₀, v₀', hv₀, hv₀', hfits⟩ := h.world.views (.inl hr.view)
    rw [hv, Option.some.injEq] at hv₀
    rw [hv', Option.some.injEq] at hv₀'
    subst hv₀ hv₀'
    rw [h.world.left.compiles he] at ha
    rw [h.world.left.compiles he, h.world.right.compiles he']
    exact follows_prepare h hr ht hv hv' hfits hmost ha

/-- Engines that differ in no more than in whether they keep and compile views answer alike. -/
theorem settings_keeps (hmost : compile = true → most ≤ 197) (compile' : Bool) (held : Held) :
    (settings most compile compile' held).Keeps (IsWithin compile most) where
  sinks h := h.sinks
  withSinks h _ :=
    { h with
      sinks := rfl
      left := { h.left with }
      right := { h.right with } }
  engines h i := Script.optionRel_mono (fun _ _ he => he.agrees) (h.engines i)
  views := settings_pools.views
  load h := h.load
  acquire h hr he he' hv hv' ha := (settings_courses hmost).acquire h hr he he' hv hv' ha
  acquired _ := fun h hr hvs ha => (settings_courses hmost).acquired h hr
    (fun i => Script.optionRel_mono (fun _ _ he => he.agrees) (h.world.engines i)) hvs ha
  named hcompiling := hcompiling.elim
  compiled hcompiling := hcompiling.elim
  finish h hr ht _ failure _ := settings_pools.finish h hr ht failure

end ScriptedViews

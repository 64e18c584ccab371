import ScriptedViews.Proofs.Render.Alike.LettingGo
import ScriptedViews.Proofs.Render.Alike.Setups
import ScriptedViews.Proofs.Render.Reached

set_option autoImplicit false

/-! # The pool of contexts is of no consequence

Engines that differ in how many contexts they keep give the same for whatever they are asked to do, as
long as every context is let go in the end: it still has the metatable that it was made with, and
nothing refers to either of them. All of them are compared with the engine that keeps none. -/

namespace ScriptedViews

open Expansion (withContext withContextCode withContexts)
open Script (Bytes Heap Matching State ExceptAlike utf8)
open Script.State (Quiet Follows)

variable {globals engine : Nat} {R : Matching} {w w' : World}

/-! ## Worlds with their heaps -/

theorem World.rendering_eq_renderStart (hruntime : w.runtimeOf engine = 0) (view sink : Nat)
    (attributes : List (String × Json)) (children : Option String) :
    w.rendering engine view sink attributes children
      = w.renderStart engine view sink attributes children := by
  simp only [World.rendering, World.given, World.requestOf, World.renderStart, hruntime]
  rfl

theorem pooled_hosts : (pooled globals).Hosts where
  runs h := ⟨h.mirrors.runs, h.mirrors.runs'⟩
  modifyRuntime h f f' := pooled_publishes.modifyRuntime h 0 0 f f'

/-- A view that is there may be known to the host. -/
theorem World.Pooled.withHosted (h : World.Pooled globals R w w') {i : Nat}
    (hi : i < w.views.size) : World.Pooled globals (R.withHosted i i) w w' := by
  obtain ⟨spares, hspares⟩ := h.spares
  exact ⟨h.mirrors.withHosted hi, spares, hspares.imp fun _ _ hp => ⟨hp.context, hp.metatable⟩⟩

/-- Views may be forgotten in both worlds. -/
theorem World.Pooled.clearCache (h : World.Pooled globals R w w') (engine : Nat) :
    World.Pooled globals R (w.clearCache engine) (w'.clearCache engine) := by
  obtain ⟨spares, hspares⟩ := h.spares
  have hforgets : (w'.clearCache engine).unpooled = w'.unpooled.clearCache engine :=
    World.unpooled_modifyEngine w' engine (f := fun e => { e with cache := [] }) fun _ => rfl
  refine ⟨?_, spares, hspares.modifyEngine engine fun _ => rfl⟩
  rw [hforgets]
  exact h.mirrors.modifyEngine engine (fun _ _ he => { he with cache := rfl }) fun _ hk => nomatch hk

/-! ## Pairs of worlds -/

/-- Whether two worlds with their heaps are alike but for the contexts that the engine of the second
    one keeps. Views go by the same numbers in both of them. -/
structure PooledPair (globals engine : Nat) (held : Nat → Nat → Prop) (w w' : World) : Prop where
  paired : ∃ R, World.Paired (pooled globals) R w w'
  settled : w.Settled
  has : w.Has engine 0
  globals : (w.heapOf 0).globals = globals
  held : ∀ {i j}, held i j → i = j ∧ i < w.views.size

namespace PooledPair

variable {held : Nat → Nat → Prop} (h : PooledPair globals engine held w w')

include h

theorem runtimeOf_left : w.runtimeOf engine = 0 := by
  obtain ⟨e, he, hruntime⟩ := h.has
  rw [World.runtimeOf_eq he, hruntime]

theorem runtimeOf_right : w'.runtimeOf engine = 0 := by
  obtain ⟨e, he, hruntime⟩ := h.has
  obtain ⟨R, hp⟩ := h.paired
  have hrel := hp.world.mirrors.engines engine
  rw [World.getElem?_unpooled, he] at hrel
  unfold World.runtimeOf
  generalize w'.engines[engine]? = x' at hrel ⊢
  cases x' with
  | none => cases hrel
  | some e' =>
    cases hrel with
    | some hmirrors => exact (hmirrors.runtime.symm.trans hruntime : e'.runtime = 0)

theorem load (uri : String) :
    ExceptAlike (fun r r' => PooledPair globals engine (fun x y => held x y ∨ x = r.1 ∧ y = r'.1)
          r.2 r'.2
        ∧ r.2.views[r.1]?.map View.unprepared = r'.2.views[r'.1]?.map View.unprepared)
      (w.load engine uri) (w'.load engine uri) := by
  obtain ⟨R, hp⟩ := h.paired
  have hload := World.Pooled.load hp.world engine uri
  cases hx : w.load engine uri <;> cases hx' : w'.load engine uri <;> rw [hx, hx'] at hload <;>
    cases hload
  · exact .error _
  · rename_i r r' hworld
    obtain ⟨hsame, v, v', hv, hv', hmirrors⟩ := pooled_publishes.view hworld (.inr ⟨rfl, rfl⟩)
    have hheap : w.heapOf 0 = r.2.heapOf 0 ∧ w'.heapOf 0 = r'.2.heapOf 0 := by
      simp only [World.heapOf, (World.load_leaves hx).1, (World.load_leaves hx').1, and_self]
    have hheaps := hp.heap.withHosted r.1 r'.1
    rw [hheap.1, hheap.2] at hheaps
    refine .ok ⟨⟨⟨_, hheaps, hworld⟩, h.settled.load hx, h.has.load hx, hheap.1 ▸ h.globals, ?_⟩, ?_⟩
    · rintro i j (hold | ⟨rfl, rfl⟩)
      · obtain ⟨rfl, hlt⟩ := h.held hold
        have hthere := World.views_load hx i _ (Array.getElem?_eq_getElem hlt)
        exact ⟨rfl, (Array.getElem?_eq_some_iff.1 hthere).1⟩
      · exact ⟨hsame, (Array.getElem?_eq_some_iff.1 hv).1⟩
    · rw [hv, hv']
      exact congrArg some hmirrors.agrees

theorem clearCache : PooledPair globals engine held (w.clearCache engine) (w'.clearCache engine) := by
  obtain ⟨R, hp⟩ := h.paired
  exact ⟨⟨R, hp.heap, World.Pooled.clearCache hp.world engine⟩,
    h.settled.modifyEngine engine fun _ => ⟨rfl, rfl⟩, h.has.modifyEngine engine fun _ => rfl,
    h.globals, h.held⟩

section Render

variable {i j sink : Nat} {attributes : List (String × Json)} {children : Option String}
  (hheld : held i j) (ha : IsolatesContexts (w.renderStart engine i sink attributes children))

include hheld ha

/-- A render that isolates contexts is as is asked of it, and followed by the other one. -/
theorem follows_renderStart :
    ∃ R, World.Paired (pooled globals) R w w'
      ∧ Quiet Render.host (fun K t => LetsContextsGo K t ∧ t.heap.globals = globals)
        (w.renderStart engine i sink attributes children)
      ∧ Follows Render.host (pooled globals).likeness
        (w.renderStart engine i sink attributes children)
        (w'.renderStart engine j sink attributes children) := by
  obtain ⟨R, hp⟩ := h.paired
  obtain ⟨e, he, hruntime⟩ := h.has
  obtain ⟨rfl, hlt⟩ := h.held hheld
  have hglobals : ∀ n, ((w.renderStart engine i sink attributes children).stepMany Render.host
      n).heap.globals = globals := by
    intro n
    rw [← World.rendering_eq_renderStart h.runtimeOf_left,
      h.settled.globals_rendering he, hruntime, h.globals]
  refine ⟨R, hp, ⟨ha.quiet.discreet, fun n => ⟨ha.quiet.asked n, hglobals (n + 1)⟩⟩, ?_⟩
  refine hp.follows_renderStart pooled_hosts (pooled_keeps globals) (fun {S u u'} hworld hviews _ => ?_)
    ⟨ha.start, hglobals 0⟩
  exact World.Pooled.withHosted hworld (hviews ▸ hlt)

theorem render {fuel : Nat} {r : Except ViewError Unit} {w₁ : World}
    (hend : w.render fuel engine i sink attributes children = (some r, w₁)) :
    ∃ n w₁', PooledPair globals engine held w₁ w₁'
      ∧ ∀ fuel, n ≤ fuel → w'.render fuel engine j sink attributes children = (some r, w₁') := by
  obtain ⟨R, hp, hquiet, hfollows⟩ := h.follows_renderStart hheld ha
  obtain ⟨n, w₁', S, hpaired, hn⟩ := World.Paired.render pooled_hosts (pooled_keeps globals)
    h.runtimeOf_left h.runtimeOf_right hquiet hfollows hend
  obtain ⟨e, he, hruntime⟩ := h.has
  have hsettled := h.settled.render he i sink attributes children hend
  obtain ⟨hhas, hviews, hglobals⟩ := h.settled.render_stays he i sink attributes children hend
  rw [hruntime] at hhas hglobals
  exact ⟨n, w₁', ⟨⟨S, hpaired⟩, hsettled, hhas, hglobals.trans h.globals,
    fun hr => (h.held hr).imp id fun hlt => Nat.lt_of_lt_of_le hlt hviews⟩, hn⟩

theorem render_ends {fuel : Nat} {r' : Except ViewError Unit} {w₁' : World}
    (hend : w'.render fuel engine j sink attributes children = (some r', w₁')) :
    ∃ n r w₁, w.render n engine i sink attributes children = (some r, w₁) := by
  obtain ⟨R, -, hquiet, hfollows⟩ := h.follows_renderStart hheld ha
  exact World.Paired.render_ends (pooled_keeps globals) h.runtimeOf_left h.runtimeOf_right hquiet
    hfollows hend

end Render

end PooledPair

theorem pooled_pairing : World.Pairing engine IsolatesContexts (PooledPair globals engine) where
  sinks h := by
    obtain ⟨R, hp⟩ := h.paired
    exact (pooled_keeps globals).sinks hp.world
  addSink h sink := by
    obtain ⟨R, hp⟩ := h.paired
    exact ⟨⟨R, hp.addSink (pooled_keeps globals) sink⟩, h.settled.congr rfl rfl, h.has, h.globals,
      h.held⟩
  load h := h.load
  clearCache h := h.clearCache
  render h hheld ha hend := h.render hheld ha hend
  render_ends h hheld ha hend := h.render_ends hheld ha hend

/-! ## Heaps at the start -/

/-- Contexts that are made on the second of two heaps alone are spare. -/
theorem heapAlike_withSpares {L : Script.Likeness Bridge World Pending} {h h' : BridgeHeap}
    (hh : Heap.Alike L R h h') (hglobals : h.globals = globals) (count : Nat) :
    ∃ S spares, R.Grows S ∧ Heap.Alike L S h (withContexts count h').2
      ∧ (withContexts count h').1 = spares.map Prod.fst
      ∧ (∀ p ∈ spares, S.IsSpare globals p.1 p.2) ∧ (tablesOf spares).Nodup
      ∧ ∀ ref ∈ tablesOf spares, h'.tables.size ≤ ref := by
  induction count generalizing R h' with
  | zero => exact ⟨R, [], .refl R, hh, rfl, nofun, .nil, nofun⟩
  | succ count ih =>
    have hnew := isNewContext_made h'
    obtain ⟨S, hg, hmade, hspare⟩ := (hh.keeps (.refl [] _) (keeps_made h')).withSpare hnew
      (hh.isFree (Nat.le_refl _)) (hh.isFree (Nat.le_succ _)) hglobals
    obtain ⟨T, spares, hg', hheap, hmap, hspares, hnodup, hbound⟩ := ih hmade
    have hroom := hnew.metatable_lt
    have hlater : ∀ ref ∈ tablesOf spares, h'.tables.size + 1 < ref :=
      fun ref href => Nat.lt_of_lt_of_le hroom (hbound ref href)
    refine ⟨T, (h'.tables.size, h'.tables.size + 1) :: spares, hg.trans hg', hheap,
      congrArg (h'.tables.size :: ·) hmap, ?_, ?_, ?_⟩
    · rintro p (_ | ⟨_, hp⟩)
      · exact hspare.mono hg'
      · exact hspares p hp
    · refine List.nodup_append.2 ⟨by simp, hnodup, ?_⟩
      rintro a ha b hb rfl
      have hlt := hlater a hb
      simp only [List.mem_cons, List.not_mem_nil, or_false] at ha
      omega
    · intro ref href
      rcases List.mem_append.1 href with hmem | hmem
      · simp only [List.mem_cons, List.not_mem_nil, or_false] at hmem
        omega
      · have hlt := hlater ref hmem
        omega

/-! ## Engines -/

namespace Setup

variable {s : Setup} {sources : Sources} {os : List Operation}

/-- The setup with as many contexts kept. -/
def pooling (s : Setup) (capacity : Nat) : Setup :=
  { s with config := { s.config with contextPoolCapacity := capacity } }

/-- What comes of whatever an engine is asked to do, however many contexts are idle in the end. -/
def outcomes (s : Setup) (sources : Sources) (os : List Operation) (fuel : Nat) :
    Performed ViewError (List Outcome) :=
  (s.serve sources os fuel).map fun r => r.map Prod.fst

/-- Whether the machine isolates contexts when it does what an engine is asked to do. -/
def IsolatesContexts (sources : Sources) (os : List Operation) (s : Setup) : Prop :=
  ∀ fuel engine registry world,
    World.createEngine fuel { sources } [] s = (some (.ok engine), registry, world) →
    Session.MeetsAll ScriptedViews.IsolatesContexts engine os { world }

/-- Engines that have been set up alike are alike but for the contexts that the second one has. -/
theorem paired_pooling {capacity : Nat} {loader : Loader} {contexts : List Nat}
    {runtimes runtimes' : Array Runtime} (hsize : 0 < runtimes.size) (hsize' : 0 < runtimes'.size)
    (hheap : (only sources (s.pooling 0) loader [] runtimes).heapOf 0 = Heap.start)
    (hmade : (contexts, (only sources (s.pooling capacity) loader contexts runtimes').heapOf 0)
      = withContexts capacity Heap.start)
    (hsettled : (only sources (s.pooling 0) loader [] runtimes).Settled) :
    Session.Paired (PooledPair 0 0) { world := only sources (s.pooling 0) loader [] runtimes }
      { world := only sources (s.pooling capacity) loader contexts runtimes' } := by
  obtain ⟨hcontexts, hheap'⟩ := Prod.mk.inj hmade
  obtain ⟨S, spares, hg, halike, hmap, hspares, hnodup, -⟩ := heapAlike_withSpares
    (heapAlike_start (L := (pooled 0).likeness)) (show Heap.start.globals = 0 from rfl) capacity
  have hidle : ∀ {i : Nat} {e : Engine},
      (only sources (s.pooling capacity) loader contexts runtimes').engines[i]? = some e →
        e.pool.idle = spares.map Prod.fst := by
    intro i e he
    cases i with
    | zero =>
      cases he
      exact hcontexts.trans hmap
    | succ i => simp [only] at he
  have hmirrors : World.Mirrors 0 (fun _ _ => False) S
      (only sources (s.pooling 0) loader [] runtimes)
      (only sources (s.pooling capacity) loader contexts runtimes').unpooled := by
    refine ⟨hsize, hsize', rfl, rfl, fun i => ?_, fun i => .none, fun hr => (hg.hosted_of hr).elim,
      fun hr => hr.elim, fun {i e uri k} he hk => ?_⟩
    · rw [World.getElem?_unpooled]
      cases i with
      | zero => exact .some ⟨rfl, rfl, rfl, rfl, rfl, rfl, rfl, .nil⟩
      | succ i => exact .none
    · cases i with
      | zero =>
        cases he
        cases hk
      | succ i => simp [only] at he
  refine ⟨fun _ _ => False, ⟨⟨S, ?_, hmirrors, spares, Nat.le_refl 1, hidle, hspares, hnodup⟩,
    hsettled, ⟨_, rfl, rfl⟩, ?_, fun hr => hr.elim⟩, .nil⟩
  · rw [hheap, hheap']
    exact halike
  · rw [hheap]
    rfl

/-- The same comes of whatever an engine that keeps contexts is asked to do as of one that keeps
    none. -/
theorem outcomes_pooling_zero (hisolates : (s.pooling 0).IsolatesContexts sources os)
    (capacity : Nat) (r : Except ViewError (List Outcome)) :
    EndsAs ((s.pooling 0).outcomes sources os) r
      ↔ EndsAs ((s.pooling capacity).outcomes sources os) r := by
  unfold outcomes
  obtain hfailing | ⟨loader, hloader, hsupported⟩ := s.failing_or_starts
  · have hsame : (s.pooling 0).serve sources os = (s.pooling capacity).serve sources os :=
      serve_of_failing rfl rfl hfailing
    rw [hsame]
  · obtain ⟨n, registry, contexts, runtimes, hcreate, hsize, hmade, -⟩ :=
      Expansion.createEngine_eq sources #[] (s := s.pooling 0) hloader hsupported
    obtain ⟨n', registry', contexts', runtimes', hcreate', hsize', hmade', -⟩ :=
      Expansion.createEngine_eq sources #[] (s := s.pooling capacity) hloader hsupported
    obtain ⟨rfl, hheap⟩ := Prod.mk.inj hmade
    have hnone : ∀ e ∈ ([] : Registry), e.2 < ({ sources } : World).runtimes.size := nofun
    have hreached : World.Reached (fun _ => True) _ :=
      ((World.Reached.start (P := fun _ => True)).sources sources).engine hnone
        (fun _ _ _ _ _ => trivial) (hcreate n (Nat.le_refl n))
    have hp := paired_pooling (s := s) hsize hsize' hheap hmade' hreached.settled
    have hmeets := hisolates n 0 registry _ (hcreate n (Nat.le_refl n))
    rw [endsAs_map_serve hcreate, endsAs_map_serve hcreate']
    constructor
    · rintro ⟨⟨rs, t⟩, rfl, hends⟩
      obtain ⟨t', -, hends'⟩ := hp.performAll pooled_pairing hmeets hends
      exact ⟨(rs, t'), rfl, hends'⟩
    · rintro ⟨⟨rs', t'⟩, rfl, hends'⟩
      obtain ⟨t, -, hends⟩ := hp.performAll_back pooled_pairing hmeets hends'
      exact ⟨(rs', t), rfl, hends⟩

/-- A page that sets a variable, shows it, and calls another view, which shows its own. -/
def numberedViews : ViewStore :=
  [("/b.xview", "<p>$\x7bn\x7d</p>".toUTF8),
   ("/page.xview", ("<x:view xmlns:x=\"xview\" xmlns:v=\"/\"><x:script>n = (n or 0) + 1</x:script>"
      ++ "$\x7bn\x7d<v:b/></x:view>").toUTF8)]

/-- The page is rendered to a sink that is full when it calls the other view, and again to one without
    a limit. -/
def rounds : List Operation :=
  [.load "/page.xview", .render 0 [] none (some 1), .render 0 [] none none]

/-- A view whose script gives its context another metatable, through which a variable is found, and a
    view that shows this variable. -/
def leakingViews : ViewStore :=
  [("/writer.xview", ("<x:view xmlns:x=\"xview\"><x:script>setmetatable(_ENV, \x7b__index = "
      ++ "\x7bn = 1\x7d\x7d)</x:script></x:view>").toUTF8),
   ("/reader.xview", "<p>$\x7bn\x7d</p>".toUTF8)]

end Setup

end ScriptedViews

import ScriptedViews.Proofs.Render.Alike.Answers
import ScriptedViews.Proofs.Render.Engines

set_option autoImplicit false

/-! # Operations

What an engine is asked to do in the course of time: load views, render those that have been loaded,
and forget those that it has kept. If two engines do each of these alike, they do all of them alike,
one after the other. -/

namespace ScriptedViews

open Script (Value Bytes Heap Matching State ValuesAlike EntriesAlike ExceptAlike)
open Script.State (Quiet Follows Matches Reaches)

/-! ## Operations -/

/-- What an engine may be asked to do. -/
inductive Operation where
  /-- Load a view. -/
  | load (uri : String)
  /-- Render a view, known by how many have been loaded before it, to a new sink. -/
  | render (view : Nat) (attributes : List (String × Json)) (children : Option String)
    (limit : Option Nat)
  /-- Forget all views that have been kept. -/
  | clearCache

/-- What comes of an operation. -/
structure Outcome where
  /-- Whether it fails and why. -/
  result : Except ViewError Unit := .ok ()
  /-- The view that has been loaded, as it has been read. -/
  loaded : Option View := none
  /-- What has been written, the last write first. -/
  writes : List Bytes := []

/-- A world in which views have been loaded. -/
structure Session where
  world : World
  /-- The views that have been loaded, the first one first. -/
  loaded : List Nat := []

namespace Session

/-- Do what is asked for. A view that has not been loaded cannot be rendered. -/
def perform (fuel engine : Nat) (s : Session) : Operation → Option (Outcome × Session)
  | .load uri =>
    match s.world.load engine uri with
    | .error e => some ({ result := .error e }, s)
    | .ok (view, world) =>
      some ({ loaded := world.views[view]?.map View.unprepared },
        { world, loaded := s.loaded ++ [view] })
  | .render view attributes children limit =>
    match s.loaded[view]? with
    | none => some ({ result := .error (.notFound "") }, s)
    | some view =>
      let (sink, world) := s.world.addSink { limit }
      match world.render fuel engine view sink attributes children with
      | (none, _) => none
      | (some result, world) =>
        some ({ result, writes := (world.sinks[sink]?.map Sink.writes).getD [] }, { s with world })
  | .clearCache => some ({}, { s with world := s.world.clearCache engine })

/-- Do one thing after the other. -/
def performAll (fuel engine : Nat) : List Operation → Session → Option (List Outcome × Session)
  | [], s => some ([], s)
  | o :: os, s =>
    match s.perform fuel engine o with
    | none => none
    | some (r, s) => (performAll fuel engine os s).map fun x => (r :: x.1, x.2)

/-- How many contexts of an engine are idle. -/
def idleContexts (engine : Nat) (s : Session) : Nat :=
  (s.world.engines[engine]?.map fun e => e.pool.idle.length).getD 0

end Session

/-- Do one thing after the other with an engine that is set up in an empty world, and tell what comes
    of each, and how many contexts are idle in the end. -/
def Setup.serve (s : Setup) (sources : Sources) (os : List Operation) (fuel : Nat) :
    Performed ViewError (List Outcome × Nat) :=
  match World.createEngine fuel { sources } [] s with
  | (none, _) => none
  | (some (.error e), _) => some (.error e)
  | (some (.ok engine), _, world) =>
    (Session.performAll fuel engine os { world }).map fun x => .ok (x.1, x.2.idleContexts engine)

/-- Whether something comes out, given enough steps. -/
def EndsAs {α : Type} (f : Nat → Option α) (a : α) : Prop :=
  ∃ n, ∀ fuel, n ≤ fuel → f fuel = some a

theorem EndsAs.unique {α : Type} {f : Nat → Option α} {a b : α} (ha : EndsAs f a)
    (hb : EndsAs f b) : a = b := by
  obtain ⟨n, hn⟩ := ha
  obtain ⟨m, hm⟩ := hb
  exact Option.some.inj ((hn _ (Nat.le_max_left n m)).symm.trans (hm _ (Nat.le_max_right n m)))

theorem endsAs_some {α : Type} (a : α) : EndsAs (fun _ => some a) a :=
  ⟨0, fun _ _ => rfl⟩

/-! ## Renders -/

namespace World

/-- The request of a render from outside. -/
def rootRequest (engine view sink : Nat) (attributes : List (String × Value))
    (children : Option String) : Request :=
  { engine, view, sink, attributes, children }

/-- The machine as it starts with a render, and the world without what is on the heap. -/
def renderStart (w : World) (engine view sink : Nat) (attributes : List (String × Json))
    (children : Option String) : State Bridge World Pending :=
  let (values, w) := w.importAttributes 0 attributes
  Script.Host.start (Render.start 0 (rootRequest engine view sink values children) (w.heapOf 0)
    (w.modifyRuntime 0 fun rt => { rt with heap := {} }))

/-- Whether a render fails and why. -/
def resultOf : Except RaisedError (List Value) → Except ViewError Unit
  | .ok _ => .ok ()
  | .error cause => .error (viewErrorOf cause)

/-- What comes of the machine's work on a render. -/
def renderEnd (t : State Bridge World Pending) : Performed ViewError Unit × World :=
  (t.outcome?.map resultOf, t.world.modifyRuntime 0 fun rt => { rt with heap := t.heap })

variable {w : World}

theorem render_eq_renderEnd {engine : Nat} (hruntime : w.runtimeOf engine = 0) (fuel view sink : Nat)
    (attributes : List (String × Json)) (children : Option String) :
    w.render fuel engine view sink attributes children
      = renderEnd ((w.renderStart engine view sink attributes children).run Render.host fuel) := by
  have hengine : (w.engines[engine]?.map Engine.runtime).getD 0 = 0 := hruntime
  unfold World.render
  simp only [hengine]
  rfl

/-- A render that ends does so with any number of steps from some number on. -/
theorem render_of_reaches {engine view sink : Nat} (hruntime : w.runtimeOf engine = 0)
    {attributes : List (String × Json)} {children : Option String} {t : State Bridge World Pending}
    {o : Except RaisedError (List Value)}
    (hr : Reaches Render.host (w.renderStart engine view sink attributes children) t)
    (ho : t.outcome? = some o) :
    ∃ n, ∀ fuel, n ≤ fuel → w.render fuel engine view sink attributes children = renderEnd t := by
  obtain ⟨n, hn⟩ := Script.State.run_of_reaches hr ho
  exact ⟨n, fun fuel hfuel => by rw [render_eq_renderEnd hruntime, hn fuel hfuel]⟩

/-- So what it comes to within some steps is what it comes to within more. -/
theorem render_of_some {fuel engine view sink : Nat} {attributes : List (String × Json)}
    {children : Option String} {r : Except ViewError Unit} {w₁ : World}
    (h : w.render fuel engine view sink attributes children = (some r, w₁)) :
    ∃ n, ∀ fuel, n ≤ fuel → w.render fuel engine view sink attributes children = (some r, w₁) := by
  unfold World.render World.perform Script.Host.perform at h ⊢
  dsimp only at h ⊢
  generalize Script.Host.start _ = s at h ⊢
  cases ho : (s.run Render.host fuel).outcome? with
  | none =>
    rw [ho] at h
    cases h
  | some o =>
    obtain ⟨n, hn⟩ := Script.State.run_of_reaches (Script.State.reaches_run fuel s) ho
    exact ⟨n, fun fuel hfuel => by rw [hn fuel hfuel, h]⟩

end World

/-! ## Values for attributes -/

namespace Script.Heap.Alike

variable {ω σ φ : Type} {L : Script.Likeness ω σ φ}

mutual

/-- A JSON value is put on both heaps. -/
theorem importJson {R : Matching} {h h' : Heap ω} (hh : Heap.Alike L R h h') (j : Json) :
    ∃ S, R.Grows S ∧ (h.importJson j).1.Alike S (h'.importJson j).1
      ∧ Heap.Alike L S (h.importJson j).2 (h'.importJson j).2 := by
  cases j with
  | null => exact ⟨R, .refl R, .nil, hh⟩
  | bool b => exact ⟨R, .refl R, .bool b, hh⟩
  | number written =>
    refine ⟨R, .refl R, ?_, hh⟩
    simp only [Heap.importJson, Script.importNumber]
    split
    · exact .number _
    · exact .number _
    · exact .nil
  | str s => exact ⟨R, .refl R, .ofString s, hh⟩
  | unpaired => exact ⟨R, .refl R, .nil, hh⟩
  | arr items =>
    obtain ⟨S, hg, hvalues, hheap⟩ := importItems hh items
    simp only [Heap.importJson]
    exact ⟨_, hg.trans Matching.grows_withTable, .table Matching.table_withTable,
      hheap.newTable { Script.Table.Alike.ofList hvalues with metatable := .some hheap.listMetatable }⟩
  | obj fields =>
    obtain ⟨S, hg, htable, hheap⟩ := importFields hh .empty fields
    simp only [Heap.importJson]
    exact ⟨_, hg.trans Matching.grows_withTable, .table Matching.table_withTable,
      hheap.newTable htable⟩

theorem importItems {R : Matching} {h h' : Heap ω} (hh : Heap.Alike L R h h') (js : List Json) :
    ∃ S, R.Grows S ∧ ValuesAlike S (h.importItems js).1 (h'.importItems js).1
      ∧ Heap.Alike L S (h.importItems js).2 (h'.importItems js).2 := by
  cases js with
  | nil => exact ⟨R, .refl R, .nil, hh⟩
  | cons j js =>
    obtain ⟨S, hg, hv, hheap⟩ := importJson hh j
    obtain ⟨T, hg', hvs, hheap'⟩ := importItems hheap js
    simp only [Heap.importItems]
    exact ⟨T, hg.trans hg', .cons (hv.mono hg') hvs, hheap'⟩

theorem importFields {R : Matching} {h h' : Heap ω} (hh : Heap.Alike L R h h')
    {t t' : Script.Table} (ht : t.Alike R t') (fields : List (String × Json)) :
    ∃ S, R.Grows S ∧ (h.importFields t fields).1.Alike S (h'.importFields t' fields).1
      ∧ Heap.Alike L S (h.importFields t fields).2 (h'.importFields t' fields).2 := by
  cases fields with
  | nil => exact ⟨R, .refl R, ht, hh⟩
  | cons field fields =>
    obtain ⟨name, j⟩ := field
    obtain ⟨S, hg, hv, hheap⟩ := importJson hh j
    obtain ⟨T, hg', htable, hheap'⟩ :=
      importFields hheap ((ht.mono hg).setText hheap.faithful (Script.utf8 name) hv) fields
    simp only [Heap.importFields]
    exact ⟨T, hg.trans hg', htable, hheap'⟩

end

end Script.Heap.Alike

/-! ## Worlds with their heaps -/

/-- Whether two worlds are alike, and so are the heaps of their first runtimes. -/
structure World.Paired (W : WorldLikeness) (R : Matching) (w w' : World) : Prop where
  heap : Heap.Alike W.likeness R (w.heapOf 0) (w'.heapOf 0)
  world : W.world R w w'

/-- Whether the heaps of the first runtimes of worlds that are alike can be taken and put back. -/
structure WorldLikeness.Hosts (W : WorldLikeness) : Prop where
  runs : ∀ {R w w'}, W.world R w w' → 0 < w.runtimes.size ∧ 0 < w'.runtimes.size
  modifyRuntime : ∀ {R w w'}, W.world R w w' → ∀ f f' : Runtime → Runtime,
    W.world R (w.modifyRuntime 0 f) (w'.modifyRuntime 0 f')

namespace World.Paired

variable {W : WorldLikeness} {asked : List (Script.Frame Pending) → State Bridge World Pending → Prop}
  {R : Matching} {w w' w₁ w₁' : World}

theorem withHeaps (hW : W.Hosts) {h h' : BridgeHeap} (hw : W.world R w w')
    (hh : Heap.Alike W.likeness R h h') :
    World.Paired W R (w.modifyRuntime 0 fun rt => { rt with heap := h })
      (w'.modifyRuntime 0 fun rt => { rt with heap := h' }) := by
  obtain ⟨hruns, hruns'⟩ := hW.runs hw
  refine ⟨?_, hW.modifyRuntime hw _ _⟩
  rwa [Expansion.heapOf_modifyRuntime hruns, Expansion.heapOf_modifyRuntime hruns']

variable (hp : World.Paired W R w w')

include hp

theorem importAttributes (hW : W.Hosts) (attributes : List (String × Json)) :
    ∃ S, AttributesAlike S (w.importAttributes 0 attributes).1 (w'.importAttributes 0 attributes).1
      ∧ World.Paired W S (w.importAttributes 0 attributes).2 (w'.importAttributes 0 attributes).2
      ∧ R.Grows S := by
  induction attributes generalizing w w' R with
  | nil => exact ⟨R, .nil, hp, .refl R⟩
  | cons e attributes ih =>
    obtain ⟨name, j⟩ := e
    obtain ⟨S, hg, hv, hheap⟩ := hp.heap.importJson j
    have hnext := withHeaps hW (W.mono hg hp.world) hheap
    obtain ⟨T, has, hpaired, hg'⟩ := ih hnext
    exact ⟨T, .cons ⟨rfl, hv.mono hg'⟩ has, hpaired, hg.trans hg'⟩

theorem addSink (hW : W.Keeps asked) (sink : Sink) :
    World.Paired W R (w.addSink sink).2 (w'.addSink sink).2 := by
  refine ⟨hp.heap, ?_⟩
  simp only [World.addSink, ← hW.sinks hp.world]
  exact hW.withSinks hp.world _

section Render

variable {engine sink i j : Nat} {attributes : List (String × Json)} {children : Option String}

/-- Two machines start with renders of views that may stand for each other. -/
theorem follows_renderStart (hW : W.Hosts) (hkeeps : W.Keeps asked)
    (hview : ∀ {S u u'}, W.world S u u' → u.views = w.views → u'.views = w'.views →
      W.world (S.withHosted i j) u u')
    (ha : asked [] (w.renderStart engine i sink attributes children)) :
    Follows Render.host W.likeness (w.renderStart engine i sink attributes children)
      (w'.renderStart engine j sink attributes children) := by
  obtain ⟨S, has, hpaired, -⟩ := hp.importAttributes hW attributes
  have hviews := (w.importAttributes_same 0 attributes).2.1
  have hviews' := (w'.importAttributes_same 0 attributes).2.1
  unfold World.renderStart at ha ⊢
  generalize w.importAttributes 0 attributes = x at has hpaired hviews ha ⊢
  generalize w'.importAttributes 0 attributes = x' at has hpaired hviews' ⊢
  obtain ⟨values, w₁⟩ := x
  obtain ⟨values', w₁'⟩ := x'
  have hworld := hW.modifyRuntime (hview hpaired.world hviews hviews')
    (fun rt => { rt with heap := {} }) fun rt => { rt with heap := {} }
  have hs : State.Alike W.likeness (S.withHosted i j)
      { heap := w₁.heapOf 0
        world := w₁.modifyRuntime 0 fun rt => { rt with heap := {} }
        stack := []
        control := .finished }
      { heap := w₁'.heapOf 0
        world := w₁'.modifyRuntime 0 fun rt => { rt with heap := {} }
        stack := []
        control := .finished } :=
    ⟨hpaired.heap.withHosted i j, hworld, .nil, rfl, rfl⟩
  have hr : (rootRequest engine i sink values children).Alike (S.withHosted i j)
      (rootRequest engine j sink values' children) :=
    ⟨rfl, .inr ⟨rfl, rfl⟩, rfl, rfl, attributesAlike_mono Matching.widens_withHosted has, rfl⟩
  exact hkeeps.start (K := []) hs hr ha

variable (hW : W.Hosts) (hkeeps : W.Keeps asked) (hruntime : w.runtimeOf engine = 0)
  (hruntime' : w'.runtimeOf engine = 0)
  (hq : Quiet Render.host asked (w.renderStart engine i sink attributes children))
  (hfollows : Follows Render.host W.likeness (w.renderStart engine i sink attributes children)
    (w'.renderStart engine j sink attributes children))

omit hp

include hkeeps hruntime hruntime' hq hfollows

include hW in
/-- The second of two renders ends as the first one does. -/
theorem render {fuel : Nat} {r : Except ViewError Unit}
    (h : w.render fuel engine i sink attributes children = (some r, w₁)) :
    ∃ n w₁' S, World.Paired W S w₁ w₁'
      ∧ ∀ fuel, n ≤ fuel → w'.render fuel engine j sink attributes children = (some r, w₁') := by
  rw [render_eq_renderEnd hruntime] at h
  have hreaches : Reaches Render.host _ _ := Script.State.reaches_run fuel
    (w.renderStart engine i sink attributes children)
  generalize (w.renderStart engine i sink attributes children).run Render.host fuel = t at h hreaches
  cases ho : t.outcome? with
  | none =>
    rw [World.renderEnd, ho] at h
    cases h
  | some o =>
    obtain ⟨t', o', S, hreaches', ho', halike, hmatches⟩ :=
      hfollows.ends hkeeps.respects hq hreaches ho
    obtain ⟨n, hn⟩ := render_of_reaches hruntime' hreaches' ho'
    have hpaired := withHeaps hW hmatches.rest.world hmatches.rest.heap
    have hresult : resultOf o = resultOf o' := by
      cases halike <;> rfl
    rw [World.renderEnd, ho, Option.map_some, Prod.mk.injEq, Option.some.injEq] at h
    obtain ⟨rfl, rfl⟩ := h
    refine ⟨n, _, S, hpaired, fun fuel hfuel => ?_⟩
    rw [hn fuel hfuel, World.renderEnd, ho', Option.map_some, hresult]

/-- The first of two renders ends if the second one does. -/
theorem render_ends {fuel : Nat} {r' : Except ViewError Unit}
    (h : w'.render fuel engine j sink attributes children = (some r', w₁')) :
    ∃ n r w₁, w.render n engine i sink attributes children = (some r, w₁) := by
  rw [render_eq_renderEnd hruntime'] at h
  have hreaches : Reaches Render.host _ _ := Script.State.reaches_run fuel
    (w'.renderStart engine j sink attributes children)
  generalize (w'.renderStart engine j sink attributes children).run Render.host fuel = t' at h hreaches
  cases ho : t'.outcome? with
  | none =>
    rw [World.renderEnd, ho] at h
    cases h
  | some o' =>
    obtain ⟨t, o, hreaches', ho'⟩ := hfollows.ended hkeeps.respects hq hreaches ho
    obtain ⟨n, hn⟩ := render_of_reaches hruntime hreaches' ho'
    exact ⟨n, _, _, by rw [hn n (Nat.le_refl n), World.renderEnd, ho']; rfl⟩

end Render

end World.Paired

/-! ## Sessions -/

/-- Whether an engine does whatever it is asked to do alike in worlds that make a pair, if its renders
    start as is asked of them. Which of the views that have been loaded stand for each other is told
    besides. -/
structure World.Pairing (engine : Nat) (asked : State Bridge World Pending → Prop)
    (pair : (Nat → Nat → Prop) → World → World → Prop) : Prop where
  sinks : ∀ {held w w'}, pair held w w' → w.sinks = w'.sinks
  addSink : ∀ {held w w'}, pair held w w' → ∀ sink, pair held (w.addSink sink).2 (w'.addSink sink).2
  load : ∀ {held w w'}, pair held w w' → ∀ uri : String,
    ExceptAlike (fun r r' => pair (fun x y => held x y ∨ x = r.1 ∧ y = r'.1) r.2 r'.2
        ∧ r.2.views[r.1]?.map View.unprepared = r'.2.views[r'.1]?.map View.unprepared)
      (w.load engine uri) (w'.load engine uri)
  clearCache : ∀ {held w w'}, pair held w w' →
    pair held (w.clearCache engine) (w'.clearCache engine)
  render : ∀ {held w w' w₁ i j sink attributes children fuel r}, pair held w w' → held i j →
    asked (w.renderStart engine i sink attributes children) →
    w.render fuel engine i sink attributes children = (some r, w₁) →
    ∃ n w₁', pair held w₁ w₁'
      ∧ ∀ fuel, n ≤ fuel → w'.render fuel engine j sink attributes children = (some r, w₁')
  render_ends : ∀ {held w w' w₁' i j sink attributes children fuel r'}, pair held w w' → held i j →
    asked (w.renderStart engine i sink attributes children) →
    w'.render fuel engine j sink attributes children = (some r', w₁') →
    ∃ n r w₁, w.render n engine i sink attributes children = (some r, w₁)

namespace Session

variable {engine : Nat} {s s₁ s' : Session} {o : Operation} {os : List Operation}
  {asked : State Bridge World Pending → Prop} {pair : (Nat → Nat → Prop) → World → World → Prop}

/-- Whether the machine starts with an operation as is asked of it. -/
def Meets (asked : State Bridge World Pending → Prop) (engine : Nat) (s : Session) :
    Operation → Prop
  | .render view attributes children limit => ∀ i, s.loaded[view]? = some i →
    asked ((s.world.addSink { limit }).2.renderStart engine i (s.world.addSink { limit }).1 attributes
      children)
  | _ => True

/-- Whether the machine starts with one operation after the other as is asked of it. -/
def MeetsAll (asked : State Bridge World Pending → Prop) (engine : Nat) :
    List Operation → Session → Prop
  | [], _ => True
  | o :: os, s => s.Meets asked engine o
    ∧ ∀ r s₁, EndsAs (fun fuel => s.perform fuel engine o) (r, s₁) → MeetsAll asked engine os s₁

/-- What comes of an operation within some steps is what comes of it within more. -/
theorem perform_of_some {fuel : Nat} {x : Outcome × Session}
    (h : s.perform fuel engine o = some x) : EndsAs (fun fuel => s.perform fuel engine o) x := by
  cases o with
  | load uri => exact ⟨0, fun _ _ => h⟩
  | clearCache => exact ⟨0, fun _ _ => h⟩
  | render view attributes children limit =>
    simp only [perform] at h ⊢
    cases hview : s.loaded[view]? with
    | none =>
      rw [hview] at h
      exact ⟨0, fun _ _ => h⟩
    | some i =>
      rw [hview] at h
      simp only at h ⊢
      cases hrender : (s.world.addSink { limit }).2.render fuel engine i
          (s.world.addSink { limit }).1 attributes children with
      | mk r w₁ =>
        rw [hrender] at h
        cases r with
        | none => cases h
        | some r =>
          obtain ⟨n, hn⟩ := World.render_of_some hrender
          exact ⟨n, fun fuel hfuel => by simp only [hn fuel hfuel]; exact h⟩

/-- What comes of all operations within some steps is what comes of them within more. -/
theorem performAll_of_some {fuel : Nat} {x : List Outcome × Session}
    (h : performAll fuel engine os s = some x) :
    EndsAs (fun fuel => performAll fuel engine os s) x := by
  induction os generalizing s x with
  | nil => exact ⟨0, fun _ _ => h⟩
  | cons o os ih =>
    simp only [performAll] at h
    cases hx : s.perform fuel engine o with
    | none =>
      rw [hx] at h
      cases h
    | some y =>
      obtain ⟨r, s₁⟩ := y
      rw [hx] at h
      obtain ⟨⟨rest, t⟩, hrest, rfl⟩ := Option.map_eq_some_iff.1 h
      obtain ⟨n, hn⟩ := perform_of_some hx
      obtain ⟨m, hm⟩ := ih hrest
      refine ⟨max n m, fun fuel hfuel => ?_⟩
      simp only [performAll, hn fuel (by omega), hm fuel (by omega), Option.map_some]

/-- Whether the machine starts with an operation as some check wants it. -/
def passes (check : State Bridge World Pending → Bool) (engine : Nat) (s : Session) :
    Operation → Bool
  | .render view attributes children limit => s.loaded[view]?.all fun i =>
    check ((s.world.addSink { limit }).2.renderStart engine i (s.world.addSink { limit }).1 attributes
      children)
  | _ => true

/-- Whether it starts with one operation after the other so, and each comes to an end within some
    steps. -/
def passesAll (check : State Bridge World Pending → Bool) (fuel engine : Nat) :
    List Operation → Session → Bool
  | [], _ => true
  | o :: os, s => s.passes check engine o
    && (s.perform fuel engine o).any fun x => passesAll check fuel engine os x.2

theorem meetsAll_of_passesAll {check : State Bridge World Pending → Bool}
    (hcheck : ∀ t, check t = true → asked t) {fuel : Nat}
    (h : passesAll check fuel engine os s = true) : MeetsAll asked engine os s := by
  induction os generalizing s with
  | nil => trivial
  | cons o os ih =>
    obtain ⟨hfirst, hlater⟩ := Bool.and_eq_true_iff.1 h
    refine ⟨?_, fun r s₁ hends => ?_⟩
    · cases o with
      | render view attributes children limit =>
        intro i hi
        rw [passes, hi, Option.all_some] at hfirst
        exact hcheck _ hfirst
      | _ => trivial
    · obtain ⟨x, hx, hrest⟩ := (Option.any_eq_true _ _).1 hlater
      obtain rfl : x = (r, s₁) := (perform_of_some hx).unique hends
      exact ih hrest

/-- One operation after the other comes to an end if the first one does, and then the others. -/
theorem endsAs_performAll_cons {rs : List Outcome} {t : Session} :
    EndsAs (fun fuel => performAll fuel engine (o :: os) s) (rs, t)
      ↔ ∃ r s₁ rest, EndsAs (fun fuel => s.perform fuel engine o) (r, s₁)
        ∧ EndsAs (fun fuel => performAll fuel engine os s₁) (rest, t) ∧ rs = r :: rest := by
  constructor
  · rintro ⟨n, hn⟩
    have hfirst := hn n (Nat.le_refl n)
    simp only [performAll] at hfirst
    cases hx : s.perform n engine o with
    | none =>
      rw [hx] at hfirst
      cases hfirst
    | some x =>
      rw [hx] at hfirst
      obtain ⟨⟨rest, t₀⟩, hrest, heq⟩ := Option.map_eq_some_iff.1 hfirst
      obtain ⟨rfl, rfl⟩ := Prod.mk.inj heq
      exact ⟨x.1, x.2, rest, perform_of_some hx, performAll_of_some hrest, rfl⟩
  · rintro ⟨r, s₁, rest, ⟨n, hn⟩, ⟨m, hm⟩, rfl⟩
    refine ⟨max n m, fun fuel hfuel => ?_⟩
    simp only [performAll, hn fuel (by omega), hm fuel (by omega), Option.map_some]

/-- Whether the worlds of two sessions make a pair, and the views that have been loaded stand for each
    other. -/
def Paired (pair : (Nat → Nat → Prop) → World → World → Prop) (s s' : Session) : Prop :=
  ∃ held, pair held s.world s'.world ∧ List.Forall₂ held s.loaded s'.loaded

theorem optionRel_getElem? {α β : Type} {r : α → β → Prop} {xs : List α} {ys : List β}
    (h : List.Forall₂ r xs ys) (i : Nat) : Option.Rel r xs[i]? ys[i]? := by
  induction h generalizing i with
  | nil => exact .none
  | cons hxy _ ih =>
    cases i with
    | zero => exact .some hxy
    | succ i => exact ih i

section Perform

variable (hpair : World.Pairing engine asked pair) (hp : s.Paired pair s')

include hpair hp

/-- The same comes of an operation, and the sessions stay alike. -/
theorem Paired.perform {r : Outcome} (hq : s.Meets asked engine o)
    (h : EndsAs (fun fuel => s.perform fuel engine o) (r, s₁)) :
    ∃ s₁', s₁.Paired pair s₁' ∧ EndsAs (fun fuel => s'.perform fuel engine o) (r, s₁') := by
  obtain ⟨held, hworlds, hloaded⟩ := hp
  obtain ⟨n, hn⟩ := h
  have hfirst := hn n (Nat.le_refl n)
  cases o with
  | load uri =>
    have hload := hpair.load hworlds uri
    simp only [Session.perform] at hfirst ⊢
    generalize s.world.load engine uri = x at hload hfirst
    generalize s'.world.load engine uri = x' at hload ⊢
    cases hload with
    | error e =>
      rw [Option.some.injEq, Prod.mk.injEq] at hfirst
      obtain ⟨rfl, rfl⟩ := hfirst
      exact ⟨s', ⟨held, hworlds, hloaded⟩, endsAs_some _⟩
    | @ok x x' hpaired =>
      obtain ⟨view, w⟩ := x
      obtain ⟨view', w'⟩ := x'
      obtain ⟨hpaired, hview⟩ := hpaired
      rw [Option.some.injEq, Prod.mk.injEq] at hfirst
      obtain ⟨rfl, rfl⟩ := hfirst
      refine ⟨{ world := w', loaded := s'.loaded ++ [view'] }, ⟨_, hpaired, ?_⟩, ?_⟩
      · exact List.rel_append (hloaded.imp fun _ _ => .inl) (.cons (.inr ⟨rfl, rfl⟩) .nil)
      · simp only [hview]
        exact endsAs_some _
  | clearCache =>
    simp only [Session.perform, Option.some.injEq, Prod.mk.injEq] at hfirst
    obtain ⟨rfl, rfl⟩ := hfirst
    exact ⟨{ s' with world := s'.world.clearCache engine },
      ⟨held, hpair.clearCache hworlds, hloaded⟩, endsAs_some _⟩
  | render view attributes children limit =>
    simp only [Session.perform] at hfirst ⊢
    have hview := optionRel_getElem? hloaded view
    cases hi : s.loaded[view]? <;> cases hj : s'.loaded[view]? <;> rw [hi, hj] at hview <;>
      cases hview
    · rw [hi, Option.some.injEq, Prod.mk.injEq] at hfirst
      obtain ⟨rfl, rfl⟩ := hfirst
      exact ⟨s', ⟨held, hworlds, hloaded⟩, endsAs_some _⟩
    · rename_i i j hheld
      rw [hi] at hfirst
      have hsink := hpair.addSink hworlds { limit }
      have hnumber : (s.world.addSink { limit }).1 = (s'.world.addSink { limit }).1 := by
        simp only [World.addSink, hpair.sinks hworlds]
      simp only at hfirst ⊢
      cases hrender : (s.world.addSink { limit }).2.render n engine i
          (s.world.addSink { limit }).1 attributes children with
      | mk r w₁ =>
        rw [hrender] at hfirst
        cases r with
        | none => cases hfirst
        | some r =>
          rw [Option.some.injEq, Prod.mk.injEq] at hfirst
          obtain ⟨rfl, rfl⟩ := hfirst
          obtain ⟨m, w₁', hpaired, hm⟩ := hpair.render hsink hheld (hq i hi) hrender
          refine ⟨{ s' with world := w₁' }, ⟨held, hpaired, hloaded⟩, m, fun fuel hfuel => ?_⟩
          rw [hnumber] at hm
          simp only [hm fuel hfuel, hnumber, hpair.sinks hpaired]

/-- An operation comes to an end if it does so in the other session. -/
theorem Paired.perform_ends {x' : Outcome × Session} (hq : s.Meets asked engine o)
    (h : EndsAs (fun fuel => s'.perform fuel engine o) x') :
    ∃ x, EndsAs (fun fuel => s.perform fuel engine o) x := by
  obtain ⟨held, hworlds, hloaded⟩ := hp
  obtain ⟨n, hn⟩ := h
  have hfirst := hn n (Nat.le_refl n)
  cases o with
  | load uri =>
    simp only [Session.perform]
    cases s.world.load engine uri <;> exact ⟨_, endsAs_some _⟩
  | clearCache => exact ⟨_, endsAs_some _⟩
  | render view attributes children limit =>
    simp only [Session.perform] at hfirst ⊢
    have hview := optionRel_getElem? hloaded view
    cases hi : s.loaded[view]? <;> cases hj : s'.loaded[view]? <;> rw [hi, hj] at hview <;>
      cases hview
    · exact ⟨_, endsAs_some _⟩
    · rename_i i j hheld
      rw [hj] at hfirst
      have hsink := hpair.addSink hworlds { limit }
      have hnumber : (s.world.addSink { limit }).1 = (s'.world.addSink { limit }).1 := by
        simp only [World.addSink, hpair.sinks hworlds]
      simp only at hfirst ⊢
      cases hrender : (s'.world.addSink { limit }).2.render n engine j
          (s'.world.addSink { limit }).1 attributes children with
      | mk r w₁ =>
        rw [hrender] at hfirst
        cases r with
        | none => cases hfirst
        | some r =>
          rw [← hnumber] at hrender
          obtain ⟨m, r, w₁, hm⟩ := hpair.render_ends hsink hheld (hq i hi) hrender
          obtain ⟨m, hm⟩ := World.render_of_some hm
          exact ⟨_, m, fun fuel hfuel => by simp only [hm fuel hfuel]; rfl⟩

/-- The same comes of one operation after the other, and the sessions stay alike. -/
theorem Paired.performAll (hq : MeetsAll asked engine os s) {rs : List Outcome} {t : Session}
    (h : EndsAs (fun fuel => performAll fuel engine os s) (rs, t)) :
    ∃ t', t.Paired pair t' ∧ EndsAs (fun fuel => Session.performAll fuel engine os s') (rs, t') := by
  induction os generalizing s s' rs with
  | nil =>
    obtain ⟨rfl, rfl⟩ := Prod.mk.inj (h.unique (endsAs_some _))
    exact ⟨s', hp, endsAs_some _⟩
  | cons o os ih =>
    obtain ⟨hquiet, hlater⟩ := hq
    obtain ⟨r, s₁, rest, hfirst, hrest, rfl⟩ := endsAs_performAll_cons.1 h
    obtain ⟨s₁', hp₁, hfirst'⟩ := hp.perform hpair hquiet hfirst
    obtain ⟨t', ht, hrest'⟩ := ih hp₁ (hlater r s₁ hfirst) hrest
    exact ⟨t', ht, endsAs_performAll_cons.2 ⟨r, s₁', rest, hfirst', hrest', rfl⟩⟩

/-- One operation after the other comes to an end if it does so in the other session. -/
theorem Paired.performAll_ends (hq : MeetsAll asked engine os s) {x' : List Outcome × Session}
    (h : EndsAs (fun fuel => Session.performAll fuel engine os s') x') :
    ∃ x, EndsAs (fun fuel => Session.performAll fuel engine os s) x := by
  induction os generalizing s s' x' with
  | nil => exact ⟨_, endsAs_some _⟩
  | cons o os ih =>
    obtain ⟨hquiet, hlater⟩ := hq
    obtain ⟨r', s₁', rest, hfirst', hrest, -⟩ := endsAs_performAll_cons.1 h
    obtain ⟨⟨r, s₁⟩, hfirst⟩ := hp.perform_ends hpair hquiet hfirst'
    obtain ⟨s₂', hp₁, hsame⟩ := hp.perform hpair hquiet hfirst
    obtain ⟨rfl, rfl⟩ := Prod.mk.inj (hsame.unique hfirst')
    obtain ⟨⟨rs, t⟩, hlast⟩ := ih hp₁ (hlater r s₁ hfirst) hrest
    exact ⟨_, endsAs_performAll_cons.2 ⟨r, s₁, rs, hfirst, hlast, rfl⟩⟩

/-- So what comes of it in the other session comes of it in this one. -/
theorem Paired.performAll_back (hq : MeetsAll asked engine os s) {rs : List Outcome} {t' : Session}
    (h : EndsAs (fun fuel => Session.performAll fuel engine os s') (rs, t')) :
    ∃ t, t.Paired pair t' ∧ EndsAs (fun fuel => Session.performAll fuel engine os s) (rs, t) := by
  obtain ⟨⟨rs₁, t⟩, hends⟩ := hp.performAll_ends hpair hq h
  obtain ⟨t₁', hpaired, hsame⟩ := hp.performAll hpair hq hends
  obtain ⟨rfl, rfl⟩ := Prod.mk.inj (hsame.unique h)
  exact ⟨t, hpaired, hends⟩

end Perform

end Session

end ScriptedViews

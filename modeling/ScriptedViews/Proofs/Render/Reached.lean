import ScriptedViews.Proofs.Render.Engines

set_option autoImplicit false

/-! # Worlds that calls lead to

The worlds that come out of the empty one by calls from outside that have come to an end, whatever
came of them: engines are made and let go, views are loaded and rendered. All of them are settled, and
contexts are apart in them if the code that makes contexts has always found what it needs. -/

namespace ScriptedViews

open Expansion (FindsMaker)
open Script (State)

namespace World

variable {w w' : World}

/-! ## Calls without code -/

/-- Views, sinks and sources have nothing to do with contexts. -/
theorem Settled.congr (hw : w.Settled) (hengines : w'.engines = w.engines)
    (hruntimes : w'.runtimes = w.runtimes) : w'.Settled := by
  have hheap (runtime : Nat) : w'.heapOf runtime = w.heapOf runtime := by
    rw [heapOf, heapOf, hruntimes]
  refine ⟨fun i e he => ?_, fun i e he => ?_, fun runtime hruntime => ?_⟩
  · rw [hruntimes]
    exact hw.runtimes i e (hengines ▸ he)
  · exact hw.pools i e (hengines ▸ he)
  · rw [hheap]
    exact (hw.proper runtime (hruntimes ▸ hruntime)).congr hengines

theorem IsApart.congr (h : w.IsApart) (hidle : ∀ runtime, w'.idle runtime = w.idle runtime)
    (hruntimes : w'.runtimes = w.runtimes) : w'.IsApart := by
  intro runtime hruntime
  have hheap : w'.heapOf runtime = w.heapOf runtime := by rw [heapOf, heapOf, hruntimes]
  refine (h runtime (hruntimes ▸ hruntime)).congr ?_ (Nat.le_of_eq (by rw [hheap]))
  exact congrArg ([] ++ ·) (hidle runtime)

/-- An engine is changed in its views, or in who holds it. -/
theorem Settled.modifyEngine (hw : w.Settled) (i : Nat) {f : Engine → Engine}
    (hf : ∀ e, (f e).runtime = e.runtime ∧ (f e).pool = e.pool) : (w.modifyEngine i f).Settled := by
  have hengine (j : Nat) (e' : Engine) (he' : (w.modifyEngine i f).engines[j]? = some e') :
      ∃ e, w.engines[j]? = some e ∧ e'.runtime = e.runtime ∧ e'.pool = e.pool := by
    rw [getElem?_modifyEngine] at he'
    split at he'
    · obtain ⟨e, he, rfl⟩ := Option.map_eq_some_iff.1 he'
      exact ⟨e, he, hf e⟩
    · exact ⟨e', he', rfl, rfl⟩
  refine ⟨fun j e' he' => ?_, fun j e' he' => ?_, fun runtime hruntime => ?_⟩
  · obtain ⟨e, he, hr, -⟩ := hengine j e' he'
    exact hr ▸ hw.runtimes j e he
  · obtain ⟨e, he, -, hp⟩ := hengine j e' he'
    exact hp ▸ hw.pools j e he
  · have hbefore := hw.proper runtime hruntime
    exact ⟨nofun, fun ref b hb => (hbefore.bridges ref b hb).modifyEngine i fun e => (hf e).1,
      hbefore.distinct⟩

theorem IsApart.modifyEngine (h : w.IsApart) (i : Nat) {f : Engine → Engine}
    (hf : ∀ e, (f e).runtime = e.runtime ∧ (f e).pool = e.pool) : (w.modifyEngine i f).IsApart :=
  h.congr (fun runtime => idle_modifyEngine fun e _ => by
    rw [Engine.idleOn, Engine.idleOn, (hf e).1, (hf e).2]) rfl

theorem Settled.load (hw : w.Settled) {engine view : Nat} {uri : String}
    (hl : w.load engine uri = .ok (view, w')) : w'.Settled := by
  obtain ⟨rfl, -⟩ | ⟨e, v, -, -, rfl, rfl⟩ := load_cases hl
  · exact hw
  · have hadd : (w.addView v).2.Settled := hw.congr rfl rfl
    split
    · exact hadd.modifyEngine engine fun _ => ⟨rfl, rfl⟩
    · exact hadd

theorem IsApart.load (h : w.IsApart) {engine view : Nat} {uri : String}
    (hl : w.load engine uri = .ok (view, w')) : w'.IsApart := by
  exact h.congr (idle_load hl) (load_leaves hl).1

/-- A view that is put into the world changes none that there is. -/
theorem views_addView {j : Nat} {v : View} (hv : w.views[j]? = some v) (v' : View) :
    (w.addView v').2.views[j]? = some v := by
  have hlt := (Array.getElem?_eq_some_iff.1 hv).1
  rw [World.addView, Array.getElem?_push, if_neg (Nat.ne_of_lt hlt), hv]

/-- Nor does loading a view. -/
theorem views_load {engine view : Nat} {uri : String} (hl : w.load engine uri = .ok (view, w'))
    (j : Nat) (v : View) (hv : w.views[j]? = some v) : w'.views[j]? = some v := by
  obtain ⟨rfl, -⟩ | ⟨e, v', -, -, rfl, rfl⟩ := load_cases hl
  · exact hv
  · split <;> exact views_addView hv v'

/-- A view that is new is the one that is put into the world. -/
theorem eq_of_views_addView {j : Nat} {v v' : View} (hv : (w.addView v').2.views[j]? = some v) :
    w.views[j]? = some v ∨ v = v' := by
  rw [addView, Array.getElem?_push] at hv
  split at hv
  · exact .inr (Option.some.inj hv).symm
  · exact .inl hv

/-- A view that is loaded newly has not been prepared. -/
theorem unprepared_load {engine view : Nat} {uri : String}
    (hl : w.load engine uri = .ok (view, w')) (j : Nat) (v : View) (hv : w'.views[j]? = some v) :
    w.views[j]? = some v ∨ v.executable = none := by
  obtain ⟨rfl, -⟩ | ⟨e, v', -, hread, rfl, rfl⟩ := load_cases hl
  · exact .inl hv
  · have hadd : (w.addView v').2.views[j]? = some v := by
      split at hv <;> exact hv
    obtain h | rfl := eq_of_views_addView hadd
    · exact .inl h
    · exact .inr (Expansion.isRead_of_readView hread).executable

theorem views_viewFromSource {engine view : Nat} {uri text : String}
    (hv : w.viewFromSource engine uri text = .ok (view, w')) :
    ∃ v, View.compile engine uri text = .ok v ∧ w' = (w.addView v).2 := by
  unfold viewFromSource at hv
  cases hc : View.compile engine uri text with
  | error e => simp [hc, Except.map] at hv
  | ok v =>
    simp only [hc, Except.map, Except.ok.injEq] at hv
    exact ⟨v, rfl, (congrArg Prod.snd hv).symm⟩

/-! ## Renders from outside -/

/-- The world when the values that are given for a render are on the heap. -/
def given (w : World) (engine : Nat) (attributes : List (String × Json)) : World :=
  (w.importAttributes (w.runtimeOf engine) attributes).2

/-- What is asked for from outside. -/
def requestOf (w : World) (engine view sink : Nat) (attributes : List (String × Json))
    (children : Option String) : Request :=
  { engine, view, sink, children
    attributes := (w.importAttributes (w.runtimeOf engine) attributes).1 }

/-- The machine as it starts with a render that is asked for from outside. -/
def rendering (w : World) (engine view sink : Nat) (attributes : List (String × Json))
    (children : Option String) : RenderState :=
  (w.given engine attributes).starting (w.runtimeOf engine)
    (Render.start 0 (w.requestOf engine view sink attributes children))

section Rendering

variable {engine : Nat} {e : Engine} (he : w.engines[engine]? = some e) (view sink : Nat)
  (attributes : List (String × Json)) (children : Option String)

include he

theorem runtimeOf_eq : w.runtimeOf engine = e.runtime := by
  rw [runtimeOf, he]
  rfl

/-- What a render from outside starts with does nothing but deeds of renders. -/
theorem does_rendering (makes : Scene → Nat → Prop) :
    Does e.runtime makes ((w.given engine attributes).sceneAt e.runtime) []
      (Render.start 0 (w.requestOf engine view sink attributes children)
        ((w.given engine attributes).heapOf e.runtime)
        ((w.given engine attributes).withoutHeap e.runtime)) := by
  refine .start 0 fun e' he' => ?_
  have hengine : (w.given engine attributes).engines[engine]? = some e := by
    rw [given, (importAttributes_same _ _ _).1, he]
  cases hengine.symm.trans he'
  rfl

theorem Settled.given (hw : w.Settled) : (w.given engine attributes).Settled
    ∧ e.runtime < (w.given engine attributes).runtimes.size
    ∧ (w.IsApart → (w.given engine attributes).IsApart) := by
  rw [World.given, runtimeOf_eq he]
  have hlt := hw.runtimes engine e he
  obtain ⟨hsettled, hsize, happart⟩ := hw.importAttributes hlt attributes
  exact ⟨hsettled, hsize ▸ hlt, happart⟩

/-- Every state of a render comes from its start by deeds. -/
theorem Settled.underway (hw : w.Settled) (n : Nat) :
    Underway e.runtime (fun _ _ => True) ((w.given engine attributes).sceneAt e.runtime)
      ((w.rendering engine view sink attributes children).stepMany Render.host n) := by
  obtain ⟨hgiven, hlt, -⟩ := hw.given he attributes
  rw [rendering, runtimeOf_eq he]
  exact (underway_starting (hgiven.properAt hlt)
    (does_rendering he view sink attributes children _)).stepMany (hgiven.properAt hlt) n
      fun _ _ _ _ _ _ _ _ _ => trivial

/-- Contexts stay apart while it runs if the code that makes contexts finds what it needs. -/
theorem Settled.underwayApart (hw : w.Settled) (happart : w.IsApart) (n : Nat)
    (hmaker : ∀ m ≤ n,
      StartsMaking ((w.rendering engine view sink attributes children).stepMany Render.host m) →
        FindsMaker
          ((w.rendering engine view sink attributes children).stepMany Render.host m).heap) :
    UnderwayApart e.runtime ((w.given engine attributes).sceneAt e.runtime)
      ((w.rendering engine view sink attributes children).stepMany Render.host n) := by
  obtain ⟨hgiven, hlt, happart'⟩ := hw.given he attributes
  rw [rendering, runtimeOf_eq he] at hmaker ⊢
  exact (underwayApart_starting (hgiven.properAt hlt) ((happart' happart).at hlt)
    (does_rendering he view sink attributes children _) (hmaker 0 (Nat.zero_le n))).stepMany
      (hgiven.properAt hlt) ((happart' happart).at hlt) n hmaker

/-- A render that has come to an end has been performed. -/
theorem perform_of_render {fuel : Nat} {r : Except ViewError Unit}
    (h : w.render fuel engine view sink attributes children = (some r, w')) :
    ∃ o, (w.given engine attributes).perform fuel e.runtime
      (Render.start 0 (w.requestOf engine view sink attributes children)) = (some o, w') := by
  obtain ⟨o, ho, -⟩ := Option.map_eq_some_iff.1 (congrArg Prod.fst h)
  have hworld := congrArg Prod.snd h
  rw [← runtimeOf_eq he]
  exact ⟨o, Prod.ext ho hworld⟩

theorem Settled.render (hw : w.Settled) {fuel : Nat} {r : Except ViewError Unit}
    (h : w.render fuel engine view sink attributes children = (some r, w')) : w'.Settled := by
  obtain ⟨hgiven, hlt, -⟩ := hw.given he attributes
  obtain ⟨o, ho⟩ := perform_of_render he view sink attributes children h
  exact (hgiven.perform hlt (does_rendering he view sink attributes children _) ho).1

/-- Every state of a render has the table of the global variables where it was. -/
theorem Settled.globals_rendering (hw : w.Settled) (n : Nat) :
    ((w.rendering engine view sink attributes children).stepMany Render.host n).heap.globals
      = (w.heapOf e.runtime).globals := by
  refine (Deeds.stays (hw.underway he view sink attributes children n).deeds).1.trans ?_
  rw [sceneAt, World.given, runtimeOf_eq he]
  exact globals_importAttributes (hw.runtimes engine e he) attributes

/-- A render leaves the engine with its runtime, all views, and the table of the global variables where
    it was. -/
theorem Settled.render_stays (hw : w.Settled) {fuel : Nat} {r : Except ViewError Unit}
    (h : w.render fuel engine view sink attributes children = (some r, w')) :
    w'.Has engine e.runtime ∧ w.views.size ≤ w'.views.size
      ∧ (w'.heapOf e.runtime).globals = (w.heapOf e.runtime).globals := by
  obtain ⟨hgiven, hlt, -⟩ := hw.given he attributes
  obtain ⟨hengines, hviews, -⟩ := w.importAttributes_same (w.runtimeOf engine) attributes
  obtain ⟨o, ho⟩ := perform_of_render he view sink attributes children h
  obtain ⟨n, hstack, rfl⟩ := exists_of_perform ho
  have hdeeds := (hw.underway he view sink attributes children n).deeds
  have hglobals := hw.globals_rendering he view sink attributes children n
  rw [rendering, runtimeOf_eq he] at hdeeds hglobals
  rw [sceneOf, hstack] at hdeeds
  obtain ⟨-, hheap, -⟩ := heapOf_after hlt hdeeds
  have hhas : (w.given engine attributes).Has engine e.runtime :=
    ⟨e, by rw [World.given, hengines, he], rfl⟩
  refine ⟨Deeds.has hdeeds hhas, ?_, by rw [hheap]; exact hglobals⟩
  have hsize : (w.given engine attributes).views.size = w.views.size := congrArg Array.size hviews
  exact hsize ▸ (Deeds.stays hdeeds).2

theorem Settled.apart_render (hw : w.Settled) (happart : w.IsApart)
    (hmaker : ∀ n,
      StartsMaking ((w.rendering engine view sink attributes children).stepMany Render.host n) →
        FindsMaker
          ((w.rendering engine view sink attributes children).stepMany Render.host n).heap)
    {fuel : Nat} {r : Except ViewError Unit}
    (h : w.render fuel engine view sink attributes children = (some r, w')) : w'.IsApart := by
  obtain ⟨hgiven, hlt, happart'⟩ := hw.given he attributes
  obtain ⟨o, ho⟩ := perform_of_render he view sink attributes children h
  rw [rendering, runtimeOf_eq he] at hmaker
  exact hgiven.perform_apart hlt (happart' happart)
    (does_rendering he view sink attributes children _) hmaker ho

end Rendering

/-! ## Any calls -/

/-- Whether a world comes out of the empty one by calls from outside that have come to an end. What
    is known of the heap when a context starts being made is `P`. -/
inductive Reached (P : BridgeHeap → Prop) : World → Prop
  | start : Reached P {}
  | sources {w : World} (h : Reached P w) (sources : Sources) : Reached P { w with sources }
  | sink {w : World} (h : Reached P w) (s : Sink) : Reached P (w.addSink s).2
  /-- An engine is made, with a runtime that is new or one of a registry, or fails to be. -/
  | engine {w w' : World} (h : Reached P w) {registry registry' : Registry} {s : Setup}
      (hregistry : ∀ e ∈ registry, e.2 < w.runtimes.size)
      (hmaker : ∀ runtime registry₁ w₁, w.runtimeFor registry s.config.language
        = .ok (runtime, registry₁, w₁) → 0 < s.config.contextPoolCapacity →
          P (w₁.heapOf runtime))
      {fuel : Nat} {r : Except ViewError Nat}
      (hend : w.createEngine fuel registry s = (some r, registry', w')) : Reached P w'
  | release {w : World} (h : Reached P w) (engine : Nat) : Reached P (w.release engine)
  | load {w w' : World} (h : Reached P w) {engine view : Nat} {uri : String}
      (hend : w.load engine uri = .ok (view, w')) : Reached P w'
  | source {w w' : World} (h : Reached P w) {engine view : Nat} {uri text : String}
      (hend : w.viewFromSource engine uri text = .ok (view, w')) : Reached P w'
  | clear {w : World} (h : Reached P w) (engine : Nat) : Reached P (w.clearCache engine)
  /-- A view is rendered, which succeeds or fails. -/
  | render {w w' : World} (h : Reached P w) {engine view sink : Nat} {e : Engine}
      {attributes : List (String × Json)} {children : Option String}
      (he : w.engines[engine]? = some e)
      (hmaker : ∀ n,
        StartsMaking ((w.rendering engine view sink attributes children).stepMany Render.host n) →
          P ((w.rendering engine view sink attributes children).stepMany Render.host n).heap)
      {fuel : Nat} {r : Except ViewError Unit}
      (hend : w.render fuel engine view sink attributes children = (some r, w')) : Reached P w'

namespace Reached

variable {P : BridgeHeap → Prop}

theorem settled (h : Reached P w) : w.Settled := by
  induction h with
  | start =>
    exact ⟨fun i e he => by simp at he, fun i e he => by simp at he, fun runtime hruntime => by
      simp at hruntime⟩
  | sources h sources ih => exact ih.congr rfl rfl
  | sink h s ih => exact ih.congr rfl rfl
  | engine h hregistry hmaker hend ih => exact ih.createEngine hregistry hend
  | release h engine ih => exact ih.modifyEngine engine fun _ => ⟨rfl, rfl⟩
  | load h hend ih => exact ih.load hend
  | source h hend ih =>
    obtain ⟨v, -, rfl⟩ := views_viewFromSource hend
    exact ih.congr rfl rfl
  | clear h engine ih => exact ih.modifyEngine engine fun _ => ⟨rfl, rfl⟩
  | render h he hmaker hend ih => exact ih.render he _ _ _ _ hend

theorem apart (h : Reached P w) (hP : ∀ heap, P heap → FindsMaker heap) : w.IsApart := by
  induction h with
  | start => exact fun runtime hruntime => absurd hruntime (Nat.not_lt_zero _)
  | sources h sources ih => exact ih.congr (fun _ => rfl) rfl
  | sink h s ih => exact ih.congr (fun _ => rfl) rfl
  | engine h hregistry hmaker hend ih =>
    exact h.settled.apart_createEngine ih hregistry
      (fun runtime registry₁ w₁ hr hlt => hP _ (hmaker runtime registry₁ w₁ hr hlt)) hend
  | release h engine ih => exact ih.modifyEngine engine fun _ => ⟨rfl, rfl⟩
  | load h hend ih => exact ih.load hend
  | source h hend ih =>
    obtain ⟨v, -, rfl⟩ := views_viewFromSource hend
    exact ih.congr (fun _ => rfl) rfl
  | clear h engine ih => exact ih.modifyEngine engine fun _ => ⟨rfl, rfl⟩
  | render h he hmaker hend ih =>
    exact h.settled.apart_render he _ _ _ _ ih (fun n hs => hP _ (hmaker n hs)) hend

/-- Making an engine, which comes to an end, leads on. -/
theorem createEngine (h : Reached P w) {registry : Registry} {s : Setup}
    (hregistry : ∀ e ∈ registry, e.2 < w.runtimes.size)
    (hmaker : ∀ runtime registry₁ w₁, w.runtimeFor registry s.config.language
      = .ok (runtime, registry₁, w₁) → 0 < s.config.contextPoolCapacity → P (w₁.heapOf runtime))
    {fuel : Nat} {r : Except ViewError Nat} (hend : (w.createEngine fuel registry s).1 = some r) :
    Reached P (w.createEngine fuel registry s).2.2 := by
  rcases hmade : w.createEngine fuel registry s with ⟨o, registry', w'⟩
  rw [hmade] at hend
  cases hend
  exact h.engine hregistry hmaker hmade

end Reached

end World

end ScriptedViews

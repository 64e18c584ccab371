import ScriptedViews.Engine
import ScriptedViews.Proofs.Render.Calls

set_option autoImplicit false

/-! # Engines that serve plain views

From the start of an engine on, all its renders write what their views stand for. The heap of the
runtime is taken out of the world while code runs, and put back afterwards; what an engine serves is
a list of requests, one after the other, so that later ones find what earlier ones have left. -/

namespace ScriptedViews.Expansion

open Script (Bytes Value Heap State utf8 environmentName)
open Script.State

variable {views : Store} {engine : Nat} {base : Engine} {h h₁ : BridgeHeap} {w w₁ : World}
  {runtime : Nat}

/-! ## The heap of a runtime -/

theorem heapOf_modifyRuntime (hruntime : runtime < w.runtimes.size) (h : BridgeHeap) :
    (w.modifyRuntime runtime fun rt => { rt with heap := h }).heapOf runtime = h := by
  rw [World.heapOf, World.modifyRuntime, Array.getElem?_modify, if_pos rfl,
    Array.getElem?_eq_getElem hruntime]
  rfl

theorem modifyRuntime_modifyRuntime (w : World) (runtime : Nat) (f g : Runtime → Runtime) :
    (w.modifyRuntime runtime f).modifyRuntime runtime g
      = w.modifyRuntime runtime fun rt => g (f rt) := by
  have hmodify : (w.runtimes.modify runtime f).modify runtime g
      = w.runtimes.modify runtime fun rt => g (f rt) := by
    apply Array.ext_getElem?
    intro i
    simp only [Array.getElem?_modify]
    split <;> simp [Function.comp_def]
  simp only [World.modifyRuntime, hmodify]

/-- What the engine does on the heap of a runtime comes to its values, with enough fuel. -/
theorem perform_of_gives (turn : BridgeHeap → World → EngineTurn) {vs : List Value}
    (hgives : Gives 0 0 (turn (w.heapOf runtime)
      (w.modifyRuntime runtime fun rt => { rt with heap := {} })) h₁ w₁ vs) :
    ∃ n, ∀ fuel, n ≤ fuel → w.perform fuel runtime turn
      = (some (.ok vs), w₁.modifyRuntime runtime fun rt => { rt with heap := h₁ }) := by
  obtain ⟨n, hn⟩ := run_of_reaches (hgives []) rfl
  refine ⟨n, fun fuel hfuel => ?_⟩
  have hrun := hn fuel hfuel
  have hperform : Render.host.perform fuel (turn (w.heapOf runtime)
      (w.modifyRuntime runtime fun rt => { rt with heap := {} })) = ⟨h₁, w₁, some (.ok vs)⟩ := by
    rw [Script.Host.perform]
    exact congrArg (fun s : State Bridge World Pending => Script.Host.Result.mk s.heap s.world
      s.outcome?) hrun
  simp only [World.perform, hperform]

/-- Whether an engine is ready for renders of the views of a store. -/
def Serves (views : Store) (engine : Nat) (base : Engine) (w : World) : Prop :=
  Ready views engine base (w.heapOf base.runtime) w

/-- The heap that a ready world runs on may be put back into it. -/
theorem Ready.serves (hr : Ready views engine base h w) :
    Serves views engine base (w.modifyRuntime base.runtime fun rt => { rt with heap := h }) := by
  rw [Serves, heapOf_modifyRuntime hr.runs]
  exact hr.modifyRuntime _ _

/-! ## Renders -/

/-- Values for the attributes of the root are put on the heap. -/
theorem Serves.importAttributes (hw : Serves views engine base w)
    (attributes : List (String × Json)) :
    Serves views engine base (w.importAttributes base.runtime attributes).2
      ∧ (w.importAttributes base.runtime attributes).2.views = w.views
      ∧ (w.importAttributes base.runtime attributes).2.sinks = w.sinks
      ∧ (w.importAttributes base.runtime attributes).2.engines = w.engines := by
  induction attributes generalizing w with
  | nil => exact ⟨hw, rfl, rfl, rfl⟩
  | cons e attributes ih =>
    obtain ⟨name, j⟩ := e
    have hready : Ready views engine base ((w.heapOf base.runtime).importJson j).2 w :=
      hw.keeps (Heap.keeps_importJson _ j)
    exact ih hready.serves

/-- A render of a plain view writes what the view stands for. -/
theorem Serves.render {limit : Nat} (hnests : Nests views base limit)
    (hw : Serves views engine base w) {view sink : Nat} {uri text : String} {v : View}
    {x : Option Script.Executable} {bytes : Bytes} (hview : w.views[view]? = some { v with executable := x })
    (hv : views uri = some v) (htext : expand views limit v = some text) (hs : Holds w sink bytes)
    (attributes : List (String × Json)) :
    ∃ n w₁, (∀ fuel, n ≤ fuel →
        w.render fuel engine view sink attributes none = (some (.ok ()), w₁))
      ∧ Serves views engine base w₁ ∧ Holds w₁ sink (bytes ++ utf8 text) := by
  obtain ⟨cache, pool, hengine, -⟩ := hw.present
  have hruntime : (w.engines[engine]?.map Engine.runtime).getD 0 = base.runtime := by
    rw [hengine]
    rfl
  obtain ⟨hw₁, hviews₁, hsinks₁, -⟩ := hw.importAttributes attributes
  let values := (w.importAttributes base.runtime attributes).1
  let w₁ := (w.importAttributes base.runtime attributes).2
  let w₂ := w₁.modifyRuntime base.runtime fun rt => { rt with heap := {} }
  let r : Request := { engine, view, sink, attributes := values, children := none }
  have hr₂ : Ready views engine base (w₁.heapOf base.runtime) w₂ := hw₁.modifyRuntime _ _
  have hplain := hnests.plain uri v hv
  have hread := isRead_of_readView (hw.stored uri v hv)
  have hview₂ : w₂.views[r.view]? = some { v with executable := x } := by
    rw [← hview, ← hviews₁]
    rfl
  have hbody (context : Nat) : Writes views engine base context ⟨engine, view, context, sink, 0⟩ .nil
      1 1 (Code.Directive.stmts 1 (directivesOf v)) text := writes_expand hnests hplain htext rfl rfl
  obtain ⟨h₃, w₃, hends, hext⟩ : ∃ h₃ w₃, Ends 0 0 (Render.start 0 r (w₁.heapOf base.runtime) w₂) h₃ w₃
      ∧ Extends views engine base sink text (w₁.heapOf base.runtime) w₂ h₃ w₃ :=
    ends_start (by omega) (by decide) (hplain.withExecutable x) (hread.source_eq hplain) hr₂ rfl hview₂
      hread.engine (Nat.zero_le _) (hs.congr hsinks₁) hbody
  obtain ⟨n, hn⟩ := perform_of_gives (Render.start 0 r) hends
  refine ⟨n, _, fun fuel hfuel => ?_, hext.ready.serves, hext.written bytes (hs.congr hsinks₁)⟩
  simp only [World.render, hruntime]
  rw [hn fuel hfuel]
  rfl

/-! ## Requests -/

/-- A request: the URI of a view, and values for its attributes. -/
abbrev Asked := String × List (String × Json)

/-- Serve requests one after the other: load the view, and render it to a sink. -/
def serve (fuel engine sink : Nat) : List Asked → World → Performed ViewError Unit × World
  | [], w => (some (.ok ()), w)
  | (uri, attributes) :: rest, w =>
    match w.load engine uri with
    | .error e => (some (.error e), w)
    | .ok (view, w) =>
      match w.render fuel engine view sink attributes none with
      | (some (.ok ()), w) => serve fuel engine sink rest w
      | failed => failed

/-- What requests stand for. -/
def expandAsked (views : Store) (limit : Nat) (requests : List Asked) : Option (List String) :=
  requests.mapM fun r => (views r.1).bind (expand views limit)

theorem expandAsked_cons {limit : Nat} {r : Asked} {requests : List Asked} {texts : List String}
    (h : expandAsked views limit (r :: requests) = some texts) :
    ∃ v text rest, views r.1 = some v ∧ expand views limit v = some text
      ∧ expandAsked views limit requests = some rest ∧ texts = text :: rest := by
  rw [expandAsked, List.mapM_cons] at h
  obtain ⟨text, htext, h⟩ := Option.bind_eq_some_iff.1 h
  obtain ⟨rest, hrest, h⟩ := Option.bind_eq_some_iff.1 h
  obtain ⟨v, hv, htext⟩ := Option.bind_eq_some_iff.1 htext
  cases h
  exact ⟨v, text, rest, hv, htext, hrest, rfl⟩

/-- Requests write what their views stand for, one after the other. -/
theorem Serves.serve {limit : Nat} (hnests : Nests views base limit)
    (hw : Serves views engine base w) {sink : Nat} {bytes : Bytes} (hs : Holds w sink bytes)
    {requests : List Asked} {texts : List String}
    (htexts : expandAsked views limit requests = some texts) :
    ∃ n w₁, (∀ fuel, n ≤ fuel → serve fuel engine sink requests w = (some (.ok ()), w₁))
      ∧ Serves views engine base w₁ ∧ Holds w₁ sink (bytes ++ texts.flatMap utf8) := by
  induction requests generalizing w bytes texts with
  | nil =>
    cases htexts
    refine ⟨0, w, fun fuel _ => rfl, hw, ?_⟩
    rwa [List.reverse_nil, List.flatMap_nil, List.append_nil]
  | cons r requests ih =>
    obtain ⟨uri, attributes⟩ := r
    obtain ⟨v, text, rest, hv, htext, hrest, rfl⟩ := expandAsked_cons htexts
    obtain ⟨i, w₁, x, hload, hview, hsinks, hruntimes, hr₁, -⟩ := hw.load hv
    have hw₁ : Serves views engine base w₁ := by
      rwa [Serves, World.heapOf, hruntimes]
    obtain ⟨n, w₂, hrender, hw₂, hs₂⟩ :=
      hw₁.render hnests hview hv htext (hs.congr hsinks) attributes
    obtain ⟨m, w₃, hserve, hw₃, hs₃⟩ := ih hw₂ hs₂ hrest
    refine ⟨max n m, w₃, fun fuel hfuel => ?_, hw₃, ?_⟩
    · simp only [Expansion.serve, hload, hrender fuel (by omega), hserve fuel (by omega)]
    · rwa [List.append_assoc] at hs₃

end ScriptedViews.Expansion

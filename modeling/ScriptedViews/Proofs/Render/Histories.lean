import ScriptedViews.Proofs.Render.Happenings

set_option autoImplicit false

/-! # Histories

What happens to views over many calls from outside, one after the other: views are loaded and made
from sources, caches are cleared, views are rendered, which may load and compile others, and where
views come from changes. What all of this keeps holds after every history, and at any time of a
render that comes then. -/

namespace ScriptedViews

open Script (State Value)

namespace Script.State

variable {ω σ φ : Type} {host : Host ω σ φ}

/-- A run is as many steps as the fuel allows: steps after the end do nothing. -/
theorem run_eq_stepMany (fuel : Nat) (s : State ω σ φ) :
    s.run host fuel = s.stepMany host fuel := by
  induction fuel generalizing s with
  | zero => rfl
  | succ fuel ih =>
    rw [run]
    split
    · next ho => exact (stepMany_of_outcome? ho _).symm
    · exact ih _

end Script.State

namespace World

variable {w w' : World} {engine : Nat} {e : Engine}

/-- What a render from outside comes to within some steps. -/
theorem render_eq (he : w.engines[engine]? = some e) (fuel view sink : Nat)
    (attributes : List (String × Json)) (children : Option String) :
    let s := (w.rendering engine view sink attributes children).stepMany Render.host fuel
    w.render fuel engine view sink attributes children
      = (s.outcome?.map fun
          | .ok _ => .ok ()
          | .error cause => .error (viewErrorOf cause),
        s.world.putHeap e.runtime s.heap) := by
  intro s
  have hrun : (w.rendering engine view sink attributes children).run Render.host fuel = s :=
    State.run_eq_stepMany fuel _
  rw [← runtimeOf_eq he, ← hrun]
  rfl

/-- Tell whether something holds at every state of a render up to some steps, and another thing of
    the end that it has come to then. -/
def holdsThroughout (p q : RenderState → Bool) : Nat → RenderState → Bool
  | 0, s => p s && s.outcome?.isSome && q s
  | n + 1, s => p s && holdsThroughout p q n (s.step Render.host)

theorem of_holdsThroughout {p q : RenderState → Bool} {n : Nat} {s : RenderState}
    (h : holdsThroughout p q n s = true) : (∀ m, p (s.stepMany Render.host m) = true)
      ∧ (∃ o, (s.stepMany Render.host n).outcome? = some o)
      ∧ q (s.stepMany Render.host n) = true := by
  induction n generalizing s with
  | zero =>
    obtain ⟨⟨hp, ho⟩, hq⟩ := (Bool.and_eq_true_iff.1 h).imp_left Bool.and_eq_true_iff.1
    obtain ⟨o, ho⟩ := Option.isSome_iff_exists.1 ho
    exact ⟨fun m => (Script.State.stepMany_of_outcome? ho m).symm ▸ hp, ⟨o, ho⟩, hq⟩
  | succ n ih =>
    obtain ⟨hp, hrest⟩ := Bool.and_eq_true_iff.1 h
    obtain ⟨hnext, hend⟩ := ih hrest
    refine ⟨fun m => ?_, hend⟩
    cases m with
    | zero => exact hp
    | succ m => exact hnext m

/-! ## Changes from outside -/

/-- What is done from outside that loads no views and runs no code. -/
inductive Outside : Stage → Stage → Prop
  /-- There are other sources. -/
  | sources {L : List ViewEvent} {R : List Pending} {w : World} (sources : Sources) :
      Outside ⟨L, R, w⟩ ⟨L, R, { w with sources }⟩
  /-- There are other sinks. -/
  | sinks {L : List ViewEvent} {R : List Pending} {w : World} (sinks : Array Sink) :
      Outside ⟨L, R, w⟩ ⟨L, R, { w with sinks }⟩
  /-- Somebody lets go of an engine. -/
  | released {L : List ViewEvent} {R : List Pending} {w : World} (engine : Nat) :
      Outside ⟨L, R, w⟩ ⟨L, R, w.release engine⟩
  /-- A view is made from a text. -/
  | made {L : List ViewEvent} {R : List Pending} {w : World} {engine : Nat} {uri text : String}
      {v : View} (hv : View.compile engine uri text = .ok v) :
      Outside ⟨L, R, w⟩ ⟨L, R, (w.addView v).2⟩
  /-- An engine forgets its views. -/
  | cleared {L : List ViewEvent} {R : List Pending} {w : World} (engine : Nat) :
      Outside ⟨L, R, w⟩ ⟨.cleared engine :: L, R, w.clearCache engine⟩
  /-- The heap of a runtime is taken, or put back. -/
  | heap {L : List ViewEvent} {R : List Pending} {w : World} (runtime : Nat) (h : BridgeHeap) :
      Outside ⟨L, R, w⟩ ⟨L, R, w.putHeap runtime h⟩

/-! ## Sequences of calls -/

/-- Whether calls from outside that come to an end lead from one world to another, where some things
    have happened to views meanwhile, the last of them first. What is known of every state that
    renders go through is `Q`. -/
inductive Calls (Q : RenderState → Prop) (w₀ : World) : List ViewEvent → World → Prop
  | start : Calls Q w₀ [] w₀
  | sources {L : List ViewEvent} {w : World} (h : Calls Q w₀ L w) (sources : Sources) :
      Calls Q w₀ L { w with sources }
  | sink {L : List ViewEvent} {w : World} (h : Calls Q w₀ L w) (s : Sink) :
      Calls Q w₀ L (w.addSink s).2
  | release {L : List ViewEvent} {w : World} (h : Calls Q w₀ L w) (engine : Nat) :
      Calls Q w₀ L (w.release engine)
  | load {L : List ViewEvent} {w w' : World} (h : Calls Q w₀ L w) {engine view : Nat} {uri : String}
      (hend : w.load engine uri = .ok (view, w')) :
      Calls Q w₀ (.loaded engine uri view w.sources :: L) w'
  | source {L : List ViewEvent} {w w' : World} (h : Calls Q w₀ L w) {engine view : Nat}
      {uri text : String} (hend : w.viewFromSource engine uri text = .ok (view, w')) :
      Calls Q w₀ L w'
  | clear {L : List ViewEvent} {w : World} (h : Calls Q w₀ L w) (engine : Nat) :
      Calls Q w₀ (.cleared engine :: L) (w.clearCache engine)
  /-- A view is rendered, which succeeds or fails. -/
  | render {L : List ViewEvent} {w w' : World} (h : Calls Q w₀ L w) {engine view sink : Nat}
      {e : Engine} {attributes : List (String × Json)} {children : Option String}
      (he : w.engines[engine]? = some e)
      (hQ : ∀ n, Q ((w.rendering engine view sink attributes children).stepMany Render.host n))
      {fuel : Nat} {r : Except ViewError Unit}
      (hend : w.render fuel engine view sink attributes children = (some r, w')) :
      Calls Q w₀
        (RenderState.events (w.rendering engine view sink attributes children) fuel ++ L) w'

theorem Reached.mono {P P' : BridgeHeap → Prop} (hP : ∀ h, P h → P' h) (h : w.Reached P) :
    w.Reached P' := by
  induction h with
  | start => exact .start
  | sources h sources ih => exact ih.sources sources
  | sink h s ih => exact ih.sink s
  | engine h hregistry hmaker hend ih =>
    exact ih.engine hregistry (fun _ _ _ hr hlt => hP _ (hmaker _ _ _ hr hlt)) hend
  | release h engine ih => exact ih.release engine
  | load h hend ih => exact ih.load hend
  | source h hend ih => exact ih.source hend
  | clear h engine ih => exact ih.clear engine
  | render h he hmaker hend ih => exact ih.render he (fun n hs => hP _ (hmaker n hs)) hend

namespace Calls

variable {Q : RenderState → Prop} {P : BridgeHeap → Prop} {w₀ : World} {L : List ViewEvent}

/-- Calls from outside lead to worlds that calls from outside lead to. -/
theorem reached (hw : w₀.Reached P) (h : w₀.Calls Q L w) : w.Reached fun _ => True := by
  induction h with
  | start => exact hw.mono fun _ _ => trivial
  | sources h sources ih => exact ih.sources sources
  | sink h s ih => exact ih.sink s
  | release h engine ih => exact ih.release engine
  | load h hend ih => exact ih.load hend
  | source h hend ih => exact ih.source hend
  | clear h engine ih => exact ih.clear engine
  | render h he hQ hend ih => exact ih.render he (fun _ _ => trivial) hend

/-! ## What is kept -/

section Keeping

variable {I : Stage → Prop} {C : List Pending → Prop}
  (hQ : ∀ s, Q s → C (rendersOn s.stack))
  (hact : ∀ {o : Occasion} {a b : Stage}, (∀ R, o.compiles R → C R) → Act o a b → I a → I b)
  (houtside : ∀ {a b : Stage}, Outside a b → I a → I b)

include houtside in
theorem keeps_importAttributes (runtime : Nat) (attributes : List (String × Json))
    (h : I ⟨L, [], w⟩) : I ⟨L, [], (w.importAttributes runtime attributes).2⟩ := by
  induction attributes generalizing w with
  | nil => exact h
  | cons a attributes ih => exact ih (houtside (.heap runtime _) h)

include hact houtside

/-- What is kept holds at any time of a render. -/
theorem keeps_rendering (hw : w.Settled) (he : w.engines[engine]? = some e) (view sink : Nat)
    (attributes : List (String × Json)) (children : Option String) (n : Nat)
    (hC : ∀ m < n, C (rendersOn
      ((w.rendering engine view sink attributes children).stepMany Render.host m).stack))
    (h : I ⟨L, [], w⟩) :
    let s := w.rendering engine view sink attributes children
    I ⟨RenderState.events s n ++ L, rendersOn (s.stepMany Render.host n).stack,
      (s.stepMany Render.host n).world⟩ := by
  refine hw.keeps_rendering he view sink attributes children L ?_ (hact nofun) n
    fun m hlt _ _ => hact fun R hR => hR ▸ hC m hlt
  exact houtside (.heap _ _) (keeps_importAttributes houtside _ attributes h)

include hQ

/-- What is kept holds after every history. -/
theorem keeps (hw : w₀.Reached P) (h₀ : I ⟨[], [], w₀⟩) (h : w₀.Calls Q L w) : I ⟨L, [], w⟩ := by
  induction h with
  | start => exact h₀
  | sources h sources ih => exact houtside (.sources sources) ih
  | sink h s ih => exact houtside (.sinks _) ih
  | release h engine ih => exact houtside (.released engine) ih
  | load h hend ih =>
    exact hact (o := ⟨fun _ _ => False, fun _ => False⟩) (fun _ => False.elim) (.loaded hend) ih
  | source h hend ih =>
    obtain ⟨v, hv, rfl⟩ := views_viewFromSource hend
    exact houtside (.made hv) ih
  | clear h engine ih => exact houtside (.cleared engine) ih
  | @render L w w' h engine view sink e attributes children he hR fuel r hend ih =>
    have hsettled := (h.reached hw).settled
    have hrender := keeps_rendering hact houtside hsettled he view sink attributes children fuel
      (fun m _ => hQ _ (hR m)) ih
    rw [render_eq he, Prod.mk.injEq] at hend
    obtain ⟨houtcome, rfl⟩ := hend
    obtain ⟨o, ho, -⟩ := Option.map_eq_some_iff.1 houtcome
    have hstack : ((w.rendering engine view sink attributes children).stepMany Render.host
        fuel).stack = [] := stack_of_outcome? ho
    dsimp only at hrender
    rw [hstack] at hrender
    exact houtside (.heap _ _) hrender

end Keeping

end Calls

end World

end ScriptedViews

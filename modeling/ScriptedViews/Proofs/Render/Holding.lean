import ScriptedViews.Proofs.Render.Rejections

set_option autoImplicit false

/-! # Contexts are never lost

Between calls from outside every pool is full. While a render runs, the contexts that it and those
nested in it have are those that have been taken and made and not been given back, and a pool holds
no more than its capacity, and no less without them. No two of them are the same context if the code
that makes contexts finds what it needs. -/

namespace ScriptedViews

open Expansion (FindsMaker)
open Script (State)

/-- Whether the contexts that renders have at one time are those that the pools of a world have to do
    without. -/
structure HoldsContexts (w : World) (s : RenderState) : Prop where
  /-- They are those that have been taken or made, and not been given back. -/
  accounts : (sceneOf s).Accounts w
  bounds : ∀ (i : Nat) (e₀ e : Engine), w.engines[i]? = some e₀ →
    s.world.engines[i]? = some e → e.pool.capacity = e₀.pool.capacity
      ∧ e.pool.idle.length ≤ e.pool.capacity
      ∧ e.pool.capacity ≤ e.pool.idle.length + (lentBy i (loansOn s.stack)).length

variable {w : World} {engine : Nat} {e : Engine}

theorem World.Settled.holdsContexts (hw : w.Settled) (he : w.engines[engine]? = some e)
    (view sink : Nat) (attributes : List (String × Json)) (children : Option String) (n : Nat) :
    HoldsContexts w ((w.rendering engine view sink attributes children).stepMany Render.host n) := by
  have hengines := (w.importAttributes_same (w.runtimeOf engine) attributes).1
  have hstart : ((w.given engine attributes).sceneAt e.runtime).Accounts w :=
    ⟨congrArg Array.size hengines, fun i e₀ he₀ =>
      ⟨e₀, (congrArg (·[i]?) hengines).trans he₀, e₀.sameBut_refl, .start⟩⟩
  have haccounts := Deeds.accounts (hw.underway he view sink attributes children n).deeds hstart
  refine ⟨haccounts, fun i e₀ e he₀ he => ?_⟩
  obtain ⟨e', he', -, hdeals⟩ := haccounts.engines i e₀ he₀
  cases he.symm.trans he'
  exact hdeals.bounds (hw.pools i e₀ he₀)

/-- No render loses a context. Whatever calls have led to a world, its pools are full. At any time of
    a render the contexts on loan are those that renders have, and they are apart, and apart from the
    idle ones, if the library function that makes contexts has been found each time. A call that is
    rejected leaves everything alone, but for loading the view. -/
theorem World.Reached.keepsContexts {P : BridgeHeap → Prop} (hw : w.Reached P) :
    (∀ (i : Nat) (e : Engine), w.engines[i]? = some e → e.pool.idle.length = e.pool.capacity)
    ∧ ∀ (engine : Nat) (e : Engine), w.engines[engine]? = some e →
      ∀ (view sink : Nat) (attributes : List (String × Json)) (children : Option String),
        let s (n : Nat) : RenderState :=
          (w.rendering engine view sink attributes children).stepMany Render.host n
        (∀ n, HoldsContexts w (s n)
          ∧ ((∀ h, P h → FindsMaker h) →
            (∀ m ≤ n, StartsMaking (s m) → FindsMaker (s m).heap) →
              (sceneOf (s n)).IsApart e.runtime)
          ∧ ∀ (levels : Nat) (b : Bridge) (base tag : String) (given : Option Nat)
            (content : Option String) (error : ViewError),
            FailsWith (Render.callView levels b base tag given content (s n).heap (s n).world)
              error → error.IsRejection →
            LeavesAlone (Bridge.target base tag) (s n).heap (s n).world
              (Render.callView levels b base tag given content (s n).heap (s n).world))
        ∧ ∀ v, w.views[view]? = some v → v.engine ≠ engine → ∀ fuel,
          w.render fuel engine view sink attributes children
            = (some (.error (.instanceMismatch v.uri)), w.given engine attributes) := by
  have hsettled := hw.settled
  refine ⟨hsettled.pools, fun engine e he view sink attributes children => ?_⟩
  refine ⟨fun n => ⟨?_, fun hP hmaker => ?_, ?_⟩, fun v hv hne fuel => ?_⟩
  · exact hsettled.holdsContexts he view sink attributes children n
  · obtain ⟨hgiven, hlt, happart⟩ := hsettled.given he attributes
    have hunderway := hsettled.underwayApart he view sink attributes children (hw.apart hP) n hmaker
    exact hunderway.apart (hgiven.properAt hlt) ((happart (hw.apart hP)).at hlt)
  · exact fun _ _ _ _ _ _ _ hf herror => leavesAlone_callView hf herror
  · exact World.render_of_ne he hv hne fuel sink attributes children

namespace World

/-- A page that calls a view, and a sink. -/
def boxedStart : World :=
  { sources := { stores := #[Expansion.boxedViews] }, sinks := #[{}] }

/-- The world with an engine for the page that keeps one context. -/
def boxed : World :=
  (boxedStart.createEngine 100 []
    { loader := some (.memory 0), config := { contextPoolCapacity := 1 } }).2.2

/-- Load the page and render it. -/
def renderPage (w : World) : Performed ViewError Unit × World :=
  match w.load 0 "/page.xview" with
  | .ok (view, w) => w.render 500 0 view 0 [] none
  | .error e => (some (.error e), w)

theorem reached_boxed : boxed.Reached fun _ => True := by
  have hstart : boxedStart.Reached fun _ => True := (Reached.start.sources _).sink {}
  have hmade : (boxedStart.createEngine 100 []
      { loader := some (.memory 0), config := { contextPoolCapacity := 1 } }).1.isSome = true := by
    decide +kernel
  obtain ⟨r, hr⟩ := Option.isSome_iff_exists.1 hmade
  unfold boxed
  exact hstart.createEngine (fun e he => absurd he List.not_mem_nil) (fun _ _ _ _ _ => trivial) hr

/-- Rendering the page, which comes to an end, leads on. -/
theorem Reached.renderPage {w w' : World} {e : Engine} {r : Except ViewError Unit}
    (h : w.Reached fun _ => True) (he : w.engines[0]? = some e)
    (hend : w.renderPage = (some r, w')) : w'.Reached fun _ => True := by
  unfold World.renderPage at hend
  split at hend
  · next view w₁ hl =>
    obtain ⟨e', he', -⟩ := (engines_load hl).2 0 e he
    exact (h.load hl).render he' (fun _ _ => trivial) hend
  · cases hend
    exact h

/-- The page takes the context that is kept, and the view that it calls has another one made. Of the
    two the pool keeps one. -/
theorem keepsContexts_boxed : ∃ (w : World) (e : Engine), boxed.renderPage = (some (.ok ()), w)
    ∧ w.engines[0]? = some e ∧ e.pool.capacity = 1 ∧ e.pool.idle.length = 1 := by
  have hends : boxed.renderPage.1.map Except.toOption = some (some ()) := by decide +kernel
  have hfirst : (boxed.engines[0]?.map fun e => e.pool.capacity) = some 1 := by decide +kernel
  have hlast : (boxed.renderPage.2.engines[0]?.map fun e => e.pool.capacity) = some 1 := by
    decide +kernel
  have hw := reached_boxed
  generalize boxed = w at *
  rcases hend : w.renderPage with ⟨o, w'⟩
  rw [hend] at hends hlast
  obtain ⟨e₀, he₀, -⟩ := Option.map_eq_some_iff.1 hfirst
  obtain ⟨e, he, hcapacity⟩ := Option.map_eq_some_iff.1 hlast
  obtain ⟨r, rfl, hok⟩ := Option.map_eq_some_iff.1 hends
  obtain rfl : r = .ok () := by
    cases r with
    | ok _ => rfl
    | error _ => cases hok
  have hfull := (Reached.keepsContexts (hw.renderPage he₀ hend)).1 0 e he
  exact ⟨w', e, rfl, he, hcapacity, hcapacity ▸ hfull⟩

end World

end ScriptedViews

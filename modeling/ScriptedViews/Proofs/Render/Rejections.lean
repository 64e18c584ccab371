import ScriptedViews.Proofs.Render.Failures
import ScriptedViews.Proofs.Render.Reached

set_option autoImplicit false

/-! # Calls that are rejected

A view of another engine is not rendered, nor one that is nested too deep. Such a call takes no
context: it fails before anything is done, but for loading the view. -/

namespace ScriptedViews

open Script (Value)

namespace ViewError

/-- Whether a render has been rejected. -/
def IsRejection : ViewError → Prop
  | .instanceMismatch _ => True
  | .nestingTooDeep _ _ => True
  | _ => False

end ViewError

/-- Whether a turn fails because of a view. -/
def FailsWith (t : EngineTurn) (e : ViewError) : Prop :=
  t.action = .fail (.callback (.view e))

theorem IsOwnFailure.not_isRejection {uri : String} {e : ViewError}
    (h : IsOwnFailure uri (.callback (.view e))) : ¬ e.IsRejection := by
  cases h
  exact id

/-! ## What is left alone -/

/-- Whether a turn leaves everything alone but for a view that it may have loaded from a URI. -/
structure LeavesAlone (uri : String) (h : BridgeHeap) (w : World) (t : EngineTurn) : Prop where
  heap : t.heap = h
  sinks : t.world.sinks = w.sinks
  runtimes : t.world.runtimes = w.runtimes
  engines : t.world.engines.size = w.engines.size ∧ ∀ (i : Nat) (e : Engine),
    w.engines[i]? = some e → ∃ e', t.world.engines[i]? = some e' ∧ e.SameBut e'
      ∧ e'.pool = e.pool ∧ ∀ other, other ≠ uri → e'.cache.get? other = e.cache.get? other
  /-- Views stay as they are, prepared or not. -/
  views : ∀ (i : Nat) (v : View), w.views[i]? = some v → t.world.views[i]? = some v
  /-- A view that is new has not been prepared. -/
  unprepared : ∀ (i : Nat) (v : View), t.world.views[i]? = some v →
    w.views[i]? = some v ∨ v.executable = none

variable {h : BridgeHeap} {w w' : World} {t : EngineTurn} {uri : String}

theorem LeavesAlone.of_eq (hheap : t.heap = h) (hworld : t.world = w) :
    LeavesAlone uri h w t where
  heap := hheap
  sinks := by rw [hworld]
  runtimes := by rw [hworld]
  engines := by
    rw [hworld]
    exact ⟨rfl, fun i e he => ⟨e, he, e.sameBut_refl, rfl, fun _ _ => rfl⟩⟩
  views := by
    rw [hworld]
    exact fun i v hv => hv
  unprepared := by
    rw [hworld]
    exact fun i v hv => .inl hv

/-- Loading a view leaves everything alone but for that view. -/
theorem LeavesAlone.of_load {engine view : Nat} (hheap : t.heap = h)
    (hl : w.load engine uri = .ok (view, w')) (hworld : t.world = w') :
    LeavesAlone uri h w t := by
  subst hworld
  refine ⟨hheap, ?_, (World.load_leaves hl).1, ?_, World.views_load hl, World.unprepared_load hl⟩
  all_goals obtain ⟨h, -⟩ | ⟨e, v, -, -, rfl, h⟩ := World.load_cases hl <;> rw [h]
  · split <;> rfl
  · exact ⟨rfl, fun i e he => ⟨e, he, e.sameBut_refl, rfl, fun _ _ => rfl⟩⟩
  · refine ⟨?_, fun i e₀ he₀ => ?_⟩
    · split
      · exact World.size_modifyEngine _ _ _
      · rfl
    · have hadd : (w.addView v).2.engines[i]? = some e₀ := he₀
      split
      · rw [World.getElem?_modifyEngine, hadd]
        split
        · refine ⟨_, rfl, ⟨rfl, rfl, rfl, rfl, rfl⟩, rfl, fun other hne => ?_⟩
          rw [OrderedMap.get?_insert, if_neg (by simpa using hne)]
        · exact ⟨e₀, rfl, e₀.sameBut_refl, rfl, fun _ _ => rfl⟩
      · exact ⟨e₀, hadd, e₀.sameBut_refl, rfl, fun _ _ => rfl⟩

/-- A render that is rejected has not done anything. -/
theorem eq_of_start_rejected {levels : Nat} {r : Request} {e : ViewError}
    (hf : FailsWith (Render.start levels r h w) e) (he : e.IsRejection) :
    (Render.start levels r h w).heap = h ∧ (Render.start levels r h w).world = w := by
  unfold Render.start at hf ⊢
  split
  · next heq hv =>
    simp only [heq, hv] at hf
    split
    · exact ⟨rfl, rfl⟩
    · next hengine =>
      rw [if_neg hengine] at hf
      split
      · exact ⟨rfl, rfl⟩
      · next hdepth =>
        rw [if_neg hdepth] at hf
        exact absurd he ((FailsFor.acquire _ _).cause _ hf).not_isRejection
  · exact ⟨rfl, rfl⟩

/-- A call of a view that is rejected leaves everything alone, but for loading the view. -/
theorem leavesAlone_callView {levels : Nat} {b : Bridge} {base tag : String}
    {attributes : Option Nat} {children : Option String} {e : ViewError}
    (hf : FailsWith (Render.callView levels b base tag attributes children h w) e)
    (he : e.IsRejection) : LeavesAlone (Bridge.target base tag) h w
      (Render.callView levels b base tag attributes children h w) := by
  unfold Render.callView at hf ⊢
  split
  · exact .of_eq rfl rfl
  · next hheld =>
    rw [if_neg hheld] at hf
    split
    · exact .of_eq rfl rfl
    · next view w' hl =>
      simp only [hl] at hf ⊢
      split
      · exact .of_load rfl hl rfl
      · next scope hscope =>
        simp only [hscope] at hf
        obtain ⟨hheap, hworld⟩ := eq_of_start_rejected hf he
        exact .of_load hheap hl hworld

/-- What fails at once comes to its end in no steps. -/
theorem World.perform_failView {runtime fuel : Nat} {turn : BridgeHeap → World → EngineTurn}
    {e : ViewError} (hturn : turn (w.heapOf runtime) (w.withoutHeap runtime)
      = Render.failView (w.heapOf runtime) (w.withoutHeap runtime) e) :
    w.perform fuel runtime turn = (some (.error (.callback (.view e))), w) := by
  have hrun : (w.starting runtime turn).run Render.host fuel = w.starting runtime turn := by
    rw [World.starting, hturn]
    cases fuel <;> rfl
  have hworld : (w.withoutHeap runtime).putHeap runtime (w.heapOf runtime) = w := by
    rw [World.withoutHeap_putHeap, World.putHeap_heapOf]
  have hperform : w.perform fuel runtime turn = (((w.starting runtime turn).outcome?,
      (w.starting runtime turn).world.putHeap runtime (w.starting runtime turn).heap)) :=
    congrArg (fun s : RenderState => (s.outcome?, s.world.putHeap runtime s.heap)) hrun
  rw [hperform, World.starting, hturn]
  exact congrArg (Prod.mk _) hworld

/-- A view of another engine is not rendered, whatever the number of steps: all that there is
    afterwards are the values that were given. -/
theorem World.render_of_ne {engine view : Nat} {e : Engine} {v : View}
    (he : w.engines[engine]? = some e) (hv : w.views[view]? = some v) (hne : v.engine ≠ engine)
    (fuel sink : Nat) (attributes : List (String × Json)) (children : Option String) :
    w.render fuel engine view sink attributes children
      = (some (.error (.instanceMismatch v.uri)), w.given engine attributes) := by
  obtain ⟨hengines, hviews, -⟩ := w.importAttributes_same (w.runtimeOf engine) attributes
  have hturn : Render.start 0 (w.requestOf engine view sink attributes children)
      ((w.given engine attributes).heapOf (w.runtimeOf engine))
      ((w.given engine attributes).withoutHeap (w.runtimeOf engine))
      = Render.failView ((w.given engine attributes).heapOf (w.runtimeOf engine))
        ((w.given engine attributes).withoutHeap (w.runtimeOf engine)) (.instanceMismatch v.uri) := by
    have hengine : ((w.given engine attributes).withoutHeap (w.runtimeOf engine)).engines[engine]?
        = some e := (congrArg (·[engine]?) hengines).trans he
    have hview : ((w.given engine attributes).withoutHeap (w.runtimeOf engine)).views[view]?
        = some v := (congrArg (·[view]?) hviews).trans hv
    simp only [Render.start, World.requestOf, hengine, hview, hne, ne_eq, not_false_eq_true, if_true]
  have hperform : (w.importAttributes (w.runtimeOf engine) attributes).2.perform fuel
      (w.runtimeOf engine) (Render.start 0 (w.requestOf engine view sink attributes children))
      = (some (.error (.callback (.view (.instanceMismatch v.uri)))), w.given engine attributes) :=
    World.perform_failView hturn
  unfold World.render
  simp only [World.runtimeOf, World.requestOf] at hperform
  simp only [hperform]
  rfl

end ScriptedViews

import ScriptedViews.Proofs.Render.MacroExpansion
import ScriptedViews.Proofs.Render.Making
import ScriptedViews.Proofs.Script.Alike.Runs

set_option autoImplicit false

/-! # The world between calls

Between two calls from outside no context is on loan: every pool is full. A call takes the heap of
one runtime out of the world, runs on it, and puts it back. So what holds of all deeds of renders
carries over from one call to the next. -/

namespace ScriptedViews

open Expansion (heapOf_modifyRuntime)
open Script (State)

/-! ## Runtimes -/

namespace World

variable {w : World} {runtime other : Nat}

/-- The world while the heap of a runtime is in use. -/
def withoutHeap (w : World) (runtime : Nat) : World :=
  w.modifyRuntime runtime fun rt => { rt with heap := {} }

/-- The world with a heap put back. -/
def putHeap (w : World) (runtime : Nat) (h : BridgeHeap) : World :=
  w.modifyRuntime runtime fun rt => { rt with heap := h }

theorem size_modifyRuntime (w : World) (runtime : Nat) (f : Runtime → Runtime) :
    (w.modifyRuntime runtime f).runtimes.size = w.runtimes.size :=
  Array.size_modify

theorem heapOf_modifyRuntime_ne (hne : other ≠ runtime) (f : Runtime → Runtime) :
    (w.modifyRuntime runtime f).heapOf other = w.heapOf other := by
  rw [heapOf, heapOf, modifyRuntime, Array.getElem?_modify, if_neg hne.symm]

/-- A runtime is changed in more than its heap. -/
theorem heapOf_modifyRuntime_of_heap (w : World) (runtime : Nat) {f : Runtime → Runtime}
    (hf : ∀ rt, (f rt).heap = rt.heap) (other : Nat) :
    (w.modifyRuntime runtime f).heapOf other = w.heapOf other := by
  by_cases hne : other = runtime
  · subst hne
    simp only [heapOf, modifyRuntime, Array.getElem?_modify, if_true]
    cases w.runtimes[other]? with
    | none => rfl
    | some rt => exact hf rt
  · exact heapOf_modifyRuntime_ne hne f

end World

variable {runtime other : Nat} {makes : Scene → Nat → Prop} {s s' : Scene} {w : World}

/-- Renders change heaps of runtimes only where they have taken them out of the world. -/
theorem Deed.heapOf_eq (hd : Deed runtime makes s s') :
    s'.world.runtimes.size = s.world.runtimes.size
      ∧ ∀ other, s'.world.heapOf other = s.world.heapOf other := by
  cases hd with
  | compiled | named =>
    exact ⟨World.size_modifyRuntime _ _ _, fun other =>
      World.heapOf_modifyRuntime_of_heap _ _ (by intro _; rfl) other⟩
  | loaded hl =>
    obtain ⟨rfl, -⟩ | ⟨e, v, -, -, rfl, rfl⟩ := World.load_cases hl
    · exact ⟨rfl, fun _ => rfl⟩
    · split <;> exact ⟨rfl, fun _ => rfl⟩
  | _ => exact ⟨rfl, fun _ => rfl⟩

theorem Deeds.heapOf_eq (hd : Deeds runtime makes s s') :
    s'.world.runtimes.size = s.world.runtimes.size
      ∧ ∀ other, s'.world.heapOf other = s.world.heapOf other := by
  induction hd with
  | refl => exact ⟨rfl, fun _ => rfl⟩
  | tail _ hd ih =>
    exact ⟨hd.heapOf_eq.1.trans ih.1, fun other => (hd.heapOf_eq.2 other).trans (ih.2 other)⟩

/-- Renders leave the table of the global variables where it is, and all views. -/
theorem Deed.stays (hd : Deed runtime makes s s') :
    s'.heap.globals = s.heap.globals ∧ s.world.views.size ≤ s'.world.views.size := by
  cases hd with
  | code hg => exact ⟨hg.globals, Nat.le_refl _⟩
  | @bound L h w b defaults attributes children =>
    obtain ⟨h₁, hg, hg'⟩ := exists_bindVariables h b.context defaults attributes children b
    exact ⟨hg'.globals.trans hg.globals, Nat.le_refl _⟩
  | published view x => exact ⟨rfl, Nat.le_of_eq Array.size_modify.symm⟩
  | loaded hl =>
    refine ⟨rfl, ?_⟩
    obtain ⟨rfl, -⟩ | ⟨e, v, -, -, rfl, rfl⟩ := World.load_cases hl
    · exact Nat.le_refl _
    · split <;> exact Nat.le_of_lt (by simp [World.addView, World.modifyEngine])
  | _ => exact ⟨rfl, Nat.le_refl _⟩

theorem Deeds.stays (hd : Deeds runtime makes s s') :
    s'.heap.globals = s.heap.globals ∧ s.world.views.size ≤ s'.world.views.size := by
  induction hd with
  | refl => exact ⟨rfl, Nat.le_refl _⟩
  | tail _ hd ih => exact ⟨hd.stays.1.trans ih.1, Nat.le_trans ih.2 hd.stays.2⟩

/-! ## Between calls -/

/-- Whether engines use runtimes that there are, their pools are full, and what runtimes have on
    their heaps is in order. -/
structure World.Settled (w : World) : Prop where
  runtimes : ∀ (i : Nat) (e : Engine), w.engines[i]? = some e → e.runtime < w.runtimes.size
  pools : ∀ (i : Nat) (e : Engine), w.engines[i]? = some e →
    e.pool.idle.length = e.pool.capacity
  proper : ∀ runtime < w.runtimes.size, Scene.IsProper runtime ⟨[], w.heapOf runtime, w⟩

/-- Whether no two idle contexts of a runtime are the same. -/
def World.IsApart (w : World) : Prop :=
  ∀ runtime < w.runtimes.size, Scene.IsApart runtime ⟨[], w.heapOf runtime, w⟩

/-- Only engines tell which bridges and loans are proper. -/
theorem Scene.IsProper.congr {L : List Loan} {h : BridgeHeap} {w' : World}
    (hp : Scene.IsProper runtime ⟨L, h, w⟩) (hengines : w'.engines = w.engines) :
    Scene.IsProper runtime ⟨L, h, w'⟩ where
  loans l hl := by
    have hl := hp.loans l hl
    simp only [World.Has, hengines] at hl ⊢
    exact hl
  bridges ref b hb := by
    have hb := hp.bridges ref b hb
    simp only [World.Has, hengines] at hb ⊢
    exact hb
  distinct := hp.distinct

/-- The scene that a call starts with. -/
def World.sceneAt (w : World) (runtime : Nat) : Scene :=
  ⟨[], w.heapOf runtime, w.withoutHeap runtime⟩

theorem World.Settled.properAt (hw : w.Settled) (hruntime : runtime < w.runtimes.size) :
    (w.sceneAt runtime).IsProper runtime :=
  (hw.proper runtime hruntime).congr rfl

theorem World.IsApart.at (hw : w.IsApart) (hruntime : runtime < w.runtimes.size) :
    (w.sceneAt runtime).IsApart runtime :=
  (hw runtime hruntime).congr rfl (Nat.le_refl _)

/-- A heap that is put back is the only one that deeds have changed. -/
theorem World.heapOf_after (hruntime : runtime < w.runtimes.size) {h₁ : BridgeHeap} {w₁ : World}
    (hd : Deeds runtime makes (w.sceneAt runtime) ⟨[], h₁, w₁⟩) :
    (w₁.putHeap runtime h₁).runtimes.size = w.runtimes.size
      ∧ (w₁.putHeap runtime h₁).heapOf runtime = h₁
      ∧ ∀ other, other ≠ runtime → (w₁.putHeap runtime h₁).heapOf other = w.heapOf other := by
  have hheaps := Deeds.heapOf_eq hd
  have hsize : w₁.runtimes.size = w.runtimes.size := hheaps.1.trans (size_modifyRuntime _ _ _)
  refine ⟨(size_modifyRuntime _ _ _).trans hsize, ?_, fun other hne => ?_⟩
  · rw [putHeap, heapOf_modifyRuntime (by rwa [hsize])]
  · rw [putHeap, heapOf_modifyRuntime_ne hne, hheaps.2, sceneAt, withoutHeap,
      heapOf_modifyRuntime_ne hne]

namespace World.Settled

/-- What is left when all that has been lent is back is settled again. -/
theorem after (hw : w.Settled) (hruntime : runtime < w.runtimes.size) {h₁ : BridgeHeap}
    {w₁ : World} (hd : Deeds runtime makes (w.sceneAt runtime) ⟨[], h₁, w₁⟩) :
    (w₁.putHeap runtime h₁).Settled := by
  have haccounts := Deeds.accounts hd (accounts_start _ _)
  have hproper := Deeds.proper hd (hw.properAt hruntime)
  obtain ⟨hsize, hheap, hothers⟩ := heapOf_after hruntime hd
  -- Every engine is one of those before, with all contexts back.
  have hengine (i : Nat) (e : Engine) (he : w₁.engines[i]? = some e) : ∃ e₀,
      w.engines[i]? = some e₀ ∧ e₀.SameBut e ∧ e₀.pool.Deals e.pool [] := by
    have hlt : i < w.engines.size := haccounts.size ▸ (Array.getElem?_eq_some_iff.1 he).1
    obtain ⟨e', he', hsame, hdeals⟩ := haccounts.engines i _ (Array.getElem?_eq_getElem hlt)
    cases he.symm.trans he'
    exact ⟨_, Array.getElem?_eq_getElem hlt, hsame, hdeals⟩
  refine ⟨fun i e he => ?_, fun i e he => ?_, fun other hother => ?_⟩
  · obtain ⟨e₀, he₀, hsame, -⟩ := hengine i e he
    rw [hsize, hsame.runtime]
    exact hw.runtimes i e₀ he₀
  · obtain ⟨e₀, he₀, -, hdeals⟩ := hengine i e he
    have hbounds := hdeals.bounds (hw.pools i e₀ he₀)
    simp only [List.length_nil] at hbounds
    omega
  · rw [hsize] at hother
    by_cases hne : other = runtime
    · subst hne
      rw [hheap]
      exact hproper.congr rfl
    · have hbefore := hw.proper other hother
      rw [hothers other hne]
      exact ⟨nofun, fun ref b hb => Deeds.has hd (hbefore.bridges ref b hb), hbefore.distinct⟩

/-- Contexts that were apart are apart again if those that were made were new. -/
theorem apart_after (hw : w.Settled) (hruntime : runtime < w.runtimes.size) (happart : w.IsApart)
    {h₁ : BridgeHeap} {w₁ : World}
    (hd : Deeds runtime (IsFresh runtime) (w.sceneAt runtime) ⟨[], h₁, w₁⟩) :
    (w₁.putHeap runtime h₁).IsApart := by
  have hproper := hw.properAt hruntime
  obtain ⟨hsize, hheap, hothers⟩ := heapOf_after hruntime hd
  have hbefore (other : Nat) (hother : other < w.runtimes.size) :
      Scene.IsApart other ⟨[], w.heapOf other, w.withoutHeap runtime⟩ :=
    (happart other hother).congr rfl (Nat.le_refl _)
  intro other hother
  rw [hsize] at hother
  by_cases hne : other = runtime
  · subst hne
    rw [hheap]
    exact (Deeds.apart hd hproper (hbefore other hother)).congr rfl (Nat.le_refl _)
  · rw [hothers other hne]
    have hidle : w₁.idle other = (w.withoutHeap runtime).idle other :=
      Deeds.idle_eq hd hproper hne
    exact (hbefore other hother).congr hidle (Nat.le_refl _)

end World.Settled

/-! ## Calls -/

/-- The machine as it starts with what the engine wants on the heap of a runtime. -/
def World.starting (w : World) (runtime : Nat) (turn : BridgeHeap → World → EngineTurn) :
    RenderState :=
  Script.Host.start (turn (w.heapOf runtime) (w.withoutHeap runtime))

section Performing

variable {turn : BridgeHeap → World → EngineTurn}

theorem stack_of_outcome? {s : RenderState} {o : Except RaisedError (List Script.Value)}
    (h : s.outcome? = some o) : s.stack = [] := by
  obtain ⟨heap, world, stack, control, level, depth⟩ := s
  cases stack with
  | nil => rfl
  | cons f K => cases control <;> cases h

/-- What has come to an end has taken some steps, and its heap is put back. -/
theorem World.exists_of_perform {fuel : Nat} {o : Except RaisedError (List Script.Value)}
    {w' : World} (h : w.perform fuel runtime turn = (some o, w')) :
    ∃ n, ((w.starting runtime turn).stepMany Render.host n).stack = []
      ∧ w' = ((w.starting runtime turn).stepMany Render.host n).world.putHeap runtime
        ((w.starting runtime turn).stepMany Render.host n).heap := by
  have hrun : Script.State.Reaches Render.host (w.starting runtime turn)
      ((w.starting runtime turn).run Render.host fuel) := State.reaches_run fuel _
  obtain ⟨n, hn⟩ := State.exists_stepMany_of_reaches hrun
  have houtcome : ((w.starting runtime turn).run Render.host fuel).outcome? = some o :=
    congrArg Prod.fst h
  refine ⟨n, ?_, ?_⟩
  · rw [hn]
    exact stack_of_outcome? houtcome
  · rw [hn]
    exact (congrArg Prod.snd h).symm

theorem underway_starting (hproper : (w.sceneAt runtime).IsProper runtime)
    (hdoes : Does runtime makes (w.sceneAt runtime) []
      (turn (w.heapOf runtime) (w.withoutHeap runtime))) :
    Underway runtime makes (w.sceneAt runtime) (w.starting runtime turn) :=
  Underway.turn (s := ⟨_, _, [], .finished, 0, 0⟩) hproper trivial .refl
    (fun _ hp => absurd hp List.not_mem_nil) hdoes

theorem underwayApart_starting (hproper : (w.sceneAt runtime).IsProper runtime)
    (happart : (w.sceneAt runtime).IsApart runtime)
    (hdoes : Does runtime (IsFresh runtime) (w.sceneAt runtime) []
      (turn (w.heapOf runtime) (w.withoutHeap runtime)))
    (hmaker : StartsMaking (w.starting runtime turn) →
      Expansion.FindsMaker (w.starting runtime turn).heap) :
    UnderwayApart runtime (w.sceneAt runtime) (w.starting runtime turn) := by
  have hunderway := underway_starting hproper hdoes
  exact ⟨hunderway, .turn (s := ⟨_, _, [], .finished, 0, 0⟩) trivial hdoes.making
    (Deeds.apart hunderway.deeds hproper happart) hmaker⟩

/-- A call that has come to an end leaves the world settled. -/
theorem World.Settled.perform (hw : w.Settled) (hruntime : runtime < w.runtimes.size)
    (hdoes : Does runtime (fun _ _ => True) (w.sceneAt runtime) []
      (turn (w.heapOf runtime) (w.withoutHeap runtime)))
    {fuel : Nat} {o : Except RaisedError (List Script.Value)} {w' : World}
    (h : w.perform fuel runtime turn = (some o, w')) :
    w'.Settled ∧ w'.runtimes.size = w.runtimes.size := by
  obtain ⟨n, hstack, rfl⟩ := World.exists_of_perform h
  have hproper := hw.properAt hruntime
  have hend := ((underway_starting hproper hdoes).stepMany hproper n
    fun _ _ _ _ _ _ _ _ _ => trivial).deeds
  rw [sceneOf, hstack] at hend
  refine ⟨hw.after hruntime hend, ?_⟩
  rw [World.putHeap, World.size_modifyRuntime, (Deeds.heapOf_eq hend).1]
  exact World.size_modifyRuntime _ _ _

/-- It leaves contexts apart if the library function that makes them was found each time. -/
theorem World.Settled.perform_apart (hw : w.Settled) (hruntime : runtime < w.runtimes.size)
    (happart : w.IsApart)
    (hdoes : Does runtime (IsFresh runtime) (w.sceneAt runtime) []
      (turn (w.heapOf runtime) (w.withoutHeap runtime)))
    (hmaker : ∀ n, StartsMaking ((w.starting runtime turn).stepMany Render.host n) →
      Expansion.FindsMaker ((w.starting runtime turn).stepMany Render.host n).heap)
    {fuel : Nat} {o : Except RaisedError (List Script.Value)} {w' : World}
    (h : w.perform fuel runtime turn = (some o, w')) : w'.IsApart := by
  obtain ⟨n, hstack, rfl⟩ := World.exists_of_perform h
  have hproper := hw.properAt hruntime
  have hend := ((underwayApart_starting hproper (happart.at hruntime) hdoes (hmaker 0)).stepMany
    hproper (happart.at hruntime) n fun m _ => hmaker m).deeds
  rw [sceneOf, hstack] at hend
  exact hw.apart_after hruntime happart hend

end Performing

end ScriptedViews

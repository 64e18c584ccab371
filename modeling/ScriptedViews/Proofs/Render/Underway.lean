import ScriptedViews.Proofs.Render.Deeds
import ScriptedViews.Proofs.Script.Alike.Moves

set_option autoImplicit false

/-! # Renders that are underway

Every state that the machine goes through for a render comes from its start by deeds of the render,
and the contexts on loan are those that renders on the stack have. -/

namespace ScriptedViews

open Script (Value Bytes Frame State hostPart)
open Relation (ReflTransGen)

/-! ## The scene of a state -/

/-- What functions of the host keep on a stack, the innermost first. -/
def hostsOf (K : List (Frame Pending)) : List Pending :=
  K.filterMap fun f =>
    match f with
    | .host p => some p
    | _ => none

/-- The contexts that the renders on a stack have. -/
def loansOn (K : List (Frame Pending)) : List Loan :=
  (hostsOf K).filterMap Pending.loan?

/-- A state as a scene. -/
def sceneOf (s : State Bridge World Pending) : Scene :=
  ⟨loansOn s.stack, s.heap, s.world⟩

section Stacks

variable {K K' : List (Frame Pending)}

theorem hostsOf_hostPart (K : List (Frame Pending)) : hostsOf (hostPart K) = hostsOf K := by
  induction K with
  | nil => rfl
  | cons f K ih =>
    cases hf : f.isHosts with
    | true => rw [hostPart, List.dropWhile_cons_of_neg (by rw [hf]; decide)]
    | false =>
      rw [Script.hostPart_of_not hf, ih]
      cases f <;> first | rfl | cases hf

theorem hostsOf_congr (h : hostPart K = hostPart K') : hostsOf K = hostsOf K' := by
  rw [← hostsOf_hostPart K, h, hostsOf_hostPart]

theorem loansOn_congr (h : hostPart K = hostPart K') : loansOn K = loansOn K' := by
  rw [loansOn, loansOn, hostsOf_congr h]

theorem hostsOf_host (p : Pending) (K : List (Frame Pending)) :
    hostsOf (.host p :: K) = p :: hostsOf K := rfl

theorem hostsOf_describing (K : List (Frame Pending)) :
    hostsOf (.describing :: K) = hostsOf K := rfl

theorem loansOn_host (p : Pending) (K : List (Frame Pending)) :
    loansOn (.host p :: K) = p.loan?.toList ++ loansOn K := by
  rw [loansOn, hostsOf_host, List.filterMap_cons]
  cases p.loan? <;> rfl

end Stacks

/-! ## Scenes on the heap of a runtime -/

/-- Whether the contexts on loan are of engines that use the runtime, and so are the bridges on its
    heap, of which no table has two entries with the same key. -/
structure Scene.IsProper (runtime : Nat) (s : Scene) : Prop where
  loans : ∀ l ∈ s.loans, s.world.Has l.engine runtime
  bridges : ∀ (ref : Nat) (b : Bridge), s.heap.objects[ref]? = some (.host b) →
    s.world.Has b.engine runtime
  distinct : s.heap.IsDistinct

section Variables

variable {h : BridgeHeap}

open Script.Heap in
theorem grows_contextSet (h : BridgeHeap) (c : Nat) (name : String) (v : Value) :
    h.Grows (h.contextSet c name v) :=
  grows_modifyTable h c fun _ ht => Script.Table.areDistinct_setEntry ht _ _

open Script.Heap in
theorem grows_contextClear (h : BridgeHeap) (c : Nat) : h.Grows (h.contextClear c) :=
  grows_modifyTable h c fun _ _ => List.Pairwise.nil

theorem grows_bindDefaults (h : BridgeHeap) (c : Nat) (defaults : OrderedMap String String) :
    h.Grows (Render.bindDefaults h c defaults) := by
  unfold Render.bindDefaults
  induction defaults generalizing h with
  | nil => exact .refl h
  | cons e defaults ih => exact (grows_contextSet h c _ _).trans (ih _)

theorem grows_bindAttributes (h : BridgeHeap) (c : Nat) (defaults : OrderedMap String String)
    (attributes : List (String × Value)) :
    h.Grows (Render.bindAttributes h c defaults attributes) := by
  unfold Render.bindAttributes
  induction attributes generalizing h with
  | nil => exact .refl h
  | cons e attributes ih =>
    rw [List.foldl_cons]
    split
    · exact (grows_contextSet h c _ _).trans (ih _)
    · exact ih h

/-- Giving a context its variables puts its bridge on the heap. -/
theorem exists_bindVariables (h : BridgeHeap) (c : Nat) (defaults : OrderedMap String String)
    (attributes : List (String × Value)) (children : Option String) (b : Bridge) :
    ∃ h₁, h.Grows h₁ ∧ (h₁.newObject (.host b)).2.Grows
      (Render.bindVariables h c defaults attributes children b) :=
  ⟨_, ((grows_bindDefaults h c defaults).trans (grows_bindAttributes _ c defaults attributes)).trans
    (grows_contextSet _ c _ _), grows_contextSet _ c _ _⟩

end Variables

variable {runtime : Nat} {makes : Scene → Nat → Prop} {s s' s₀ : Scene}

theorem Deed.proper (hd : Deed runtime makes s s') (h : s.IsProper runtime) :
    s'.IsProper runtime where
  loans l hl := by
    cases hd with
    | taken he hr hp =>
      rcases List.mem_cons.1 hl with rfl | hl
      · exact World.Has.modifyEngine ⟨_, he, hr⟩ _ fun _ => rfl
      · exact (h.loans l hl).modifyEngine _ fun _ => rfl
    | made he hr hm =>
      rcases List.mem_cons.1 hl with rfl | hl
      · exact ⟨_, he, hr⟩
      · exact h.loans l hl
    | back => exact (h.loans l (List.mem_cons_of_mem _ hl)).modifyEngine _ fun _ => rfl
    | loaded hw => exact (h.loans l hl).load hw
    | _ => exact h.loans l hl
  bridges ref b hb := by
    cases hd with
    | code hg => exact h.bridges ref b (hg.hosts ref b hb)
    | @bound L heap w b' defaults attributes children =>
      obtain ⟨h₁, hg₁, hg₂⟩ := exists_bindVariables heap b'.context defaults attributes children b'
      have hnew := hg₂.hosts ref b hb
      simp only [Script.Heap.newObject, Array.getElem?_push] at hnew
      split at hnew
      · cases hnew
        exact h.loans _ List.mem_cons_self
      · exact h.bridges ref b (hg₁.hosts ref b hnew)
    | taken => exact (h.bridges ref b hb).modifyEngine _ fun _ => rfl
    | @back L heap w i c =>
      exact (h.bridges ref b ((grows_contextClear heap c).hosts ref b hb)).modifyEngine _
        fun _ => rfl
    | loaded hw => exact (h.bridges ref b hb).load hw
    | _ => exact h.bridges ref b hb
  distinct := by
    cases hd with
    | code hg => exact hg.distinct h.distinct
    | @bound L heap w b' defaults attributes children =>
      obtain ⟨h₁, hg₁, hg₂⟩ := exists_bindVariables heap b'.context defaults attributes children b'
      exact hg₂.distinct (hg₁.distinct h.distinct)
    | @back L heap w i c => exact (grows_contextClear heap c).distinct h.distinct
    | _ => exact h.distinct

theorem Deeds.proper (hd : Deeds runtime makes s s') (h : s.IsProper runtime) :
    s'.IsProper runtime := by
  induction hd with
  | refl => exact h
  | tail _ hd ih => exact hd.proper ih

theorem Deeds.has (hd : Deeds runtime makes s s') {i j : Nat} (h : s.world.Has i j) :
    s'.world.Has i j := by
  induction hd with
  | refl => exact h
  | tail _ hd ih => exact hd.has ih

/-! ## One step -/

/-- The machine, as far as its states belong to renders. -/
abbrev RenderState := State Bridge World Pending

namespace RenderState

variable {s t : RenderState}

/-- A turn puts what is kept meanwhile on the stack. -/
theorem stack_turn (s : RenderState) (t : EngineTurn) :
    (s.turn t).stack = (pendingOf t).toList.map .host ++ s.stack := by
  unfold State.turn pendingOf
  dsimp only
  split <;> simp only [*] <;> rfl

theorem hostsOf_turn (s : RenderState) (t : EngineTurn) :
    hostsOf (s.turn t).stack = (pendingOf t).toList ++ hostsOf s.stack := by
  rw [stack_turn]
  cases pendingOf t <;> rfl

theorem loansOn_turn (s : RenderState) (t : EngineTurn) :
    loansOn (s.turn t).stack = loansOf t ++ loansOn s.stack := by
  rw [loansOn, hostsOf_turn, List.filterMap_append, loansOf]
  cases pendingOf t with
  | none => rfl
  | some p =>
    simp only [Option.toList_some, List.filterMap_cons, Option.bind_some]
    cases p.loan? <;> rfl

/-- A turn leaves the heap and the world as it says, and a state that runs go through. -/
theorem turn_spec {t : EngineTurn} (hs : Script.Shaped s.stack) (hd : t.heap.IsDistinct) :
    (s.turn t).heap = t.heap ∧ (s.turn t).world = t.world ∧ (s.turn t).IsSound := by
  have hhost : ∀ p : Pending, Script.Shaped (.host p :: s.stack) := fun p =>
    ⟨.of_plain _ rfl rfl rfl, hs⟩
  unfold State.turn
  dsimp only
  split
  · exact ⟨rfl, rfl, ⟨⟨hs, hd⟩, .of_plain _ rfl rfl⟩⟩
  · exact ⟨rfl, rfl, ⟨⟨hs, hd⟩, .of_plain _ rfl rfl⟩⟩
  · refine ⟨rfl, rfl, ⟨⟨hhost _, hd⟩, ?_⟩⟩
    unfold State.enter
    dsimp only
    split <;> exact .of_plain _ rfl rfl
  · refine ⟨rfl, rfl, ⟨⟨hhost _, hd⟩, ?_⟩⟩
    unfold State.enter
    dsimp only
    split <;> exact .of_plain _ rfl rfl

end RenderState

/-- Whether a state comes from a scene by deeds, and its renders are of engines that use the
    runtime. -/
structure Underway (runtime : Nat) (makes : Scene → Nat → Prop) (s₀ : Scene) (s : RenderState) :
    Prop where
  sound : s.IsSound
  deeds : Deeds runtime makes s₀ (sceneOf s)
  has : ∀ p ∈ hostsOf s.stack, ∀ r, p.request? = some r → s.world.Has r.engine runtime

/-- Whether a context that a state hands to a render, newly made, is one that may be made. -/
def MakesWell (makes : Scene → Nat → Prop) (s : RenderState) : Prop :=
  ∀ r K vs c, s.stack = .host (.acquiring r) :: K → s.control = .values vs →
    Script.firstValue vs = .table c → makes ⟨loansOn K, s.heap, s.world⟩ c

namespace Underway

variable {s t : RenderState} {s₀ : Scene}

/-- Without the host only the heap changes, and it grows. -/
theorem of_grows (hu : Underway runtime makes s₀ s) (hsound : t.IsSound)
    (hworld : t.world = s.world) (hheap : s.heap.Grows t.heap)
    (hhosts : hostsOf t.stack = hostsOf s.stack) : Underway runtime makes s₀ t where
  sound := hsound
  deeds := by
    have hscene : sceneOf t = ⟨loansOn s.stack, t.heap, s.world⟩ := by
      rw [sceneOf, loansOn, hhosts, hworld]
      rfl
    rw [hscene]
    exact hu.deeds.tail (.code hheap)
  has p hp r hr := by
    rw [hworld]
    exact hu.has p (hhosts ▸ hp) r hr

/-- A turn of the host goes on by deeds. -/
theorem turn (hproper : s₀.IsProper runtime) {s : RenderState} (hs : Script.Shaped s.stack)
    {scene : Scene} (hdeeds : Deeds runtime makes s₀ scene)
    (hhas : ∀ p ∈ hostsOf s.stack, ∀ r, p.request? = some r → scene.world.Has r.engine runtime)
    {t : EngineTurn} (hd : Does runtime makes scene (loansOn s.stack) t) :
    Underway runtime makes s₀ (s.turn t) := by
  have hdeeds' : Deeds runtime makes s₀ _ := hdeeds.trans hd.deeds
  obtain ⟨hheap, hworld, hsound⟩ := RenderState.turn_spec hs (Deeds.proper hdeeds' hproper).distinct
  refine ⟨hsound, ?_, ?_⟩
  · rw [sceneOf, RenderState.loansOn_turn, hheap, hworld]
    exact hdeeds'
  · intro p hp r hr
    rw [hworld]
    rw [RenderState.hostsOf_turn, List.mem_append] at hp
    rcases hp with hp | hp
    · exact hd.has p r (by simpa using hp) hr
    · exact Deeds.has hd.deeds (hhas p hp r hr)

/-- What a method of the host does. -/
theorem invokes (hproper : s₀.IsProper runtime) (hu : Underway runtime makes s₀ s)
    {K : List (Frame Pending)} (hpart : hostPart K = hostPart s.stack) (name : Bytes)
    (args : List Value) : Does runtime makes (sceneOf s) (loansOn K)
      (Render.host.invoke name args s.level s.heap s.world) := by
  have hnow := Deeds.proper hu.deeds hproper
  have hscene : sceneOf s = ⟨loansOn K, s.heap, s.world⟩ := by
    rw [sceneOf, loansOn_congr hpart]
  rw [hscene]
  refine .invoke name args s.level fun b hb => ?_
  unfold Bridge.receiver? at hb
  split at hb
  · split at hb
    · next ho =>
      cases hb
      exact hnow.bridges _ _ ho
    · cases hb
  · cases hb

/-- What a function of the host does when it goes on. -/
theorem resumes (hu : Underway runtime makes s₀ s) (hm : MakesWell makes s) {p : Pending}
    {K : List (Frame Pending)} {outcome : Except RaisedError (List Value)}
    (hs : s.stack = .host p :: K) (harrives : s.Arrives outcome) :
    Does runtime makes (sceneOf s) (loansOn K)
      (Render.host.resume p outcome (s.level - 1) s.heap s.world) := by
  have hscene : sceneOf s = ⟨p.loan?.toList ++ loansOn K, s.heap, s.world⟩ := by
    rw [sceneOf, hs, loansOn_host]
  rw [hscene]
  refine .resume p outcome (s.level - 1) (fun r hr => hu.has p ?_ r hr) ?_
  · rw [hs, hostsOf_host]
    exact List.mem_cons_self
  · intro r vs c hp ho hc
    subst hp ho
    cases harrives with
    | values hcontrol => exact hm r K vs c hs hcontrol hc

theorem moves (hproper : s₀.IsProper runtime) (hu : Underway runtime makes s₀ s)
    (hm : MakesWell makes s) (hmove : s.Moves Render.host t) : Underway runtime makes s₀ t := by
  cases hmove with
  | internal h => exact hu.of_grows h.sound h.world h.heap (hostsOf_congr h.hostPart)
  | ended hs => exact hu
  | @invoked K hpart hshaped name args hcall =>
    have hhas : ∀ p ∈ hostsOf K, ∀ r, p.request? = some r →
        (sceneOf s).world.Has r.engine runtime := fun p hp r hr =>
      hu.has p ((hostsOf_congr hpart) ▸ hp) r hr
    exact turn hproper hshaped hu.deeds hhas (hu.invokes hproper hpart name args)
  | @resumed p K outcome hs harrives =>
    have hhas : ∀ q ∈ hostsOf K, ∀ r, q.request? = some r →
        (sceneOf s).world.Has r.engine runtime := fun q hq r hr => by
      refine hu.has q ?_ r hr
      rw [hs, hostsOf_host]
      exact List.mem_cons_of_mem p hq
    exact turn hproper (hu.sound.shaped_cons hs).2 hu.deeds hhas (hu.resumes hm hs harrives)
  | @described p K error hs hc =>
    refine hu.of_grows ?_ rfl (.refl _) rfl
    refine ⟨⟨⟨?_, hu.sound.shaped⟩, hu.sound.distinct⟩, .of_plain _ rfl rfl⟩
    exact .of_plain _ rfl rfl rfl
  | @undescribed K c hs hc =>
    have hshaped := (hu.sound.shaped_cons hs).2
    refine hu.of_grows ?_ rfl (.refl _) (by rw [hs]; rfl)
    refine ⟨⟨hshaped, hu.sound.distinct⟩, ?_⟩
    obtain ⟨cause, rfl⟩ | ⟨error, rfl⟩ := hc <;> exact .of_plain _ rfl rfl

theorem step (hproper : s₀.IsProper runtime) (hu : Underway runtime makes s₀ s)
    (hm : MakesWell makes s) : Underway runtime makes s₀ (s.step Render.host) :=
  hu.moves hproper hm hu.sound.moves

/-- Every state that a run goes through. -/
theorem stepMany (hproper : s₀.IsProper runtime) (hu : Underway runtime makes s₀ s) (n : Nat)
    (hm : ∀ m < n, MakesWell makes (s.stepMany Render.host m)) :
    Underway runtime makes s₀ (s.stepMany Render.host n) := by
  induction n with
  | zero => exact hu
  | succ n ih =>
    rw [State.stepMany_add]
    exact (ih fun m hlt => hm m (by omega)).step hproper (hm n (by omega))

end Underway

end ScriptedViews

import ScriptedViews.Proofs.Render.Apart
import ScriptedViews.Proofs.Render.Context

set_option autoImplicit false

/-! # Making contexts while renders run

A context that a render has made for it is a new table, if the code that makes it finds the library
function for that among the global variables when it starts. Nothing else runs between its start and
its end, unless it fails. -/

namespace ScriptedViews

open Expansion (FindsMaker withContext withContextCode calmly_contextCode
  eq_of_readChunk_contextSource)
open Script (Value Frame Control State hostPart)
open Script.State (Calmly Moves)

/-! ## Stacks -/

/-- Whether no context is being made, as far as a stack tells. One that has failed to be made does
    not count while its error gets a text, which is so for one on top if it is `described`. -/
def MakesNone (described : Bool) : List (Frame Pending) → Prop
  | [] => True
  | f :: K =>
    match f with
    | .host (.acquiring _) => described = true ∧ MakesNone false K
    | .describing => MakesNone true K
    | _ => MakesNone false K

section Stacks

variable {K K' : List (Frame Pending)} {f : Frame Pending} {described : Bool}

theorem makesNone_of_not (hf : f.isHosts = false) :
    MakesNone described (f :: K) ↔ MakesNone false K := by
  cases f <;> first | exact Iff.rfl | cases hf

theorem makesNone_host {p : Pending} :
    MakesNone described (.host p :: K)
      ↔ (∀ r, p = .acquiring r → described = true) ∧ MakesNone false K := by
  cases p <;> simp [MakesNone]

theorem makesNone_hostPart : MakesNone false (hostPart K) ↔ MakesNone false K := by
  induction K with
  | nil => exact Iff.rfl
  | cons f K ih =>
    cases hf : f.isHosts with
    | true => rw [hostPart, List.dropWhile_cons_of_neg (by rw [hf]; decide)]
    | false => rw [Script.hostPart_of_not hf, makesNone_of_not hf, ih]

theorem MakesNone.congr (h : MakesNone false K) (hpart : hostPart K' = hostPart K) :
    MakesNone false K' :=
  makesNone_hostPart.1 (hpart ▸ makesNone_hostPart.2 h)

/-- Only the frame on top tells whether an error gets its text. -/
theorem MakesNone.change {a b : Bool} (h : MakesNone a K)
    (hK : ∀ r K', K = .host (.acquiring r) :: K' → b = true) : MakesNone b K := by
  cases K with
  | nil => trivial
  | cons f K =>
    cases hf : f.isHosts with
    | false => exact (makesNone_of_not hf).2 ((makesNone_of_not hf).1 h)
    | true =>
      cases f <;> cases hf
      · exact makesNone_host.2 ⟨fun r hr => hK r K (hr ▸ rfl), (makesNone_host.1 h).2⟩
      · exact h

theorem MakesNone.describing (h : MakesNone false K) : MakesNone false (.describing :: K) :=
  show MakesNone true K from h.change fun _ _ _ => rfl

end Stacks

/-! ## States -/

variable {runtime : Nat} {s t : RenderState} {s₀ : Scene}

/-- Whether a context starts being made. -/
def StartsMaking (s : RenderState) : Prop :=
  ∃ r K f, s.stack = .host (.acquiring r) :: K ∧ s.control = .invoke f [] none

/-- Whether a context has come to be made, a new one, or has failed to. -/
inductive HasEnded (runtime : Nat) (s : RenderState) (K : List (Frame Pending)) : Prop
  | made {c : Nat} (hc : s.control = .values [.table c])
      (hf : IsFresh runtime ⟨loansOn K, s.heap, s.world⟩ c)
  | raised {error : Value} (hc : s.control = .raised error)
  | failed {cause : RaisedError} (hc : s.control = .failed cause)

/-- Whether no context is being made, or it will be a new one. -/
inductive MakesApart (runtime : Nat) (s : RenderState) : Prop
  | quiet (h : MakesNone false s.stack)
  | one {t : RenderState} {r : Request} {K : List (Frame Pending)} (h : Calmly Render.host s t)
      (hs : t.stack = .host (.acquiring r) :: K) (hK : MakesNone false K)
      (ht : HasEnded runtime t K)

namespace MakesApart

/-- A context that is handed to a render is a new one. -/
theorem makesWell (h : MakesApart runtime s) : MakesWell (IsFresh runtime) s := by
  intro r K vs c hs hc hvs
  cases h with
  | quiet h =>
    rw [hs] at h
    exact absurd ((makesNone_host.1 h).1 r rfl) (by decide)
  | one hcalm hs' hK ht =>
    cases hcalm with
    | step hresumes =>
      rw [Script.State.resumes, hc, hs] at hresumes
      cases hresumes
    | refl =>
      cases hs.symm.trans hs'
      cases ht with
      | made hc' hf =>
        cases hc.symm.trans hc'
        cases hvs
        exact hf
      | raised hc' => cases hc.symm.trans hc'
      | failed hc' => cases hc.symm.trans hc'

/-- The code that makes a context is called. -/
theorem called {h : BridgeHeap} {r : Request} {K : List (Frame Pending)}
    (hheap : s.heap = withContextCode h) (hs : s.stack = .host (.acquiring r) :: K)
    (hc : s.control = .invoke (.function h.functions.size) [] none
      ∨ ∃ error, s.control = .raised error)
    (hK : MakesNone false K) (happart : (sceneOf s).IsApart runtime)
    (hmaker : StartsMaking s → FindsMaker s.heap) : MakesApart runtime s := by
  obtain ⟨heap, w, stack, control, level, depth⟩ := s
  subst hheap hs
  rcases hc with rfl | ⟨error, rfl⟩
  · by_cases hdepth : depth < Script.maxDepth
    · have hm := hmaker ⟨r, K, _, rfl, rfl⟩
      have hfinds : FindsMaker h := ⟨hm.setmetatable, hm.self⟩
      refine .one (calmly_contextCode hfinds hdepth (.host (.acquiring r) :: K) none) rfl hK (.made rfl ⟨fun hmem => ?_, ?_⟩)
      · exact Nat.lt_irrefl _ (happart.lt _ hmem)
      · exact (Expansion.findsGlobals_withContext (withContextCode h)).lt
    · have hraise : State.step Render.host
          ⟨withContextCode h, w, .host (.acquiring r) :: K, .invoke (.function h.functions.size) []
            none, level, depth⟩
          = State.raiseText ⟨withContextCode h, w, .host (.acquiring r) :: K,
            .invoke (.function h.functions.size) [] none, level, depth⟩ none "stack overflow" := by
        have hcode : (withContextCode h).functions[h.functions.size]? = some _ :=
          Script.Heap.functions_newFunction _ _
        simp only [State.step, State.invoke, hcode, State.callFunction, Nat.not_lt.1 hdepth,
          if_true]
      exact .one (.head rfl hraise (.refl _)) rfl hK (.raised rfl)
  · exact .one (.refl _) rfl hK (.raised rfl)

/-- A turn of the host leaves a context to be made only where one starts being made. -/
theorem turn (hK : MakesNone false s.stack) {t : EngineTurn}
    (hmaking : ∀ r, pendingOf t = some (.acquiring r) → HasMade t r)
    (happart : (sceneOf (s.turn t)).IsApart runtime)
    (hmaker : StartsMaking (s.turn t) → FindsMaker (s.turn t).heap) :
    MakesApart runtime (s.turn t) := by
  by_cases hp : ∃ r, pendingOf t = some (.acquiring r)
  · obtain ⟨r, hp⟩ := hp
    obtain ⟨levels, h, f, hread, haction⟩ := hmaking r hp
    obtain ⟨rfl, hheap⟩ := eq_of_readChunk_contextSource hread
    obtain ⟨heap, w, action⟩ := t
    cases haction
    refine called hheap rfl ?_ hK happart hmaker
    simp only [State.turn, State.enter]
    split
    · exact .inr ⟨_, rfl⟩
    · exact .inl rfl
  · refine .quiet ?_
    rw [RenderState.stack_turn]
    cases hpending : pendingOf t with
    | none => exact hK
    | some p =>
      refine makesNone_host.2 ⟨fun r hr => ?_, hK⟩
      exact absurd ⟨r, hr ▸ hpending⟩ hp

end MakesApart

/-! ## Runs -/

/-- Whether a state is underway, contexts that get made are new ones, and no context is being made
    unless it will be a new one. -/
structure UnderwayApart (runtime : Nat) (s₀ : Scene) (s : RenderState) : Prop
    extends Underway runtime (IsFresh runtime) s₀ s where
  makesApart : MakesApart runtime s

namespace UnderwayApart

variable (hproper : s₀.IsProper runtime) (happart : s₀.IsApart runtime)

include hproper happart

theorem apart (h : UnderwayApart runtime s₀ s) : (sceneOf s).IsApart runtime :=
  Deeds.apart h.deeds hproper happart

/-- A function of the host goes on above a stack on which no context is being made. -/
theorem resumed (h : UnderwayApart runtime s₀ s) {p : Pending} {K : List (Frame Pending)}
    {outcome : Except RaisedError (List Value)} (hs : s.stack = .host p :: K)
    (harrives : s.Arrives outcome) (hK : MakesNone false K)
    (ht : t = State.turn { s with stack := K, level := s.level - 1, control := .finished }
      (Render.host.resume p outcome (s.level - 1) s.heap s.world))
    (hmaker : StartsMaking t → FindsMaker t.heap) : UnderwayApart runtime s₀ t := by
  subst ht
  have hunderway := h.toUnderway.moves hproper h.makesApart.makesWell (.resumed hs harrives)
  exact ⟨hunderway, .turn hK (h.resumes h.makesApart.makesWell hs harrives).making
    (Deeds.apart hunderway.deeds hproper happart) hmaker⟩

/-- A step where no context is being made. -/
theorem moves (h : UnderwayApart runtime s₀ s) (hquiet : MakesNone false s.stack)
    (hmove : s.Moves Render.host t) (hmaker : StartsMaking t → FindsMaker t.heap) :
    UnderwayApart runtime s₀ t := by
  have hunderway := h.toUnderway.moves hproper h.makesApart.makesWell hmove
  have happart' := Deeds.apart hunderway.deeds hproper happart
  cases hmove with
  | internal hi => exact ⟨hunderway, .quiet (hquiet.congr hi.hostPart)⟩
  | ended hs => exact ⟨hunderway, .quiet hquiet⟩
  | @invoked K hpart hshaped name args hcall =>
    exact ⟨hunderway, .turn (hquiet.congr hpart) (h.invokes hproper hpart name args).making happart'
      hmaker⟩
  | @resumed p K outcome hs harrives =>
    exact h.resumed hproper happart hs harrives (makesNone_host.1 (hs ▸ hquiet)).2 rfl hmaker
  | described hs hc => exact ⟨hunderway, .quiet hquiet.describing⟩
  | @undescribed K c hs hc =>
    refine ⟨hunderway, ?_⟩
    have hK : MakesNone true K := by
      rw [hs] at hquiet
      exact hquiet
    by_cases hp : ∃ r K', K = .host (.acquiring r) :: K'
    · obtain ⟨r, K', rfl⟩ := hp
      refine .one (.refl _) rfl (makesNone_host.1 hK).2 ?_
      obtain ⟨cause, rfl⟩ | ⟨error, rfl⟩ := hc
      · exact .failed rfl
      · exact .raised rfl
    · exact .quiet (hK.change fun r K' heq => absurd ⟨r, K', heq⟩ hp)

/-- A step where a context has come to be made, or has failed to. -/
theorem ended (h : UnderwayApart runtime s₀ s) {r : Request} {K : List (Frame Pending)}
    (hs : s.stack = .host (.acquiring r) :: K) (hK : MakesNone false K)
    (hended : HasEnded runtime s K)
    (hmaker : StartsMaking (s.step Render.host) → FindsMaker (s.step Render.host).heap) :
    UnderwayApart runtime s₀ (s.step Render.host) := by
  have hunderway := h.toUnderway.step hproper h.makesApart.makesWell
  obtain ⟨heap, w, stack, control, level, depth⟩ := s
  subst hs
  cases hended with
  | @made c hc hf =>
    subst hc
    exact h.resumed hproper happart rfl (.values rfl) hK rfl hmaker
  | @failed cause hc =>
    subst hc
    exact h.resumed hproper happart rfl (.failed rfl) hK rfl hmaker
  | @raised error hc =>
    subst hc
    cases hf : State.failureOf? heap error with
    | some cause =>
      refine h.resumed hproper happart rfl (.raised rfl hf) hK ?_ hmaker
      simp only [State.step, State.settle, State.resumeRaised, hf]
      rfl
    | none =>
      refine ⟨hunderway, .quiet ?_⟩
      simp only [State.step, State.settle, State.resumeRaised, hf]
      show MakesNone true (.host (.acquiring r) :: K)
      exact makesNone_host.2 ⟨fun _ _ => rfl, hK⟩

theorem step (h : UnderwayApart runtime s₀ s)
    (hmaker : StartsMaking (s.step Render.host) → FindsMaker (s.step Render.host).heap) :
    UnderwayApart runtime s₀ (s.step Render.host) := by
  cases h.makesApart with
  | quiet hquiet => exact h.moves hproper happart hquiet h.sound.moves hmaker
  | one hcalm hs hK ht =>
    cases hcalm with
    | step hresumes hcalm =>
      exact ⟨h.toUnderway.step hproper h.makesApart.makesWell, .one hcalm hs hK ht⟩
    | refl => exact h.ended hproper happart hs hK ht hmaker

/-- Contexts stay apart through a run in which the library function that makes them is found each
    time that one is made. -/
theorem stepMany (h : UnderwayApart runtime s₀ s) (n : Nat)
    (hmaker : ∀ m ≤ n, StartsMaking (s.stepMany Render.host m) →
      FindsMaker (s.stepMany Render.host m).heap) :
    UnderwayApart runtime s₀ (s.stepMany Render.host n) := by
  induction n with
  | zero => exact h
  | succ n ih =>
    rw [State.stepMany_add]
    have hnow := hmaker (n + 1) (Nat.le_refl _)
    rw [State.stepMany_add] at hnow
    exact (ih fun m hle => hmaker m (by omega)).step hproper happart hnow

end UnderwayApart

end ScriptedViews

import ScriptedViews.Proofs.Script.Internal.Steps
import ScriptedViews.Proofs.Script.Reaches

set_option autoImplicit false

/-! # Errors on their way

An error that code raises, or a failure that the host gives code for an error, passes one frame after
the other until it comes to a function of the host, unless something catches it. The host gets a
failure as it was, and the text of any other error. -/

namespace ScriptedViews.Script

variable {ω σ φ : Type}

/-- Whether errors of what runs above a frame do not pass it. -/
def Frame.catches : Frame φ → Bool
  | .guarded _ => true
  | .chunkPiece .. => true
  | _ => false

/-- Whether an error is on its way. -/
def Control.isFailing : Control → Bool
  | .raised _ => true
  | .failed _ => true
  | _ => false

/-! ## Stacks above a function of the host -/

/-- Whether a function of the host is at the bottom of a stack, where no text of an error is being
    made. -/
structure Rests (p : φ) (K : List (Frame φ)) : Prop where
  last : K.getLast? = some (.host p)
  undisturbed : .describing ∉ K

theorem takeWhile_append_hostPart (K : List (Frame φ)) :
    K.takeWhile (fun f => !f.isHosts) ++ hostPart K = K :=
  List.takeWhile_append_dropWhile

theorem isHosts_of_mem_takeWhile {f : Frame φ} {K : List (Frame φ)}
    (hmem : f ∈ K.takeWhile fun f => !f.isHosts) : f.isHosts = false := by
  simpa using List.all_eq_true.1 List.all_takeWhile f hmem

theorem mem_hostPart {f : Frame φ} (hf : f.isHosts = true) {K : List (Frame φ)} :
    f ∈ hostPart K ↔ f ∈ K := by
  have hsplit : f ∈ K ↔ f ∈ K.takeWhile (fun f => !f.isHosts) ∨ f ∈ hostPart K := by
    rw [← List.mem_append, takeWhile_append_hostPart]
  refine ⟨fun h => hsplit.2 (.inr h), fun h => (hsplit.1 h).resolve_left fun hmem => ?_⟩
  rw [isHosts_of_mem_takeWhile hmem] at hf
  cases hf

theorem getLast?_hostPart {f : Frame φ} (hf : f.isHosts = true) {K : List (Frame φ)} :
    (hostPart K).getLast? = some f ↔ K.getLast? = some f := by
  have hsplit : K.getLast? = (hostPart K).getLast?.or
      (K.takeWhile fun f => !f.isHosts).getLast? := by
    rw [← List.getLast?_append, takeWhile_append_hostPart]
  rw [hsplit]
  cases (hostPart K).getLast? with
  | some g => rfl
  | none =>
    refine ⟨nofun, fun h => ?_⟩
    rw [isHosts_of_mem_takeWhile (List.mem_of_getLast? h)] at hf
    cases hf

namespace Rests

variable {p q : φ} {K K' : List (Frame φ)} {f : Frame φ}

theorem congr (h : Rests p K) (hpart : hostPart K' = hostPart K) : Rests p K' where
  last := by rw [← getLast?_hostPart rfl, hpart, getLast?_hostPart rfl, h.last]
  undisturbed hmem := h.undisturbed ((mem_hostPart rfl).1 (hpart ▸ (mem_hostPart rfl).2 hmem))

theorem cons (h : Rests p K) (q : φ) : Rests p (.host q :: K) where
  last := by rw [List.getLast?_cons, h.last]; rfl
  undisturbed hmem := (List.mem_cons.1 hmem).elim nofun h.undisturbed

/-- A frame above the last one is taken off. -/
theorem tail (h : Rests p (f :: K)) (hK : K ≠ []) : Rests p K where
  last := by
    obtain ⟨g, K, rfl⟩ := List.exists_cons_of_ne_nil hK
    rw [← h.last, List.getLast?_cons_cons]
  undisturbed hmem := h.undisturbed (List.mem_cons_of_mem _ hmem)

end Rests

namespace State

variable {host : Host ω σ φ} {s t : State ω σ φ} {cause : RaisedError}

/-- Whether an error is on its way of which the host gets to know a cause. -/
inductive Fails (s : State ω σ φ) : RaisedError → Prop
  | failed {cause : RaisedError} (hc : s.control = .failed cause) : Fails s cause
  | raised {error : Value} {cause : RaisedError} (hc : s.control = .raised error)
      (hf : failureOf? s.heap error = some cause) : Fails s cause
  | text {bytes : Bytes} (hc : s.control = .raised (.text bytes)) :
      Fails s (.runtime (errorText (.text bytes)))

/-- Whether an error that is on its way is not caught, and its text is what it is. -/
structure LetsPass (s : State ω σ φ) : Prop where
  uncaught : ∀ {error : Value} {f : Frame φ} {K : List (Frame φ)}, s.control = .raised error →
    s.stack = f :: K → f.catches = false
  plain : ∀ {bytes : Bytes} {p : φ} {K : List (Frame φ)}, s.control = .raised (.text bytes) →
    s.stack = .host p :: K → s.heap.metafield (.text bytes) "__tostring" = .nil

/-- An error that is on its way passes a frame that is not of the host and does not catch it. -/
theorem resumeRaised_of_passes (error : Value) {f : Frame φ} (hf : f.isHosts = false)
    (hcatches : f.catches = false) : ∃ level depth,
      s.resumeRaised host error f = { s with level, depth, control := .raised error } := by
  cases f with
  | host p => cases hf
  | describing => cases hf
  | guarded site => cases hcatches
  | chunkPiece source reader name environment => cases hcatches
  | _ => exact ⟨_, _, rfl⟩

/-- A failure is an error of code that passes the same way. -/
theorem step_of_failed {f : Frame φ} {K : List (Frame φ)} (hs : s.stack = f :: K)
    (hc : s.control = .failed cause) (hf : f.isHosts = false) (host : Host ω σ φ) : ∃ heap error,
      s.step host = { s with heap, control := .raised error }
        ∧ failureOf? heap error = some cause := by
  obtain ⟨heap, w, stack, control, level, depth⟩ := s
  cases hs
  cases hc
  refine ⟨(heap.newObject (.failure cause)).2, (heap.newObject (.failure cause)).1, ?_, ?_⟩
  · cases f <;> first | rfl | cases hf
  · simp [failureOf?, Heap.newObject]

/-- A raised error leaves a frame. -/
theorem step_of_raised {error : Value} {f : Frame φ} {K : List (Frame φ)} (hs : s.stack = f :: K)
    (hc : s.control = .raised error) (hf : f.isHosts = false) (hpass : s.LetsPass)
    (host : Host ω σ φ) :
    ∃ level depth, s.step host = { s with stack := K, level, depth, control := .raised error } := by
  have hcatches := hpass.uncaught hc hs
  obtain ⟨heap, w, stack, control, level, depth⟩ := s
  cases hs
  cases hc
  exact resumeRaised_of_passes (s := ⟨heap, w, K, .raised error, level, depth⟩) error hf hcatches

/-- Whatever frame of code is on top of the stack is left. -/
theorem Fails.pop (h : s.Fails cause) {f : Frame φ} {K : List (Frame φ)} (hs : s.stack = f :: K)
    (hf : f.isHosts = false) (hpass : ∀ t, Reaches host s t → t.LetsPass) :
    ∃ t, Reaches host s t ∧ t.stack = K ∧ t.world = s.world ∧ t.Fails cause := by
  have hraised {s : State ω σ φ} {error : Value} (hs : s.stack = f :: K)
      (hc : s.control = .raised error) (hpass : s.LetsPass) :
      ∃ t, Reaches host s t ∧ t.stack = K ∧ t.world = s.world ∧ t.heap = s.heap
        ∧ t.control = .raised error := by
    obtain ⟨level, depth, hstep⟩ := step_of_raised hs hc hf hpass host
    exact ⟨_, .head hstep (.refl _), rfl, rfl, rfl, rfl⟩
  cases h with
  | failed hc =>
    -- Code gets the failure as an error first.
    obtain ⟨heap, error, hstep, hfailure⟩ := step_of_failed hs hc hf host
    have hreaches : Reaches host s { s with heap, control := .raised error } :=
      .head hstep (.refl _)
    obtain ⟨t, ht, hstack, hworld, hheap, hcontrol⟩ := hraised (s := { s with heap, control := _ })
      hs rfl (hpass _ hreaches)
    exact ⟨t, hreaches.trans ht, hstack, hworld, .raised hcontrol (hheap ▸ hfailure)⟩
  | raised hc hfailure =>
    obtain ⟨t, ht, hstack, hworld, hheap, hcontrol⟩ := hraised hs hc (hpass _ (.refl _))
    exact ⟨t, ht, hstack, hworld, .raised hcontrol (hheap ▸ hfailure)⟩
  | text hc =>
    obtain ⟨t, ht, hstack, hworld, -, hcontrol⟩ := hraised hs hc (hpass _ (.refl _))
    exact ⟨t, ht, hstack, hworld, .text hcontrol⟩

/-- A function of the host goes on with the cause. -/
theorem Fails.resume (h : s.Fails cause) {p : φ} {K : List (Frame φ)} (hs : s.stack = .host p :: K)
    (hpass : s.LetsPass) : ∃ heap level depth, Reaches host s
      (State.turn ⟨heap, s.world, K, .finished, level, depth⟩
        (host.resume p (.error cause) level heap s.world)) := by
  cases h with
  | failed hc =>
    obtain ⟨heap, w, stack, control, level, depth⟩ := s
    cases hs
    cases hc
    exact ⟨heap, level - 1, depth, .many 1 rfl⟩
  | raised hc hfailure =>
    obtain ⟨heap, w, stack, control, level, depth⟩ := s
    cases hs
    cases hc
    refine ⟨heap, level - 1, depth, .head ?_ (.refl _)⟩
    simp only [step, settle, resumeRaised, hfailure]
    rfl
  | text hc =>
    have hplain := hpass.plain hc hs
    obtain ⟨heap, w, stack, control, level, depth⟩ := s
    cases hs
    cases hc
    rename_i bytes
    refine ⟨heap, level - 1, depth, ?_⟩
    -- The text of the error is asked for, and is the error itself.
    have hdescribes : step host ⟨heap, w, .describing :: .host p :: K,
          .invoke (.builtin .tostring) [.text bytes] none, level, depth⟩
        = ⟨heap, w, .describing :: .host p :: K, .values [.text bytes], level, depth⟩ := by
      dsimp only at hplain
      show textOf _ (.text bytes) none = _
      rw [textOf, hplain]
      rfl
    exact (Reaches.many 1 rfl).trans (.head hdescribes (.many 2 rfl))

end State

end ScriptedViews.Script

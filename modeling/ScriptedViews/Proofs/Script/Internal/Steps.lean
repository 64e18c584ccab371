import ScriptedViews.Proofs.Script.Internal.Statements
import ScriptedViews.Script.Machine.Run

set_option autoImplicit false

/-! # What a step can be

A step is code that goes on by itself, or a turn of the host: one of its methods is called, or one of
its functions goes on with the outcome of what it called. In between, the text of an error that
reaches a function of the host is made. -/

namespace ScriptedViews.Script.State

variable {ω σ φ : Type} {host : Host ω σ φ} {s t : State ω σ φ}

/-- What a function of the host goes on with: the values of what it called, or a failure where that
    failed or raised an error. -/
inductive Arrives (s : State ω σ φ) : Except RaisedError (List Value) → Prop
  | values {vs : List Value} (hc : s.control = .values vs) : Arrives s (.ok vs)
  | failed {cause : RaisedError} (hc : s.control = .failed cause) : Arrives s (.error cause)
  | raised {error : Value} {cause : RaisedError} (hc : s.control = .raised error)
      (hf : failureOf? s.heap error = some cause) : Arrives s (.error cause)

/-- The method of the host that the next step calls, what it is called with, and the stack below the
    call. A call in the place of the running function is made as soon as its arguments are known. -/
def methodCall? (s : State ω σ φ) : Option (Bytes × List Value × List (Frame φ)) :=
  match s.control, s.stack with
  | .invoke (.method name) args _, K => some (name, args, K)
  | .values vs, .arguments (.method name) lead _ true :: K => some (name, lead ++ vs, K)
  | _, _ => none

/-- What a step can be. -/
inductive Moves (host : Host ω σ φ) (s : State ω σ φ) : State ω σ φ → Prop
  | internal {t : State ω σ φ} (h : Internal s t) : Moves host s t
  /-- There is nothing left to be done. -/
  | ended (hs : s.stack = []) : Moves host s s
  /-- A method is called. -/
  | invoked {K : List (Frame φ)} (hm : hostPart K = hostPart s.stack) (hs : Shaped K) {name : Bytes}
      {args : List Value} (hcall : s.methodCall? = some (name, args, K)) :
      Moves host s (turn { s with stack := K } (host.invoke name args s.level s.heap s.world))
  /-- A function of the host goes on. -/
  | resumed {p : φ} {K : List (Frame φ)} {outcome : Except RaisedError (List Value)}
      (hs : s.stack = .host p :: K) (ho : Arrives s outcome) :
      Moves host s (turn { s with stack := K, level := s.level - 1, control := .finished }
        (host.resume p outcome (s.level - 1) s.heap s.world))
  /-- The text of an error is asked for. -/
  | described {p : φ} {K : List (Frame φ)} {error : Value} (hs : s.stack = .host p :: K)
      (hc : s.control = .raised error) :
      Moves host s { s with
        stack := .describing :: s.stack
        control := .invoke (.builtin .tostring) [error] none }
  /-- The text of an error, or another error in its place, has come. -/
  | undescribed {K : List (Frame φ)} {c : Control} (hs : s.stack = .describing :: K)
      (hc : (∃ cause, c = .failed cause) ∨ ∃ error, c = .raised error) :
      Moves host s { s with stack := K, control := c }

/-- Before a step of code that goes on by itself a frame may be taken off the stack. -/
theorem Moves.of_pop {f : Frame φ} {K : List (Frame φ)} (hs : s.stack = f :: K)
    (hf : f.isHosts = false) (h : Internal { s with stack := K } t) : Moves host s t :=
  .internal (h.congr rfl rfl (by rw [hs, hostPart_of_not hf]))

namespace IsOrderly

variable (h : s.IsOrderly)

include h

/-! ## Values -/

/-- The values of what an expression waits for, unless that is the method of an object. -/
theorem resumeExpression (vs : List Value) {f : Frame φ} (hf : f.Fits s.stack)
    (hcallee : ∀ name lead site, f ≠ .arguments (.method name) lead site true) :
    Internal s (s.resumeExpression host vs f) := by
  unfold State.resumeExpression
  dsimp only
  split
  case h_7 callee lead site tail =>
    split
    · next htail =>
      subst htail
      refine h.invokeLast (hf.inBody (.inr rfl)) (fun name hname => ?_) _ site
      exact hcallee name lead site (hname ▸ rfl)
    · exact h.go (.of_plain _ rfl rfl) rfl
  case h_4 => exact h.push rfl (hf.of_tail id rfl rfl) (.of_plain _ rfl rfl) rfl
  case h_5 => exact h.push rfl (hf.of_tail id rfl rfl) (.of_plain _ rfl rfl) rfl
  case h_6 => exact h.push rfl (hf.of_tail id rfl rfl) (.of_plain _ rfl rfl) rfl
  case h_10 => exact h.operateOn _ _ _
  case h_12 => exact h.operate _ _ _ _
  case h_17 => exact h.go (Control.fits_construct ((hf.distinct _ rfl).addAll [firstValue vs]) _) rfl
  case h_18 => exact h.finishTable ((hf.distinct _ rfl).addAll vs)
  case h_19 => exact h.pushConstruction (hf.distinct _ rfl) rfl _ _
  case h_20 => exact h.constructed _ (hf.distinct _ rfl) _ _ _ _
  all_goals first
    | exact h.giveOne _
    | exact h.give _
    | exact h.go (.of_plain _ rfl rfl) rfl
    | exact h.push rfl (.of_plain _ rfl rfl rfl) (.of_plain _ rfl rfl) rfl
    | split <;> first
      | exact h.giveOne _
      | exact h.push rfl (.of_plain _ rfl rfl rfl) (.of_plain _ rfl rfl) rfl

theorem resumeStatement (hb : InBody s.stack) (vs : List Value) (f : Frame φ) :
    Internal s (s.resumeStatement vs f) := by
  unfold State.resumeStatement
  dsimp only
  split
  · exact h.executeWith hb _ _ _ _
  · exact h.resolveKey hb _ _ _ _ _ _ _
  · exact h.go (.of_inBody hb rfl) rfl
  · exact h.assign hb _ _
  · exact h.go (.of_inBody hb rfl) rfl
  · split
    · exact h.push rfl (.of_inBody hb rfl) (.of_inBody (.inr ⟨rfl, hb⟩) rfl) rfl
    · exact h.go (.of_inBody hb rfl) rfl
  · split
    · exact h.go (.of_inBody hb rfl) rfl
    · exact h.go (.of_inBody hb rfl) rfl
  · exact h.startNumeric hb _ _ _ _ _
  · exact h.iterate hb _ _ _ _ _ _ _
  · exact h.runGeneric hb _ _ _ _ _ _ _
  · exact h.go (.of_inBody hb rfl) rfl
  · exact h.go (.of_inBody hb rfl) rfl

theorem resumeCall (vs : List Value) {f : Frame φ} (hf : f.isHosts = false) :
    Internal s (s.resumeCall host vs f) := by
  unfold State.resumeCall
  dsimp only
  split
  · exact h.leave (.of_plain _ rfl rfl) rfl
  · exact h.leave (.of_plain _ rfl rfl) rfl
  · cases hf
  · cases hf
  · split
    · exact h.giveOne _
    · exact h.raiseText _ _
  · split
    · exact h.giveOne _
    · exact h.give _
  · split
    · exact h.continueFormat _ _
    · exact h.give _
  · exact h.sortCompared _ _ _
  · exact h.addPiece _ _ _ _ _
  · exact h.give _

/-! ## Ends and exits -/

/-- The running function is left. -/
theorem deactivate {c : Control} (hs : c.isStatement = false) (hc : c.construction? = none)
    (hq : c.isFailed = false) :
    Internal s { s with depth := s.depth - 1, control := c } :=
  ⟨rfl, .refl _, rfl, ⟨⟨h.shaped, h.distinct⟩, .of_plain _ hs hc⟩, hq⟩

theorem resumeFinished {f : Frame φ} (hb : InBody (f :: s.stack)) :
    Internal s (s.resumeFinished f) := by
  rcases hb with hf | ⟨hf, hb⟩
  · obtain ⟨site, rfl⟩ : ∃ site, f = .activation site := by
      cases f <;> first | exact ⟨_, rfl⟩ | cases hf
    exact h.deactivate rfl rfl rfl
  · unfold State.resumeFinished
    split
    · exact h.go (.of_inBody hb rfl) rfl
    · exact h.go (.of_inBody hb rfl) rfl
    · exact h.pushStatement hb rfl rfl rfl rfl rfl
    · exact h.push rfl (.of_inBody hb rfl) (.of_inBody (.inr ⟨rfl, hb⟩) rfl) rfl
    · exact h.nextInt hb _ _ _ _ _ _
    · exact h.nextFloat hb _ _ _ _ _ _
    · exact h.iterate hb _ _ _ _ _ _ _
    · cases hf
    · cases hf
    · exact h.go (.of_inBody hb rfl) rfl

theorem resumeLeaving {f : Frame φ} (hb : InBody (f :: s.stack)) :
    Internal s (s.resumeLeaving f) := by
  rcases hb with hf | ⟨hf, hb⟩
  · obtain ⟨site, rfl⟩ : ∃ site, f = .activation site := by
      cases f <;> first | exact ⟨_, rfl⟩ | cases hf
    exact h.deactivate rfl rfl rfl
  · unfold State.resumeLeaving
    split <;> first
      | exact h.go (.of_inBody hb rfl) rfl
      | cases hf

theorem resumeReturning (vs : List Value) {f : Frame φ} (hb : InBody (f :: s.stack)) :
    Internal s (s.resumeReturning vs f) := by
  rcases hb with hf | ⟨hf, hb⟩
  · obtain ⟨site, rfl⟩ : ∃ site, f = .activation site := by
      cases f <;> first | exact ⟨_, rfl⟩ | cases hf
    exact h.deactivate rfl rfl rfl
  · unfold State.resumeReturning
    split
    · cases hf
    · exact h.go (.of_inBody hb rfl) rfl

theorem resumeRaised (error : Value) {f : Frame φ} (hf : f.isHosts = false) :
    Internal s (s.resumeRaised host error f) := by
  unfold State.resumeRaised
  split
  · exact h.deactivate rfl rfl rfl
  · exact h.leave (.of_plain _ rfl rfl) rfl
  · exact h.leave (.of_plain _ rfl rfl) rfl
  · exact h.give _
  · cases hf
  · exact h.go (.of_plain _ rfl rfl) rfl

end IsOrderly

/-! ## One step -/

namespace Moves

variable {f : Frame φ} {K : List (Frame φ)}

theorem resumeValues (h : s.IsSound) {vs : List Value} (hc : s.control = .values vs)
    (hs : s.stack = f :: K) : Moves host s (State.resumeValues host { s with stack := K } vs f) := by
  have hshaped := h.shaped_cons hs
  have ho : IsOrderly { s with stack := K } := ⟨hshaped.2, h.distinct⟩
  cases hm : f.isHosts with
  | true =>
    cases f <;> cases hm
    · exact .resumed hs (.values hc)
    · exact .undescribed hs (.inl ⟨_, rfl⟩)
  | false =>
    unfold State.resumeValues
    split <;> first
      | exact .of_pop hs hm (ho.resumeStatement (hshaped.1.inBody (.inl rfl)) vs _)
      | exact .of_pop hs hm (ho.resumeCall vs hm)
      | skip
    by_cases hcallee : ∃ name lead site, f = .arguments (.method name) lead site true
    · obtain ⟨name, lead, site, rfl⟩ := hcallee
      exact .invoked (by rw [hs, hostPart_of_not hm]) hshaped.2
        (by simp only [methodCall?, hc, hs])
    · exact .of_pop hs hm (ho.resumeExpression vs hshaped.1
        fun name lead site heq => hcallee ⟨name, lead, site, heq⟩)

theorem resumeRaised (h : s.IsSound) {error : Value} (hc : s.control = .raised error)
    (hs : s.stack = f :: K) : Moves host s (State.resumeRaised host { s with stack := K } error f) := by
  have hshaped := h.shaped_cons hs
  have ho : IsOrderly { s with stack := K } := ⟨hshaped.2, h.distinct⟩
  cases hm : f.isHosts with
  | false => exact .of_pop hs hm (ho.resumeRaised error hm)
  | true =>
    cases f <;> cases hm
    · unfold State.resumeRaised
      dsimp only
      split
      · next hf => exact .resumed hs (.raised hc hf)
      · have hmove : Moves host s _ := described hs hc
        rwa [hs] at hmove
    · exact .undescribed hs (.inr ⟨_, rfl⟩)

theorem resumeFailed (h : s.IsSound) {cause : RaisedError} (hc : s.control = .failed cause)
    (hs : s.stack = f :: K) : Moves host s (State.resumeFailed host { s with stack := K } cause f) := by
  unfold State.resumeFailed
  split
  · exact .resumed hs (.failed hc)
  · have hmove := h.toIsOrderly.goWith (c := .raised (s.heap.newObject (.failure cause)).1)
      (Heap.grows_newFailure s.heap cause) (.of_plain _ rfl rfl) rfl
    rw [hs] at hmove
    exact .internal hmove

/-- A frame is taken off the stack for what it waits for. -/
theorem settle {resume : State ω σ φ → Frame φ → State ω σ φ}
    (hr : ∀ {f K}, s.stack = f :: K → Moves host s (resume { s with stack := K } f)) :
    Moves host s (s.settle resume) := by
  unfold State.settle
  split
  · next hs => exact .ended hs
  · next hs => exact hr hs

/-- What is done for the statement that runs goes on with a frame of a statement, or with the
    running function. -/
theorem of_body (h : s.IsSound) (hc : s.control.isStatement = true) (hs : s.stack = f :: K)
    (ht : IsOrderly { s with stack := K } → InBody (f :: K) →
      Internal { s with stack := K } t) : Moves host s t := by
  have hshaped := h.shaped_cons hs
  have hb : InBody (f :: K) := hs ▸ h.fits.inBody hc
  refine .of_pop hs ?_ (ht ⟨hshaped.2, h.distinct⟩ hb)
  exact hb.elim f.isHosts_of_isActivation fun hf => f.isHosts_of_isStatement hf.1

end Moves

/-- Every step is one of these. -/
theorem IsSound.moves (h : s.IsSound) : Moves host s (s.step host) := by
  unfold State.step
  split
  case h_1 hc => exact .internal (h.evaluate _ _)
  case h_2 hc => exact .internal (h.evaluateAll _ _ _)
  case h_3 hc => exact .internal (h.construct _ (h.fits.distinct _ (by rw [hc]; rfl)) _)
  case h_4 hc => exact .internal (h.execute (h.fits.inBody (by rw [hc]; rfl)) _ _)
  case h_5 hc => exact .internal (h.resolve (h.fits.inBody (by rw [hc]; rfl)) _ _ _ _ _)
  case h_6 hc => exact .internal (h.assignAll (h.fits.inBody (by rw [hc]; rfl)) _)
  case h_7 callee args site hc =>
    by_cases hcallee : ∃ name, callee = .method name
    · obtain ⟨name, rfl⟩ := hcallee
      exact .invoked rfl h.shaped (by simp only [methodCall?, hc])
    · exact .internal (h.invoke (fun name heq => hcallee ⟨name, heq⟩) _ _)
  case h_8 hc => exact .internal (h.index _ _ _ _)
  case h_9 hc => exact .internal (h.store (h.fits.inBody (by rw [hc]; rfl)) _ _ _ _ _)
  case h_10 hc => exact .internal (h.sortPart _ _)
  case h_11 vs hc => exact .settle fun hs => .resumeValues h hc hs
  case h_12 hc =>
    exact .settle fun hs => .of_body h (by rw [hc]; rfl) hs fun ho hb => ho.resumeFinished hb
  case h_13 hc =>
    exact .settle fun hs => .of_body h (by rw [hc]; rfl) hs fun ho hb => ho.resumeLeaving hb
  case h_14 vs hc =>
    exact .settle fun hs => .of_body h (by rw [hc]; rfl) hs fun ho hb => ho.resumeReturning vs hb
  case h_15 error hc => exact .settle fun hs => .resumeRaised h hc hs
  case h_16 cause hc => exact .settle fun hs => .resumeFailed h hc hs

end ScriptedViews.Script.State

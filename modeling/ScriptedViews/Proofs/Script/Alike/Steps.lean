import ScriptedViews.Proofs.Script.Alike.Statements

set_option autoImplicit false

/-! # Steps of states that are alike

Whatever a step does with one of two states that are alike, some steps do the same with the other
one, as long as no address becomes a text and the host does its part. -/

namespace ScriptedViews.Script

variable {ω σ φ : Type} {host : Host ω σ φ} {L : Likeness ω σ φ} {R : Matching}
  {asked : List (Frame φ) → State ω σ φ → Prop} {s s' : State ω σ φ}

namespace State

theorem errorText_eq {v v' : Value} (hv : v.Alike R v') : errorText v = errorText v' := by
  unfold errorText
  rw [hv.toText?_eq]

namespace Alike

variable (h : Alike L R s s')

include h

theorem left (c c' : Control) : Alike L R (s.leave c) (s'.leave c') :=
  ⟨h.heap, h.world, h.stack, congrArg (· - 1) h.level, h.depth⟩

/-- A function of the script is left. -/
theorem deactivate {c c' : Control} (hc : c.Alike R c') :
    Matches L R { s with depth := s.depth - 1, control := c }
      { s' with depth := s'.depth - 1, control := c' } :=
  ⟨⟨h.heap, h.world, h.stack, h.level, congrArg (· - 1) h.depth⟩, hc⟩

/-! ## Values -/

theorem resumeExpression (hhost : host.Respects L asked)
    {vs vs' : List Value} (hv : ValuesAlike R vs vs') {f f' : Frame φ} (hf : f.Alike L R f')
    (hd : (s.resumeExpression host vs f).IsDiscreet)
    (hp : asked (f :: s.stack) (s.resumeExpression host vs f)) :
    Follows host L (s.resumeExpression host vs f) (s'.resumeExpression host vs' f') := by
  have hfirst := hv.firstValue
  cases hf with
  | item hs hdone hc => exact (h.go (.evaluateAll hs (.cons hfirst hdone) hc)).follows
  | lastItem hdone => exact (h.give (hdone.reverse.append hv)).follows
  | single => exact (h.giveOne hfirst).follows
  | callee line tail hs hc =>
    simp only [State.resumeExpression, hs.site_eq]
    exact (h.push (.arguments _ tail hfirst .nil) (.evaluateAll hs .nil hc)).follows
  | receiver line fieldLine field tail hs hc =>
    simp only [State.resumeExpression, hs.site_eq]
    exact (h.push (.methodOf line tail hfirst hs hc) (.index _ 0 hfirst (.text field))).follows
  | methodOf line tail hreceiver hs hc =>
    simp only [State.resumeExpression, hs.site_eq]
    exact (h.push (.arguments _ tail hfirst (.single hreceiver))
      (.evaluateAll hs .nil hc)).follows
  | arguments site tail hcallee hlead =>
    simp only [State.resumeExpression] at hd hp ⊢
    cases tail with
    | true => exact h.invokeLast hhost hcallee (hlead.append hv) site hd hp
    | false => exact (h.go (.invoke (some site) hcallee (hlead.append hv))).follows
  | indexed line hs hc =>
    simp only [State.resumeExpression, hs.site_eq]
    exact (h.push (.indexKey _ (.value hfirst)) (.evaluate hs hc)).follows
  | indexKey site ho => exact (h.go (.index (some site) 0 (h.heap.operand ho) hfirst)).follows
  | unary op site => exact (h.operateOn op hfirst (some site)).follows
  | binaryLeft op site hs hc =>
    exact (h.push (.binaryRight op site (.value hfirst)) (.evaluate hs hc)).follows
  | binaryRight op site ho =>
    exact (h.operate op (h.heap.operand ho) hfirst (some site)).follows
  | and hs hc =>
    simp only [State.resumeExpression, hfirst.isTrue_eq]
    split
    · exact (h.push .single (.evaluate hs hc)).follows
    · exact (h.giveOne hfirst).follows
  | or hs hc =>
    simp only [State.resumeExpression, hfirst.isTrue_eq]
    split
    · exact (h.giveOne hfirst).follows
    · exact (h.push .single (.evaluate hs hc)).follows
  | truth negated =>
    simp only [State.resumeExpression, hfirst.isTrue_eq]
    exact (h.giveOne (.bool _)).follows
  | atMost count => exact (h.give (hv.adjust count)).follows
  | fieldItem hs hk hc => exact (h.go (.construct hs (hk.add hfirst) hc)).follows
  | fieldLast hk => exact h.finishTable (hk.addAll hv)
  | fieldKey site hs hk hvalue hc =>
    exact (h.push (.fieldValue site hs hk (.value hfirst) hc) (.evaluate hs hvalue)).follows
  | fieldValue site hs hk ho hc =>
    exact (h.constructed hs hk site (h.heap.operand ho) hfirst hc).follows
  | _ => exact (h.give hv).follows

theorem resumeStatement {vs vs' : List Value} (hv : ValuesAlike R vs vs') {f f' : Frame φ}
    (hf : f.Alike L R f') :
    Follows host L (s.resumeStatement vs f) (s'.resumeStatement vs' f') := by
  have hfirst := hv.firstValue
  cases hf with
  | declare names hs hc => exact h.executeWith hs names hv hc
  | targetObject line hs hdone hk hr hc =>
    exact h.resolveKey hs line (.value hfirst) hk hdone hr hc
  | targetKey line hs ho hdone hr hc =>
    simp only [State.resumeStatement, hs.site_eq]
    exact (h.go (.resolve line hs (.cons (.field _ ho (.value hfirst)) hdone) hr hc)).follows
  | assignment hts => exact (h.assign hts hv).follows
  | cond hs hc ha =>
    simp only [State.resumeStatement, hfirst.isTrue_eq]
    split
    · exact (h.go (.execute hs hc)).follows
    · exact (h.go (.execute hs ha)).follows
  | whileTest hs hc hb =>
    simp only [State.resumeStatement, hfirst.isTrue_eq]
    split
    · exact (h.push (.whileBody hs hc hb) (.execute hs hb)).follows
    · exact (h.go .finished).follows
  | untilTest =>
    simp only [State.resumeStatement, hfirst.isTrue_eq]
    split
    · exact (h.go .leaving).follows
    · exact (h.go .finished).follows
  | numericStart site n hs hb => exact h.startNumeric hs hb site n hv
  | genericStart site names hs hb =>
    exact (h.iterate hs hb site names (hv.getD 0) (hv.getD 1) (hv.getD 2)).follows
  | genericNext site names hs hb hi ht => exact h.runGeneric hs hb site names hi ht hv
  | results => exact (h.go (.returning hv)).follows
  | _ => exact (h.go .finished).follows

theorem resumeCall (hhost : host.Respects L asked)
    {vs vs' : List Value} (hv : ValuesAlike R vs vs') {f f' : Frame φ} (hf : f.Alike L R f')
    (hd : (s.resumeCall host vs f).IsDiscreet)
    (hp : asked (f :: s.stack) (s.resumeCall host vs f)) :
    Follows host L (s.resumeCall host vs f) (s'.resumeCall host vs' f') := by
  have hfirst := hv.firstValue
  cases hf with
  | native => exact (h.leave (.values hv)).follows
  | guarded site => exact (h.leave (.values (.cons (.bool true) hv))).follows
  | host hframe =>
    exact hhost.resume (h.left .finished .finished) hframe
      (.ok hv) hp
  | describing =>
    simp only [State.resumeCall, errorText_eq hfirst]
    exact (h.go (.failed _)).follows
  | textOf site =>
    simp only [State.resumeCall, hfirst.toText?_eq]
    split
    · exact (h.giveOne (.text _)).follows
    · exact (h.raiseText site _).follows
  | iterated i =>
    simp only [State.resumeCall] at hd ⊢
    generalize firstValue vs = v at hfirst ⊢
    generalize firstValue vs' = v' at hfirst ⊢
    have hboth := h.give (.pair (.number (.int i)) hfirst)
    cases hfirst with
    | nil => exact (h.giveOne .nil).follows
    | _ => exact hboth.follows
  | formatting d site ht =>
    simp only [State.resumeCall] at hd ⊢
    generalize firstValue vs = v at hfirst hd ⊢
    generalize firstValue vs' = v' at hfirst ⊢
    cases hfirst with
    | text bytes => exact (h.continueFormat (ht.answer d bytes) site hd).follows
    | _ => exact (h.give .nil).follows
  | sorting site ht =>
    simp only [State.resumeCall, hfirst.isTrue_eq]
    exact (h.sortCompared ht _ site).follows
  | chunkPiece source name hr he => exact h.addPiece source hr name he hfirst
  | _ => exact (h.give hv).follows

theorem resumeValues (hhost : host.Respects L asked)
    {vs vs' : List Value} (hv : ValuesAlike R vs vs') {f f' : Frame φ} (hf : f.Alike L R f')
    (hd : (s.resumeValues host vs f).IsDiscreet)
    (hp : asked (f :: s.stack) (s.resumeValues host vs f)) :
    Follows host L (s.resumeValues host vs f) (s'.resumeValues host vs' f') := by
  have hexpression := h.resumeExpression hhost hv hf
  have hstatement : Follows host L (s.resumeStatement vs f) (s'.resumeStatement vs' f') :=
    h.resumeStatement hv hf
  have hcall := h.resumeCall hhost hv hf
  cases hf <;> first | exact hstatement | exact hcall hd hp | exact hexpression hd hp

/-! ## Ends and exits -/

theorem resumeFinished {f f' : Frame φ} (hf : f.Alike L R f') :
    Follows host L (s.resumeFinished f) (s'.resumeFinished f') := by
  cases hf with
  | body hs hc => exact (h.go (.execute hs hc)).follows
  | assignRest hr => exact (h.go (.assignAll hr)).follows
  | whileBody hs hc hb => exact (h.push (.whileTest hs hc hb) (.evaluate hs hc)).follows
  | repeatBody hs hb => exact (h.push (.repeatBody hs hb) (.execute hs hb)).follows
  | intBody n i step more hs hb => exact h.nextInt hs hb n i step more
  | floatBody n x limit step hs hb => exact h.nextFloat hs hb n x limit step
  | genericBody site names hs hb hi ht hk => exact (h.iterate hs hb site names hi ht hk).follows
  | activation site => exact (h.deactivate (.values .nil)).follows
  | native => exact (h.leave .finished).follows
  | _ => exact (h.go .finished).follows

theorem resumeLeaving {f f' : Frame φ} (hf : f.Alike L R f') :
    Matches L R (s.resumeLeaving f) (s'.resumeLeaving f') := by
  have hend := h.go (c := .finished) .finished
  cases hf with
  | whileBody _ _ _ => exact hend
  | repeatBody _ _ => exact hend
  | intBody _ _ _ _ _ _ => exact hend
  | floatBody _ _ _ _ _ _ => exact hend
  | genericBody _ _ _ _ _ _ _ => exact hend
  | activation site => exact h.deactivate (.values .nil)
  | _ => exact h.go .leaving

theorem resumeReturning {vs vs' : List Value} (hv : ValuesAlike R vs vs') {f f' : Frame φ}
    (hf : f.Alike L R f') : Matches L R (s.resumeReturning vs f) (s'.resumeReturning vs' f') := by
  cases hf with
  | activation site => exact h.deactivate (.values hv)
  | _ => exact h.go (.returning hv)

theorem failureOf?_eq {v v' : Value} (hv : v.Alike R v') :
    failureOf? s.heap v = failureOf? s'.heap v' := by
  cases hv with
  | object hr =>
    obtain ⟨o, o', ho, ho', halike⟩ := h.heap.objects hr
    simp only [failureOf?, ho, ho']
    cases halike <;> rfl
  | _ => rfl

theorem resumeRaised (hhost : host.Respects L asked) {v v' : Value}
    (hv : v.Alike R v') {f f' : Frame φ} (hf : f.Alike L R f')
    (hp : asked (f :: s.stack) (s.resumeRaised host v f)) :
    Follows host L (s.resumeRaised host v f) (s'.resumeRaised host v' f') := by
  have hframe := hf
  cases hf with
  | activation site => exact (h.deactivate (.raised hv)).follows
  | native => exact (h.leave (.raised hv)).follows
  | guarded site => exact (h.leave (.values (.pair (.bool false) hv))).follows
  | chunkPiece source name hr he => exact (h.give (.pair .nil hv)).follows
  | host hk =>
    simp only [State.resumeRaised, h.failureOf?_eq hv] at hp ⊢
    generalize failureOf? s'.heap v' = cause? at hp ⊢
    cases cause? with
    | some cause =>
      exact hhost.resume (h.left .finished .finished) hk
        (.error _) hp
    | none =>
      exact ((h.pushed hframe .finished .finished).push .describing
        (.invoke none (.builtin _) (.single hv))).follows
  | _ => exact (h.go (.raised hv)).follows

theorem resumeFailed (hhost : host.Respects L asked)
    (cause : RaisedError) {f f' : Frame φ} (hf : f.Alike L R f')
    (hp : asked (f :: s.stack) (s.resumeFailed host cause f)) :
    Follows host L (s.resumeFailed host cause f) (s'.resumeFailed host cause f') := by
  have hg : R.Grows (R.withObject s.heap.objects.size s'.heap.objects.size) :=
    Matching.grows_withObject
  have hheap := h.heap.newObject (L := L) (.failure cause)
  have halike := h.setHeap hg hheap
  -- for code, a failure of the host is an object that stands for it
  have hraised : ∀ {g g' : Frame φ}, g.Alike L R g' → Follows host L
      { s with
        heap := (s.heap.newObject (.failure cause)).2
        stack := g :: s.stack
        control := .raised (s.heap.newObject (.failure cause)).1 }
      { s' with
        heap := (s'.heap.newObject (.failure cause)).2
        stack := g' :: s'.stack
        control := .raised (s'.heap.newObject (.failure cause)).1 } := fun hg' =>
    Matches.follows ⟨⟨hheap, halike.world, .cons (hg'.mono hg) halike.stack,
      h.level, h.depth⟩, .raised (.object Matching.object_withObject)⟩
  have hframe := hf
  cases hf with
  | host hk =>
    exact hhost.resume (h.left .finished .finished) hk
      (.error _) hp
  | _ => exact hraised hframe

end Alike

/-- Frames that are alike are taken off both stacks, or both runs are at their end. -/
theorem Matches.settle (hm : Matches L R s s')
    {resume resume' : State ω σ φ → Frame φ → State ω σ φ}
    (hresume : ∀ (t t' : State ω σ φ) (f f' : Frame φ), Alike L R t t' →
      f.Alike L R f' → (resume t f).IsDiscreet → asked (f :: t.stack) (resume t f) →
      Follows host L (resume t f) (resume' t' f'))
    (hd : (s.settle resume).IsDiscreet) (hp : asked s.stack (s.settle resume)) :
    Follows host L (s.settle resume) (s'.settle resume') := by
  have hstack := hm.rest.stack
  unfold State.settle at hd hp ⊢
  cases hK : s.stack <;> cases hK' : s'.stack <;> rw [hK, hK'] at hstack <;> cases hstack
  · exact hm.follows
  · rename_i hf hrest
    rw [hK] at hd hp
    exact hresume _ _ _ _ ⟨hm.rest.heap, hm.rest.world, hrest, hm.rest.level, hm.rest.depth⟩
      hf hd hp

/-- A step keeps states alike, however many steps that takes. -/
theorem Matches.step (hhost : host.Respects L asked) (hm : Matches L R s s')
    (hd : (s.step host).IsDiscreet) (hp : asked s.stack (s.step host)) :
    Follows host L (s.step host) (s'.step host) := by
  have h := hm.rest
  have hc := hm.control
  unfold State.step at hd hp ⊢
  generalize s.control = k at hc hd hp ⊢
  generalize s'.control = k' at hc ⊢
  cases hc with
  | evaluate hs hc => exact h.evaluate hs hc
  | evaluateAll hs hdone hc => exact (h.evaluateAll hs hdone hc).follows
  | construct hs hk hc => exact h.construct hs hk hc
  | execute hs hc => exact h.execute hs hc
  | resolve line hs hdone hr hc => exact h.resolve hs line hdone hr hc
  | assignAll hpairs => exact (h.assignAll hpairs).follows
  | invoke site hf ha => exact h.invoke hhost hf ha site hd hp
  | index site hops ho hk => exact (h.index hhost.methods ho hk site hops).follows
  | store site hops ho hk hv => exact (h.store ho hk hv site hops).follows
  | sort site ht => exact (h.sortPart ht site).follows
  | values hv =>
    exact hm.settle
      (fun t t' f f' ht hf hd hp => ht.resumeValues hhost hv hf hd hp) hd hp
  | finished =>
    exact hm.settle
      (fun t t' f f' ht hf hd hp => ht.resumeFinished hf) hd hp
  | leaving =>
    exact hm.settle
      (fun t t' f f' ht hf hd hp => (ht.resumeLeaving hf).follows) hd hp
  | returning hv =>
    exact hm.settle
      (fun t t' f f' ht hf hd hp => (ht.resumeReturning hv hf).follows) hd hp
  | raised hv =>
    exact hm.settle (fun t t' f f' ht hf hd hp => ht.resumeRaised hhost hv hf hp) hd hp
  | failed cause =>
    exact hm.settle
      (fun t t' f f' ht hf hd hp => ht.resumeFailed hhost cause hf hp) hd hp

end State

end ScriptedViews.Script

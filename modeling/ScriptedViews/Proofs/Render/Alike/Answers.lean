import ScriptedViews.Proofs.Render.Alike.Requests

set_option autoImplicit false

/-! # Engines that answer alike

What the bridge does is the same for all engines but for four things: how views are loaded, how
renders get their contexts, how code is prepared, and how renders end. Engines that do these alike
answer everything alike. -/

namespace ScriptedViews

open Script (Value Bytes Heap Matching State Host Frame ValuesAlike ExceptAlike utf8)
open Script.State (Follows Matches)

variable {R : Matching} {W : WorldLikeness}
  {asked : List (Frame Pending) → State Bridge World Pending → Prop}
  {s s' : State Bridge World Pending} {K : List (Frame Pending)}

/-! ## Turns -/

section Turns

variable (h : State.Alike W.likeness R s s')

include h

theorem turn_answer {vs vs' : List Value} (hv : ValuesAlike R vs vs') :
    Follows Render.host W.likeness (s.turn (Render.answer s.heap s.world vs))
      (s'.turn (Render.answer s'.heap s'.world vs')) :=
  (h.give hv).follows

theorem turn_failWith (cause : RaisedError) :
    Follows Render.host W.likeness (s.turn (Render.failWith s.heap s.world cause))
      (s'.turn (Render.failWith s'.heap s'.world cause)) :=
  (h.go (.failed cause)).follows

theorem turn_failView (e : ViewError) :
    Follows Render.host W.likeness (s.turn (Render.failView s.heap s.world e))
      (s'.turn (Render.failView s'.heap s'.world e)) :=
  turn_failWith h _

/-- The engine calls a function and keeps what it will go on with. -/
theorem turn_call {f f' : Value} (hf : f.Alike R f') {args args' : List Value}
    (ha : ValuesAlike R args args') {p p' : Pending} (hp : W.likeness.frame R p p') :
    Follows Render.host W.likeness (s.turn ⟨s.heap, s.world, .call f args p⟩)
      (s'.turn ⟨s'.heap, s'.world, .call f' args' p'⟩) :=
  (h.enter (.host hp) (.invoke none hf ha)).follows

end Turns

/-! ## What is left to engines -/

/-- Whether engines that are alike load views, get contexts, prepare code and end renders alike. -/
structure WorldLikeness.Keeps (W : WorldLikeness)
    (asked : List (Frame Pending) → State Bridge World Pending → Prop) : Prop where
  sinks : ∀ {R w w'}, W.world R w w' → w.sinks = w'.sinks
  withSinks : ∀ {R w w'}, W.world R w w' → ∀ sinks,
    W.world R { w with sinks } { w' with sinks }
  engines : ∀ {R w w'}, W.world R w w' → ∀ i : Nat,
    Option.Rel Engine.Agrees w.engines[i]? w'.engines[i]?
  views : ∀ {R w w'}, W.world R w w' → ∀ {i j : Nat}, R.hosted i j →
    ∃ v v', w.views[i]? = some v ∧ w'.views[j]? = some v' ∧ v.Agrees v'
  load : ∀ {R w w'}, W.world R w w' → ∀ (engine : Nat) (uri : String),
    ExceptAlike (fun r r' => W.world (R.withHosted r.1 r'.1) r.2 r'.2) (w.load engine uri)
      (w'.load engine uri)
  acquire : ∀ {R s s' r r' e e' v v' K}, State.Alike W.likeness R s s' →
    r.Alike R r' → s.world.engines[r.engine]? = some e → s'.world.engines[r'.engine]? = some e' →
    s.world.views[r.view]? = some v → s'.world.views[r'.view]? = some v' →
    asked K (s.turn (Render.acquire s.level r e v s.heap s.world)) →
    Follows Render.host W.likeness (s.turn (Render.acquire s.level r e v s.heap s.world))
      (s'.turn (Render.acquire s'.level r' e' v' s'.heap s'.world))
  acquired : W.making → ∀ {R s s' r r' vs vs' K}, State.Alike W.likeness R s s' →
    r.Alike R r' → ValuesAlike R vs vs' →
    asked K (s.turn (Render.acquired s.level r vs s.heap s.world)) →
    Follows Render.host W.likeness (s.turn (Render.acquired s.level r vs s.heap s.world))
      (s'.turn (Render.acquired s'.level r' vs' s'.heap s'.world))
  named : W.compiling → ∀ {R w w'}, W.world R w w' → ∀ (runtime runtime' : Nat)
    (name name' : Option String),
    W.world R (w.nameSource runtime name) (w'.nameSource runtime' name')
  compiled : W.compiling → ∀ {R s s' r r' c c' vs vs'}, State.Alike W.likeness R s s' →
    r.Alike R r' → R.table c c' → ValuesAlike R vs vs' →
    ∀ previous, asked (.host (.preparing r c previous) :: s.stack)
      (s.turn (Render.compiled s.level r c vs s.heap s.world)) →
    Follows Render.host W.likeness (s.turn (Render.compiled s.level r c vs s.heap s.world))
      (s'.turn (Render.compiled s'.level r' c' vs' s'.heap s'.world))
  finish : ∀ {R s s' r r' c c' p}, State.Alike W.likeness R s s' →
    r.Alike R r' → R.table c c' → (p = .running r c ∨ ∃ previous, p = .preparing r c previous) →
    ∀ failure : Option RaisedError,
    asked (.host p :: s.stack) (s.turn (Render.finish r c s.heap s.world failure)) →
    Follows Render.host W.likeness (s.turn (Render.finish r c s.heap s.world failure))
      (s'.turn (Render.finish r' c' s'.heap s'.world failure))

namespace WorldLikeness.Keeps

variable (hW : W.Keeps asked)

include hW

theorem uriOf_eq {w w' : World} (hw : W.world R w w') {i j : Nat} (hr : R.hosted i j) :
    Render.uriOf w i = Render.uriOf w' j := by
  obtain ⟨v, v', hv, hv', hagrees⟩ := hW.views hw hr
  simp only [Render.uriOf, hv, hv', hagrees.uri]

theorem executionError_eq {w w' : World} (hw : W.world R w w') {i j : Nat} (hr : R.hosted i j)
    (cause : RaisedError) :
    Render.executionError w i cause = Render.executionError w' j cause := by
  simp only [Render.executionError, hW.uriOf_eq hw hr]

/-! ## Methods -/

section Methods

variable (h : State.Alike W.likeness R s s')

include h

theorem write (sink : Nat) {vs vs' : List Value} (hv : ValuesAlike R vs vs') :
    Follows Render.host W.likeness (s.turn (Render.write sink vs s.heap s.world))
      (s'.turn (Render.write sink vs' s'.heap s'.world)) := by
  unfold Render.write
  rw [hv.firstValue.toText?_eq, hW.sinks h.world]
  cases (Script.firstValue vs').toText? with
  | none => exact turn_failWith h _
  | some bytes =>
    dsimp only
    split
    · have hworld := hW.withSinks h.world (s'.world.sinks.setIfInBounds sink ‹Sink›)
      have hs : State.Alike W.likeness R
          { s with world := { s.world with sinks := s'.world.sinks.setIfInBounds sink ‹Sink› } }
          { s' with world := { s'.world with sinks := s'.world.sinks.setIfInBounds sink ‹Sink› } } :=
        ⟨h.heap, hworld, h.stack, h.level, h.depth⟩
      exact turn_answer hs .nil
    · exact turn_failWith h _

omit hW in
theorem print {b b' : Bridge} (hb : b.Alike R b') {v v' : Value} (hv : v.Alike R v') :
    Follows Render.host W.likeness (s.turn (Render.print b v s.heap s.world))
      (s'.turn (Render.print b' v' s'.heap s'.world)) := by
  have hget : Follows Render.host W.likeness
      (s.turn ⟨s.heap, s.world, .get (.table s.heap.globals) (.ofString "tostring")
        (.lookingUp b.sink v)⟩)
      (s'.turn ⟨s'.heap, s'.world, .get (.table s'.heap.globals) (.ofString "tostring")
        (.lookingUp b'.sink v')⟩) := by
    have hframe : W.likeness.frame R (.lookingUp b.sink v) (.lookingUp b'.sink v') := by
      rw [hb.sink]
      exact .lookingUp _ hv
    exact (h.enter (.host hframe) (.index none 0 (.table h.heap.globals) (.ofString _))).follows
  cases hv with
  | nil => exact turn_answer h .nil
  | _ => exact hget

omit hW in
theorem printWith (sink : Nat) {v v' : Value} (hv : v.Alike R v') {vs vs' : List Value}
    (hvs : ValuesAlike R vs vs') :
    Follows Render.host W.likeness (s.turn (Render.printWith sink v vs s.heap s.world))
      (s'.turn (Render.printWith sink v' vs' s'.heap s'.world)) := by
  unfold Render.printWith
  simp only [hvs.firstValue.isFunction_eq]
  split
  · exact turn_call h hvs.firstValue (.single hv) (.printing sink)
  · exact turn_failWith h _

theorem path {b b' : Bridge} (hb : b.Alike R b') (first : String) (second : Option String) :
    Render.path b s.world first second = Render.path b' s'.world first second := by
  simp only [Render.path, hW.uriOf_eq h.world hb.view]

theorem start {r r' : Request} (hr : r.Alike R r')
    (ha : asked K (s.turn (Render.start s.level r s.heap s.world))) :
    Follows Render.host W.likeness (s.turn (Render.start s.level r s.heap s.world))
      (s'.turn (Render.start s'.level r' s'.heap s'.world)) := by
  obtain ⟨v, v', hv, hv', hagrees⟩ := hW.views h.world hr.view
  have hengines := hW.engines h.world r.engine
  unfold Render.start at ha ⊢
  rw [hv, ← hr.engine, hv']
  rw [hv] at ha
  cases he : s.world.engines[r.engine]? <;> cases he' : s'.world.engines[r.engine]? <;>
    rw [he, he'] at hengines <;> cases hengines
  · exact turn_failView h _
  · rename_i hengine
    rw [he] at ha
    simp only [← hagrees.engine, ← hagrees.uri, ← hengine.maxNestingDepth, ← hr.depth] at ha ⊢
    split
    · exact turn_failView h _
    · split
      · exact turn_failView h _
      · rename_i hsame hdeep
        rw [if_neg hsame, if_neg hdeep] at ha
        exact hW.acquire h hr he (by rw [← hr.engine]; exact he') hv hv' ha

theorem callView {b b' : Bridge} (hb : b.Alike R b') (base tag : String)
    {attributes attributes' : Option Nat} (hattributes : Option.Rel R.table attributes attributes')
    (children : Option String)
    (ha : asked K (s.turn (Render.callView s.level b base tag attributes children s.heap s.world))) :
    Follows Render.host W.likeness
      (s.turn (Render.callView s.level b base tag attributes children s.heap s.world))
      (s'.turn (Render.callView s'.level b' base tag attributes' children s'.heap s'.world)) := by
  have hheld : s'.world.engines[b.engine]?.any Engine.isHeld
      = s.world.engines[b.engine]?.any Engine.isHeld := by
    have hengines := hW.engines h.world b.engine
    generalize s.world.engines[b.engine]? = x at hengines ⊢
    generalize s'.world.engines[b.engine]? = x' at hengines ⊢
    cases hengines with
    | none => rfl
    | some hagrees => exact hagrees.isHeld.symm
  have hload := hW.load h.world b.engine (Bridge.target base tag)
  unfold Render.callView at ha ⊢
  rw [← hb.engine, hheld]
  split
  · exact turn_failView h _
  · rename_i hnot
    rw [if_neg hnot] at ha
    generalize s.world.load b.engine (Bridge.target base tag) = x at hload ha ⊢
    generalize s'.world.load b.engine (Bridge.target base tag) = x' at hload ⊢
    cases hload with
    | error e => exact turn_failView h e
    | @ok p p' hw =>
      obtain ⟨view, w⟩ := p
      obtain ⟨view', w'⟩ := p'
      have hg : R.Widens (R.withHosted view view') := Matching.widens_withHosted
      have hs : State.Alike W.likeness (R.withHosted view view') { s with world := w }
          { s' with world := w' } :=
        ⟨h.heap.withHosted view view', hw, Script.stackAlike_mono hg h.stack, h.level, h.depth⟩
      have hfail : Follows Render.host W.likeness
          (s.turn (Render.failView s.heap w (Render.executionError w b.view .conversion)))
          (s'.turn (Render.failView s'.heap w' (Render.executionError w' b'.view .conversion))) := by
        rw [hW.executionError_eq hw (hg.hosted hb.view)]
        exact turn_failView hs _
      -- whatever the call gives, it is added to the caller's variables
      have hscope : ∀ {given given' : List (Value × Value)}, Script.EntriesAlike R given given' →
          Option.Rel (AttributesAlike R)
            (Bridge.addAttributes (s.heap.contextEntries b.context) given)
            (Bridge.addAttributes (s'.heap.contextEntries b'.context) given') :=
        Bridge.addAttributes_alike (h.heap.contextEntries hb.context)
      have hstart : ∀ {scope scope' : List (String × Value)}, AttributesAlike R scope scope' →
          asked K (s.turn (Render.start s.level
            { engine := b.engine, view, sink := b.sink, depth := b.depth + 1, attributes := scope,
              children } s.heap w)) →
          Follows Render.host W.likeness
            (s.turn (Render.start s.level
              { engine := b.engine, view, sink := b.sink, depth := b.depth + 1, attributes := scope,
                children } s.heap w))
            (s'.turn (Render.start s'.level
              { engine := b.engine, view := view', sink := b'.sink, depth := b'.depth + 1,
                attributes := scope', children } s'.heap w')) := fun hscope ha =>
        hW.start hs ⟨rfl, .inr ⟨rfl, rfl⟩, hb.sink, congrArg (· + 1) hb.depth,
          attributesAlike_mono hg hscope, rfl⟩ ha
      cases hattributes with
      | none =>
        have hscope := hscope .nil
        dsimp only at ha ⊢
        generalize Bridge.addAttributes (s.heap.contextEntries b.context) [] = y at hscope ha ⊢
        generalize Bridge.addAttributes (s'.heap.contextEntries b'.context) [] = y' at hscope ⊢
        cases hscope with
        | none => exact hfail
        | some hscope => exact hstart hscope ha
      | @some ref ref' ht =>
        have hscope := hscope (h.heap.tables ht).toList
        dsimp only at ha ⊢
        generalize Bridge.addAttributes (s.heap.contextEntries b.context)
          (s.heap.table ref).toList = y at hscope ha ⊢
        generalize Bridge.addAttributes (s'.heap.contextEntries b'.context)
          (s'.heap.table ref').toList = y' at hscope ⊢
        cases hscope with
        | none => exact hfail
        | some hscope => exact hstart hscope ha

theorem callMethod (m : Bridge.Method) {b b' : Bridge} (hb : b.Alike R b') {args args' : List Value}
    (hargs : ValuesAlike R args args') :
    ExceptAlike (fun t t' => asked K (s.turn t) →
        Follows Render.host W.likeness (s.turn t) (s'.turn t'))
      (Render.callMethod m b args s.level s.heap s.world)
      (Render.callMethod m b' args' s'.level s'.heap s'.world) := by
  have htext : ∀ i, Bridge.textArgument (args.getD i .nil) = Bridge.textArgument (args'.getD i .nil) :=
    fun i => Bridge.textArgument_eq (hargs.getD i)
  have hoptional : ∀ i, Bridge.optionalText (args.getD i .nil)
      = Bridge.optionalText (args'.getD i .nil) := fun i => Bridge.optionalText_eq (hargs.getD i)
  unfold Render.callMethod
  cases m with
  | print => exact .ok fun _ => print h hb (hargs.getD 0)
  | path =>
    dsimp only
    rw [htext 0, hoptional 1]
    refine (ExceptAlike.refl _).bind ?_
    rintro first _ rfl
    refine (ExceptAlike.refl _).bind ?_
    rintro second _ rfl
    rw [hW.path h hb]
    exact .ok fun _ => turn_answer h (.single (.ofString _))
  | execute =>
    dsimp only
    rw [htext 0, htext 1, hoptional 3]
    refine (ExceptAlike.refl _).bind ?_
    rintro base _ rfl
    refine (ExceptAlike.refl _).bind ?_
    rintro tag _ rfl
    refine (Bridge.optionalTable_alike (hargs.getD 2)).bind fun attributes attributes' hattributes => ?_
    refine (ExceptAlike.refl _).bind ?_
    rintro children _ rfl
    exact .ok fun ha => hW.callView h hb base tag hattributes children ha
  | truthy =>
    dsimp only
    rw [Bridge.isPresent_eq (hargs.getD 0)]
    exact .ok fun _ => turn_answer h (.single (.bool _))
  | uri =>
    rw [hW.uriOf_eq h.world hb.view]
    exact .ok fun _ => turn_answer h (.single (.ofString _))

end Methods

/-! ## The host -/

/-- Engines that do what is left to them alike answer everything alike. -/
theorem respects : Render.host.Respects W.likeness asked where
  methods _ := rfl
  invoke {R s s'} name {args args' K} h hargs ha := by
    have hreceiver := Bridge.receiver?_alike h.heap hargs
    have hfail := turn_failWith h (.callback .argument)
    simp only [Render.host, Render.invoke] at ha ⊢
    cases hm : Bridge.methods.lookup name with
    | none => exact hfail
    | some m =>
      rw [hm] at ha
      generalize Bridge.receiver? s.heap args = x at hreceiver ha ⊢
      generalize Bridge.receiver? s'.heap args' = x' at hreceiver ⊢
      cases hreceiver with
      | none => exact hfail
      | some hb =>
        have hcall := hW.callMethod (K := K) h m hb hargs.tail
        dsimp only at ha ⊢
        generalize Render.callMethod m _ args.tail s.level s.heap s.world = y at hcall ha ⊢
        generalize Render.callMethod m _ args'.tail s'.level s'.heap s'.world = y' at hcall ⊢
        cases hcall with
        | error cause => exact turn_failWith h cause
        | ok hfollows => exact hfollows ha
  resume {R s s' f f' o o'} h hf ho ha := by
    cases hf with
    | nothing =>
      cases ho with
      | error cause => exact turn_failWith h cause
      | ok hv => exact turn_answer h hv
    | acquiring hm hr =>
      cases ho with
      | error cause =>
        simp only [Render.host, Render.resume, hW.executionError_eq h.world hr.view]
        exact turn_failView h _
      | ok hv => exact hW.acquired hm h hr hv ha
    | @preparing hc r r' hr c c' ht previous previous' =>
      have hworld := hW.named hc h.world (s.world.runtimeOf r.engine) (s'.world.runtimeOf r'.engine)
        previous previous'
      have hs : State.Alike W.likeness R
          { s with world := s.world.nameSource (s.world.runtimeOf r.engine) previous }
          { s' with world := s'.world.nameSource (s'.world.runtimeOf r'.engine) previous' } :=
        ⟨h.heap, hworld, h.stack, h.level, h.depth⟩
      cases ho with
      | error cause => exact hW.finish hs hr ht (.inr ⟨previous, rfl⟩) (some cause) ha
      | ok hv => exact hW.compiled hc hs hr ht hv previous ha
    | running hr ht =>
      cases ho with
      | error cause => exact hW.finish h hr ht (.inl rfl) (some cause) ha
      | ok hv => exact hW.finish h hr ht (.inl rfl) none ha
    | lookingUp sink hv =>
      cases ho with
      | error cause => exact turn_failWith h _
      | ok hvs => exact printWith h sink hv hvs
    | printing sink =>
      cases ho with
      | error cause => exact turn_failWith h _
      | ok hvs => exact hW.write h sink hvs

end WorldLikeness.Keeps

end ScriptedViews

import ScriptedViews.Proofs.Render.Ready
import ScriptedViews.Proofs.Script.Evaluation
import ScriptedViews.Proofs.Text.Utf8

set_option autoImplicit false

/-! # Statements of plain views as they run

What a print does, and what the place of the caller's content does if the content is statements that
run. Both are told for any context in use, so that they hold wherever the statement stands. -/

namespace ScriptedViews.Expansion

open Script (Bytes Value Heap State Scope ascii utf8 environmentName)
open Script.State
open Code (Directive bridgeName contentName bridgeCall)

variable {views : Store} {engine : Nat} {base : Engine} {sink level depth : Nat} {scope : Scope}
  {h h₁ h₂ : BridgeHeap} {w w₁ w₂ : World}

/-! ## Methods of the bridge -/

/-- What the engine does next does not depend on what was to be done. -/
theorem turn_control (K : List (Script.Frame Pending)) (c : Script.Control) (t : EngineTurn) :
    State.turn ⟨h, w, K, c, level, depth⟩ t = State.turn ⟨h, w, K, .finished, level, depth⟩ t := by
  obtain ⟨h', w', action⟩ := t
  cases action <;> rfl

/-- A call of a method of the bridge gives what the engine makes of it. -/
theorem reaches_bridgeCall {line o : Nat} {b : Bridge} {method : String} {args : List Script.Expr}
    {vs rs : List Value} {K : List (Script.Frame Pending)}
    (hbridge : Reaches Render.host
      ⟨h, w, .receiver scope line line (utf8 method) args false :: K,
        .evaluate scope (.name line bridgeName), level, depth⟩
      ⟨h, w, .receiver scope line line (utf8 method) args false :: K, .values [.object o], level,
        depth⟩)
    (hb : h.objects[o]? = some (.host b))
    (hmethod : (Bridge.methods.map (·.1)).contains (utf8 method) = true)
    (hargs : Reaches Render.host
      ⟨h, w, .arguments (.method (utf8 method)) [.object o] (scope.site line) false :: K,
        .evaluateAll scope [] args, level, depth⟩
      ⟨h₁, w₁, .arguments (.method (utf8 method)) [.object o] (scope.site line) false :: K,
        .values vs, level, depth⟩)
    (hturn : Reaches Render.host
      (State.turn ⟨h₁, w₁, K, .finished, level, depth⟩
        (Render.invoke (utf8 method) (.object o :: vs) level h₁ w₁))
      ⟨h₂, w₂, K, .values rs, level, depth⟩) :
    Reaches Render.host
      ⟨h, w, K, .evaluate scope
        (.methodCall line line (.name line bridgeName) (utf8 method) args), level, depth⟩
      ⟨h₂, w₂, K, .values rs, level, depth⟩ := by
  have hreceiver : Reaches Render.host
      ⟨h, w, K, .evaluate scope
        (.methodCall line line (.name line bridgeName) (utf8 method) args), level, depth⟩
      ⟨h, w, .receiver scope line line (utf8 method) args false :: K,
        .evaluate scope (.name line bridgeName), level, depth⟩ := .many 1 rfl
  have hfield : Reaches Render.host
      ⟨h, w, .receiver scope line line (utf8 method) args false :: K, .values [.object o], level,
        depth⟩
      ⟨h, w, .methodOf (.object o) scope line args false :: K,
        .index (.object o) (.text (utf8 method)) (some (scope.site line)) 0, level, depth⟩ :=
    .many 1 rfl
  have hindex : step Render.host
      ⟨h, w, .methodOf (.object o) scope line args false :: K,
        .index (.object o) (.text (utf8 method)) (some (scope.site line)) 0, level, depth⟩
      = ⟨h, w, .methodOf (.object o) scope line args false :: K, .values [.method (utf8 method)],
        level, depth⟩ := by
    have hm : State.methodOf Render.host b (.text (utf8 method)) = .method (utf8 method) := by
      simp only [State.methodOf, Render.host, hmethod, if_true]
    simp only [step, State.index, hb, hm]
    rfl
  have harguments : Reaches Render.host
      ⟨h, w, .methodOf (.object o) scope line args false :: K, .values [.method (utf8 method)],
        level, depth⟩
      ⟨h, w, .arguments (.method (utf8 method)) [.object o] (scope.site line) false :: K,
        .evaluateAll scope [] args, level, depth⟩ := .many 1 rfl
  have hinvoke : Reaches Render.host
      ⟨h₁, w₁, .arguments (.method (utf8 method)) [.object o] (scope.site line) false :: K,
        .values vs, level, depth⟩
      ⟨h₁, w₁, K, .invoke (.method (utf8 method)) (.object o :: vs) (some (scope.site line)), level,
        depth⟩ := .many 1 rfl
  refine hreceiver.trans (hbridge.trans (hfield.trans
    (.head hindex (harguments.trans (hargs.trans (hinvoke.trans (.step ?_)))))))
  have hstep : step Render.host
      ⟨h₁, w₁, K, .invoke (.method (utf8 method)) (.object o :: vs) (some (scope.site line)), level,
        depth⟩
      = State.turn ⟨h₁, w₁, K,
        .invoke (.method (utf8 method)) (.object o :: vs) (some (scope.site line)), level, depth⟩
        (Render.invoke (utf8 method) (.object o :: vs) level h₁ w₁) := rfl
  rw [hstep, turn_control]
  exact hturn

/-- A call of a method of the bridge that a context holds. -/
theorem evaluates_bridgeCall {line o : Nat} {b : Bridge} {method : String} {args : List Script.Expr}
    {vs rs : List Value} {context : Nat} (hscope : scope.Sees h context)
    (ho : h.Finds context bridgeName (.object o)) (hb : h.objects[o]? = some (.host b))
    (hmethod : (Bridge.methods.map (·.1)).contains (utf8 method) = true)
    (hargs : EvaluatesAll Render.host level depth scope h w args h₁ w₁ vs)
    (hturn : ∀ K, Reaches Render.host
      (State.turn ⟨h₁, w₁, K, .finished, level, depth⟩
        (Render.invoke (utf8 method) (.object o :: vs) level h₁ w₁))
      ⟨h₂, w₂, K, .values rs, level, depth⟩) :
    Evaluates Render.host level depth scope h w
      (.methodCall line line (.name line bridgeName) (utf8 method) args) h₂ w₂ rs :=
  fun K => reaches_bridgeCall (reaches_name hscope (by decide) ho) hb hmethod (hargs _ [])
    (hturn K)

theorem receiver?_of_object {o : Nat} {b : Bridge} (hb : h.objects[o]? = some (.host b))
    (vs : List Value) : Bridge.receiver? h (.object o :: vs) = some b := by
  simp only [Bridge.receiver?, hb]

/-! ## Printing -/

/-- Writing a text to an open sink appends it. -/
theorem write_of_holds {bytes : Bytes} (hs : Holds w sink bytes) (t : Bytes) :
    ∃ w', Render.write sink [.text t] h w = Render.answer h w' []
      ∧ (∃ sinks, w' = { w with sinks }) ∧ Holds w' sink (bytes ++ t) := by
  obtain ⟨s, hs, hlimit, hbytes⟩ := hs
  have hlt : sink < w.sinks.size := (Array.getElem?_eq_some_iff.1 hs).1
  have hwrite : ∃ s', s.write? t = some s' ∧ s'.limit = none ∧ s'.bytes = bytes ++ t := by
    unfold Sink.write?
    by_cases ht : t.isEmpty
    · rw [if_pos ht]
      exact ⟨s, rfl, hlimit, by rw [List.isEmpty_iff.1 ht, List.append_nil, hbytes]⟩
    · rw [if_neg ht, Sink.hasRoom, hlimit]
      refine ⟨_, rfl, rfl, ?_⟩
      rw [← hbytes]
      simp [Sink.bytes]
  obtain ⟨s', hs', hlimit', hbytes'⟩ := hwrite
  refine ⟨{ w with sinks := w.sinks.setIfInBounds sink s' }, ?_, ⟨_, rfl⟩, s', ?_, hlimit', hbytes'⟩
  · simp only [Render.write, Script.firstValue, List.headD_cons, Value.toText?, hs,
      Option.bind_some, hs']
  · simp [hlt]

/-- A print is about the first of the values that it is given. -/
theorem invoke_print {o : Nat} {b : Bridge} {vs : List Value}
    (hb : h.objects[o]? = some (.host b)) :
    Render.invoke (utf8 "print") (.object o :: vs) level h w
      = Render.print b (Script.firstValue vs) h w := by
  have hmethod : Bridge.methods.lookup (utf8 "print") = some .print := by decide
  have hargument : vs.getD 0 .nil = Script.firstValue vs := by
    cases vs <;> rfl
  simp only [Render.invoke, hmethod, receiver?_of_object hb, Render.callMethod, List.tail_cons,
    hargument]
  rfl

/-- A print of a value that is not nil looks up the function that makes texts of values, calls it
    and writes what it gives. -/
theorem reaches_print (depth : Nat) {K : List (Script.Frame Pending)} {o : Nat} {b : Bridge}
    {vs : List Value} {t : Bytes} (hb : h.objects[o]? = some (.host b))
    (hpresent : Script.firstValue vs ≠ .nil)
    (htostring : (h.table h.globals).getText (utf8 "tostring") = .builtin .tostring)
    (htext : Reaches Render.host
      ⟨h, w, .host (.printing b.sink) :: K, .invoke (.builtin .tostring) [Script.firstValue vs] none,
        level + 1, depth⟩
      ⟨h₁, w₁, .host (.printing b.sink) :: K, .values [.text t], level + 1, depth⟩)
    (hwrite : Render.write b.sink [.text t] h₁ w₁ = Render.answer h₁ w₂ [])
    (hlevel : level + 1 < Script.maxLevel) :
    Reaches Render.host
      (State.turn ⟨h, w, K, .finished, level, depth⟩
        (Render.invoke (utf8 "print") (.object o :: vs) level h w))
      ⟨h₁, w₂, K, .values [], level, depth⟩ := by
  have hprint : Render.invoke (utf8 "print") (.object o :: vs) level h w
      = ⟨h, w, .get (.table h.globals) (.ofString "tostring")
        (.lookingUp b.sink (Script.firstValue vs))⟩ := by
    rw [invoke_print hb]
    cases hv : Script.firstValue vs <;> first | rfl | exact absurd hv hpresent
  have henter (f : Script.Frame Pending) (c : Script.Control) :
      State.enter ⟨h, w, K, .finished, level, depth⟩ f c
        = ⟨h, w, f :: K, c, level + 1, depth⟩ := by
    simp only [State.enter, Nat.not_le.2 hlevel, if_false]
  have hget : State.turn ⟨h, w, K, .finished, level, depth⟩
      ⟨h, w, .get (.table h.globals) (.ofString "tostring")
        (.lookingUp b.sink (Script.firstValue vs))⟩
      = ⟨h, w, .host (.lookingUp b.sink (Script.firstValue vs)) :: K,
        .index (.table h.globals) (.text (utf8 "tostring")) none 0, level + 1, depth⟩ := henter _ _
  have hcall : step Render.host
      ⟨h, w, .host (.lookingUp b.sink (Script.firstValue vs)) :: K, .values [.builtin .tostring],
        level + 1, depth⟩
      = ⟨h, w, .host (.printing b.sink) :: K,
        .invoke (.builtin .tostring) [Script.firstValue vs] none, level + 1, depth⟩ := henter _ _
  have hdone : step Render.host
      ⟨h₁, w₁, .host (.printing b.sink) :: K, .values [.text t], level + 1, depth⟩
      = ⟨h₁, w₂, K, .values [], level, depth⟩ := by
    show State.turn ⟨h₁, w₁, K, .finished, level, depth⟩ (Render.write b.sink [.text t] h₁ w₁) = _
    rw [hwrite]
    rfl
  rw [hprint, hget]
  exact .head (step_index htostring (by simp)) (.head hcall (htext.trans (.head hdone (.refl _))))

/-- A text is its own text, unless the metatable of all texts says otherwise. -/
theorem reaches_textOf_text (K : List (Script.Frame Pending)) (t : Bytes)
    (htexts : (h.table h.textMetatable).getText (ascii "__tostring") = .nil) :
    Reaches Render.host ⟨h, w, K, .invoke (.builtin .tostring) [.text t] none, level, depth⟩
      ⟨h, w, K, .values [.text t], level, depth⟩ := by
  refine .head ?_ (.refl _)
  show State.textOf _ (.text t) none = _
  simp only [State.textOf, Heap.metafield, Heap.metatable?, htexts]
  rfl

/-! ## Effects of statements -/

/-- Whether statements, run in a context in use, write some text and extend the world. -/
def Writes (views : Store) (engine : Nat) (base : Engine) (context : Nat) (b : Bridge)
    (content : Value) (level depth : Nat) (stmts : List Script.Stmt) (text : String) : Prop :=
  ∀ scope h w bytes, Scope.Sees scope h context → Ready views engine base h w →
    InUse (idleOf w engine) h context b content → Holds w b.sink bytes →
    ∃ h' w', (∀ K rest, Reaches Render.host
        ⟨h, w, K, .execute scope (stmts ++ rest), level, depth⟩
        ⟨h', w', K, .execute scope rest, level, depth⟩)
      ∧ Extends views engine base b.sink text h w h' w'

variable {context : Nat} {b : Bridge} {content : Value}

theorem writes_nil : Writes views engine base context b content level depth [] "" := by
  intro scope h w bytes hscope hr hu hs
  exact ⟨h, w, fun K rest => .refl _, .of_keeps hr (.refl _ _)⟩

/-- Statements write one after the other. -/
theorem Writes.append {first rest : List Script.Stmt} {text text' : String}
    (hf : Writes views engine base context b content level depth first text)
    (hr : Writes views engine base context b content level depth rest text') :
    Writes views engine base context b content level depth (first ++ rest) (text ++ text') := by
  intro scope h w bytes hscope hready hu hs
  obtain ⟨h₁, w₁, hrun, hext⟩ := hf scope h w bytes hscope hready hu hs
  obtain ⟨h₂, w₂, hrun', hext'⟩ := hr scope h₁ w₁ _ (sees_of_keeps hscope hext.keeps) hext.ready
    (hu.extends hready hext) (hext.written bytes hs)
  refine ⟨h₂, w₂, fun K more => ?_, hext.trans hext'⟩
  rw [List.append_assoc]
  exact (hrun K (rest ++ more)).trans (hrun' K more)

/-- The print of a text writes it. -/
theorem writes_print (hlevel : level < 198) (line : Nat) (text : String) :
    Writes views engine base context b content level depth
      [(Directive.print text).stmt line] text := by
  intro scope h w bytes hscope hr hu hs
  obtain ⟨o, ho, hb⟩ := hu.finds_bridge
  obtain ⟨w', hwrite, ⟨sinks, rfl⟩, hholds⟩ := write_of_holds (h := h) hs (utf8 text)
  have hcall : Evaluates Render.host level depth scope h w
      (.methodCall line line (.name line bridgeName) (utf8 "print") [.text (utf8 text)]) h _ [] :=
    evaluates_bridgeCall hscope ho hb (by decide)
      (evaluatesAll_singleton (evaluates_text (utf8 text))) fun K =>
        reaches_print depth hb (by simp [Script.firstValue]) hr.ground.tostring
          (reaches_textOf_text _ _ hr.ground.texts) hwrite
          (by simp only [Script.maxLevel]; omega)
  refine ⟨h, _, fun K rest => executes_call rfl hcall K rest, ?_⟩
  exact
    { ready := ⟨hr.present, hr.made, hr.stored, hr.runs, hr.ground⟩
      keeps := .refl _ _
      idle := fun c hc => .inl hc
      written := fun bytes' hs' => hs.unique hs' ▸ hholds }

/-! ## The caller's content -/

/-- The source of the function that places the content that some statements make. -/
def placing (ds : List Directive) : String :=
  "function()\n" ++ Directive.sources ds ++ "end"

/-- Without content nothing is placed. -/
theorem writes_place_nil (line : Nat) :
    Writes views engine base context b .nil level depth [Directive.place.stmt line] "" := by
  intro scope h w bytes hscope hr hu hs
  have hcondition : Evaluates Render.host level depth scope h w (.name line contentName) h w
      [.nil] := evaluates_name hscope (by decide) (hu.finds_content hr.ground)
  exact ⟨h, w, fun K rest => executes_cond_false hcondition rfl K rest, .of_keeps hr (.refl _ _)⟩

/-- A function of statements writes what they write, if it sees the context that they run in. -/
theorem Writes.invokes {stmts : List Script.Stmt} {text : String} {ref : Nat}
    {params : List Script.Name} {isVararg : Bool} {vars : List (Script.Name × Nat)} {chunk : Bytes}
    {bytes : Bytes} (args : List Value)
    (hstmts : Writes views engine base context b content level (depth + 1) stmts text)
    (hc : h.functions[ref]? = some ⟨.mk params isVararg stmts, vars, chunk⟩)
    (hkeeps : Heap.Keeps [] h (h.bindParams params args vars).2.2)
    (hscope : Scope.Sees ⟨(h.bindParams params args vars).1, params.length,
      if isVararg then (h.bindParams params args vars).2.1 else [], chunk⟩
        (h.bindParams params args vars).2.2 context)
    (hr : Ready views engine base h w) (hu : InUse (idleOf w engine) h context b content)
    (hs : Holds w b.sink bytes) (hdepth : depth < Script.maxDepth) :
    ∃ h' w', Extends views engine base b.sink text h w h' w'
      ∧ Invokes Render.host level depth h w (.function ref) args h' w' [] := by
  have hext : Extends views engine base b.sink "" h w _ w := .of_keeps hr hkeeps
  obtain ⟨h', w', hrun, hext'⟩ := hstmts _ _ w bytes hscope hext.ready (hu.extends hr hext) hs
  refine ⟨h', w', ?_, invokes_finishing hc rfl hdepth fun K site => ?_⟩
  · exact hext.after hext'
  · have := hrun (.activation site :: K) []
    rw [List.append_nil] at this
    exact this.trans (.many 1 rfl)

/-- The caller's content writes what its statements write. -/
theorem writes_place (hlevel : level ≤ 192) (hdepth : depth + 1 < Script.maxDepth) (line : Nat)
    {ds : List Directive} {text : String} (hcontent : content = .text (utf8 (placing ds)))
    (hds : Writes views engine base context b content level (depth + 1) (Directive.stmts 2 ds)
      text) :
    Writes views engine base context b content level depth [Directive.place.stmt line] text := by
  intro scope h w bytes hscope hr hu hs
  subst hcontent
  have hg := hr.ground
  let name : Bytes := utf8 "=children"
  let source : Bytes := utf8 "return " ++ utf8 (placing ds)
  let body : Script.Function := .mk [] false (Directive.stmts 2 ds)
  let vars : List (Script.Name × Nat) := [(environmentName, h.cells.size)]
  let h₁ : BridgeHeap := (h.newCell (.table context)).2
  let h₂ : BridgeHeap := (h₁.newFunction
    ⟨.mk [] true [.return [.function body]], vars, Script.chunkTitle name⟩).2
  let h₃ : BridgeHeap := (h₂.newFunction ⟨body, vars, Script.chunkTitle name⟩).2
  have hread : h.readChunk level name source (.table context)
      = .ok (.function h.functions.size, h₂) := by
    simp only [Heap.readChunk, source, placing, Code.readProgram_content hlevel ds]
    rfl
  have hcontent : Evaluates Render.host level depth scope h w (.name line contentName) h w
      [.text (utf8 (placing ds))] := evaluates_name hscope (by decide) (hu.finds_content hg)
  have hload : Evaluates Render.host level depth scope h w (Code.loadExpr line) h₂ w
      [.function h.functions.size] :=
    evaluates_call (evaluates_name hscope (by decide) (hu.finds_load hg))
      (evaluatesAll_cons (evaluates_concat (evaluates_text _) hcontent)
        (evaluatesAll_cons (evaluates_text _) (evaluatesAll_cons (evaluates_text _)
          (evaluatesAll_singleton (evaluates_environment hscope))))) (invokes_load hread)
  have hkeeps₁ : Heap.Keeps [] h h₁ := Heap.keeps_newCell [] h _
  have hkeeps₂ : Heap.Keeps [] h h₂ :=
    hkeeps₁.trans (by simp) (Heap.keeps_newFunction [] h₁ _)
  have hkeeps₃ : Heap.Keeps [] h h₃ :=
    hkeeps₂.trans (by simp) (Heap.keeps_newFunction [] h₂ _)
  have hassert : Evaluates Render.host level depth scope h w
      (.call line (.name line (utf8 "assert")) [Code.loadExpr line]) h₂ w
      [.function h.functions.size] :=
    evaluates_call (evaluates_name hscope (by decide) (hu.finds_assert hg))
      (evaluatesAll_singleton hload) (invokes_assert rfl)
  have hfunction : Evaluates Render.host level depth scope h w
      (.call line (.call line (.name line (utf8 "assert")) [Code.loadExpr line]) []) h₃ w
      [.function h₂.functions.size] :=
    evaluates_call hassert evaluatesAll_nil
      (invokes_return_function (Heap.functions_newFunction h₁ _) rfl (by omega))
  -- The function sees the context that the statement runs in.
  have hscope₃ : Scope.Sees ⟨vars, 0, [], Script.chunkTitle name⟩ h₃ context := by
    refine Scope.sees_environment (by simp) ?_
    have hcell : h₁.cell h.cells.size = .table context := Heap.cell_newCell h _
    have hkeeps := (Heap.keeps_newFunction [] h₁ _).trans (by simp)
      (Heap.keeps_newFunction [] h₂ ⟨body, vars, Script.chunkTitle name⟩)
    rw [hkeeps.cells _ (Heap.lt_of_cell hcell (by simp)), hcell]
  have hext₃ : Extends views engine base b.sink "" h w h₃ w := .of_keeps hr hkeeps₃
  have hbody : h₃.functions[h₂.functions.size]?
      = some ⟨.mk [] false (Directive.stmts 2 ds), vars, Script.chunkTitle name⟩ :=
    Heap.functions_newFunction h₂ _
  obtain ⟨h₄, w₄, hext₄, hinvoke⟩ := hds.invokes [] hbody (.refl _ _) hscope₃ hext₃.ready
    (hu.extends hr hext₃) (hext₃.written bytes hs) (by omega)
  have hplace : Evaluates Render.host level depth scope h w
      (.call line (.call line (.call line (.name line (utf8 "assert")) [Code.loadExpr line]) []) [])
      h₄ w₄ [] := evaluates_call hfunction evaluatesAll_nil hinvoke
  refine ⟨h₄, w₄, fun K rest => ?_, ?_⟩
  · exact executes_cond hcontent rfl (executes_call rfl hplace) K rest
  · exact hext₃.after hext₄

end ScriptedViews.Expansion

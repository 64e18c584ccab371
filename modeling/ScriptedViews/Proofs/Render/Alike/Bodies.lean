import ScriptedViews.Proofs.Render.Alike.Answers
import ScriptedViews.Proofs.Render.Alike.Prepared

set_option autoImplicit false

/-! # The code of a view as a function and as a chunk

Source is compiled as the body of a function that takes its context, or read as a chunk whose global
variables are in its context. Both run alike if they have the same statements and these do not assign
to the environment: it is a parameter in the one and a variable around the other, and only what a
variable holds in the middle of an expression tells which of them it is. -/

namespace ScriptedViews

open Script (Value Bytes Heap Matching State Frame Stmt Likeness utf8 environmentName)
open Script.State (Follows Matches)

/-! ## Source -/

/-- Whether some source is read as a chunk with these statements, however many levels of calls there
    are up to `most`. -/
def IsChunk (most : Nat) (source : String) (body : List Stmt) : Prop :=
  ∀ levels ≤ most, Script.readProgram levels (utf8 source) = .ok (.mk [] true body)

/-- Whether some source means the same as the body of a function and as a chunk: it is read as the
    same statements, which do not assign to the environment, or refused for the same reason. -/
def IsPortable (most : Nat) (source : String) : Prop :=
  (∃ body, IsBody most source body ∧ IsChunk most source body
      ∧ Stmt.leaveAll environmentName body = true)
    ∨ ∃ e, IsRefused most source e ∧ ∀ levels ≤ most,
      Script.readProgram levels (utf8 source) = .error e

/-- What reading the source of a view for a context puts on the heap: the chunk and the variable that
    has the context. -/
def withChunk (h : BridgeHeap) (context : Nat) (uri : String) (body : List Stmt) : BridgeHeap :=
  ((h.newCell (.table context)).2.newFunction
    ⟨.mk [] true body, [(environmentName, h.cells.size)], Script.chunkTitle (chunkName uri)⟩).2

theorem IsChunk.readSource {most levels : Nat} {uri source : String} {body : List Stmt}
    (hchunk : IsChunk most source body) (hname : (chunkName uri).contains 0 = false)
    (hlevels : levels ≤ most) (h : BridgeHeap) (context : Nat) :
    h.readSource levels uri (utf8 source) (.table context)
      = .ok (.function h.functions.size, withChunk h context uri body) := by
  simp only [readSource_eq, hname, Heap.readChunk, hchunk levels hlevels]
  rfl

/-- Source that is refused as a chunk is so in every context. -/
theorem readSource_of_error {levels : Nat} {uri source : String} {e : Script.ReadError}
    (he : Script.readProgram levels (utf8 source) = .error e)
    (hname : (chunkName uri).contains 0 = false) (h : BridgeHeap) (environment : Value) :
    h.readSource levels uri (utf8 source) environment
      = .error (e.toRaised (Script.chunkTitle (chunkName uri))) := by
  simp only [readSource_eq, hname, Heap.readChunk, he]
  rfl

theorem readSource_of_zero {uri : String} (hname : (chunkName uri).contains 0 = true)
    (h : BridgeHeap) (levels : Nat) (source : Bytes) (environment : Value) :
    h.readSource levels uri source environment = .error (.runtime "invalid chunk name") := by
  rw [readSource_eq, if_pos hname]

/-! ## Calls -/

section Calls

variable {L : Likeness Bridge World Pending} {R : Matching} {s s' : State Bridge World Pending}
  {p p' : Pending} {c c' : Nat}

/-- A function that the engine calls begins with its parameters. -/
theorem stepMany_call {h : BridgeHeap} {w : World} {f : Nat} {params : List Script.Name}
    {isVararg : Bool} {body : List Stmt} {vars : List (Script.Name × Nat)} {chunk : Bytes}
    (hc : h.functions[f]? = some ⟨.mk params isVararg body, vars, chunk⟩) (hlevel : s.level ≤ 197)
    (hdepth : s.depth < Script.maxDepth) (args : List Value) (p : Pending) :
    (s.turn ⟨h, w, .call (.function f) args p⟩).stepMany Render.host 1
      = ⟨(h.bindParams params args vars).2.2, w, .activation none :: .host p :: s.stack,
          .execute ⟨(h.bindParams params args vars).1, params.length,
            if isVararg then (h.bindParams params args vars).2.1 else [], chunk⟩ body,
          s.level + 1, s.depth + 1⟩ := by
  have henter : s.turn ⟨h, w, .call (.function f) args p⟩
      = ⟨h, w, .host p :: s.stack, .invoke (.function f) args none, s.level + 1, s.depth⟩ := by
    simp only [State.turn, State.enter, Script.maxLevel,
      Nat.not_le.2 (show s.level + 1 < 200 by omega), if_false]
  rw [henter, Script.State.stepMany, Script.State.stepMany]
  simp only [State.step, State.invoke, hc, State.callFunction, Nat.not_le.2 hdepth, if_false]

variable (h : State.Alike L R s s') (hp : L.frame R p p') (ht : R.table c c') {f behind : Nat}
  {uri : String} {body : List Stmt} (hc : s.heap.functions[f]? = some (viewClosure uri body behind))
  (hlevel : s.level ≤ 197) (hdepth : s.depth < Script.maxDepth)

include h hp ht hc hlevel hdepth

/-- The same function of a view, made twice, runs alike in contexts that stand for each other. -/
theorem follows_viewFunctions {f' behind' : Nat}
    (hc' : s'.heap.functions[f']? = some (viewClosure uri body behind')) :
    Follows Render.host L
      (s.turn ⟨s.heap, s.world, .call (.function f) [.table c] p⟩)
      (s'.turn ⟨s'.heap, s'.world, .call (.function f') [.table c'] p'⟩) := by
  refine Follows.left 1 (Follows.right 1 ?_)
  rw [stepMany_call hc hlevel hdepth, stepMany_call hc' (h.level ▸ hlevel) (h.depth ▸ hdepth)]
  have hg : R.Grows (R.withCell s.heap.cells.size s'.heap.cells.size) := Matching.grows_withCell
  have hheap := h.heap.newCell (.table ht)
  have halike := h.setHeap hg hheap
  have hvars : Script.VarsAlike (R.withCell s.heap.cells.size s'.heap.cells.size) false
      [(environmentName, s.heap.cells.size), (environmentName, behind)]
      [(environmentName, s'.heap.cells.size), (environmentName, behind')] :=
    .covered Matching.cell_withCell behind behind'
  refine Matches.follows ⟨⟨hheap, halike.world, .cons (.activation none) (.cons ?_ halike.stack),
    congrArg (· + 1) h.level, congrArg (· + 1) h.depth⟩, ?_⟩
  · exact .host (L.frame_mono hg hp)
  · exact .execute ⟨hvars, .inl rfl, .nil, rfl⟩ fun hframed => Bool.noConfusion hframed

/-- The function of a view runs like the chunk with the same statements, if these leave the
    environment alone. -/
theorem follows_viewFunction_chunk (hleaves : Stmt.leaveAll environmentName body = true) :
    Follows Render.host L
      (s.turn ⟨s.heap, s.world, .call (.function f) [.table c] p⟩)
      (s'.turn ⟨withChunk s'.heap c' uri body, s'.world,
        .call (.function s'.heap.functions.size) [] p'⟩) := by
  let h₁ : BridgeHeap := (s'.heap.newCell (.table c')).2
  let h₂ : BridgeHeap := withChunk s'.heap c' uri body
  have hc' : h₂.functions[s'.heap.functions.size]? = some ⟨.mk [] true body,
      [(environmentName, s'.heap.cells.size)], Script.chunkTitle (chunkName uri)⟩ :=
    Heap.functions_newFunction h₁ _
  refine Follows.left 1 (Follows.right 1 ?_)
  rw [stepMany_call hc hlevel hdepth, stepMany_call hc' (h.level ▸ hlevel) (h.depth ▸ hdepth)]
  let e : Nat × Nat := (s.heap.cells.size, c)
  let e' : Nat × Nat := (s'.heap.cells.size, c')
  have hg : R.Grows (R.withEnvironment e e') := Matching.grows_withEnvironment
  -- the parameter of the one and the environment of the other are new and hold the contexts
  have hkeeps' : Heap.Keeps [] s'.heap h₂ :=
    (Heap.keeps_newCell [] s'.heap _).trans (by simp) (Heap.keeps_newFunction [] h₁ _)
  have hkeeps := h.heap.keeps (Heap.keeps_newCell [] s.heap (.table c)) hkeeps'
  have hheap : Heap.Alike L (R.withEnvironment e e') (s.heap.newCell (.table c)).2 h₂ :=
    hkeeps.withEnvironment (by simp [e, Script.Heap.newCell])
      (by simp [e', h₂, withChunk, Script.Heap.newCell, Script.Heap.newFunction])
      (Heap.cell_newCell s.heap _) (Heap.cell_newCell s'.heap _) ht h.heap.cells_lt
  have halike := h.setHeap hg hheap
  have henvironment : (R.withEnvironment e e').environment e e' := .inr ⟨rfl, rfl⟩
  have hvars : Script.VarsAlike (R.withEnvironment e e') true
      [(environmentName, s.heap.cells.size), (environmentName, behind)]
      [(environmentName, s'.heap.cells.size)] :=
    .environment henvironment behind
  refine Matches.follows ⟨⟨hheap, halike.world, .cons (.activation none) (.cons ?_ halike.stack),
    congrArg (· + 1) h.level, congrArg (· + 1) h.depth⟩, ?_⟩
  · exact .host (L.frame_mono hg hp)
  · exact .execute ⟨hvars, .inr ⟨rfl, rfl, rfl⟩, .nil, rfl⟩ fun _ => hleaves

end Calls

end ScriptedViews

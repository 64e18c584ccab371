import ScriptedViews.Proofs.Render.Alike.Sessions
import ScriptedViews.Proofs.Render.Alike.Places
import ScriptedViews.Proofs.Render.Settled

set_option autoImplicit false

/-! # Source that is prepared and run

Source may be compiled first, as the body of a function that takes its context, and this function
then called; or it is kept, and read as a chunk when it is to run. Whichever it is, the same comes
of it on worlds that mirror each other, if it is read as the same statements both ways and these do
not assign to the environment, or if it is refused both ways. -/

namespace ScriptedViews

open Expansion (heapOf_modifyRuntime modifyRuntime_modifyRuntime perform_of_gives gives_call)
open Script (Value Bytes Heap Matching State Frame Stmt ValuesAlike EntriesAlike ExceptAlike utf8
  environmentName)
open Script.State (Follows Quiet Reaches)

variable {R : Matching} {held : Nat → Nat → Prop} {w w' w₁ w₂ : World} {runtime c c' : Nat}
  {compile : Bool} {name source : String} {x : Script.Executable} {r r' : Except ScriptError Unit}

/-! ## Preparing and running -/

namespace World

/-- Prepare code and run it in a context. -/
def prepareAndExecute (fuel : Nat) (w : World) (runtime : Nat) (compile : Bool)
    (name source : String) (context : Nat) : Option (Except ScriptError Unit × World) :=
  match w.prepare fuel runtime compile name source with
  | (none, _) => none
  | (some (.error e), w) => some (.error e, w)
  | (some (.ok x), w) =>
    match w.execute fuel runtime x context with
    | (none, _) => none
    | (some r, w) => some (r, w)

/-- What the engine does first to run code in a context. -/
def executeTurn (x : Script.Executable) (context : Nat) (h : BridgeHeap) (w : World) : EngineTurn :=
  match h.callOf 0 x context with
  | .error cause => Render.failWith h w cause
  | .ok (f, args, h) => ⟨h, w, .call f args .nothing⟩

/-- The machine as it starts to run code in a context, and the world without what is on the heap. -/
def executeStart (w : World) (runtime : Nat) (x : Script.Executable) (context : Nat) :
    State Bridge World Pending :=
  Script.Host.start (executeTurn x context (w.heapOf runtime) (w.withoutHeap runtime))

/-- Whether code fails and why. -/
def endOf : Except RaisedError (List Value) → Except ScriptError Unit
  | .ok _ => .ok ()
  | .error cause => .error (.raised cause)

theorem execute_eq (fuel : Nat) (w : World) (runtime : Nat) (x : Script.Executable)
    (context : Nat) :
    w.execute fuel runtime x context
      = let t := (w.executeStart runtime x context).run Render.host fuel
        (t.outcome?.map endOf, t.world.putHeap runtime t.heap) := by
  unfold execute
  refine Prod.ext (Option.map_congr fun r _ => ?_) rfl
  cases r <;> rfl

/-- The heap of a runtime may be put back where it was. -/
theorem putHeap_withoutHeap (w : World) (runtime : Nat) :
    (w.withoutHeap runtime).putHeap runtime (w.heapOf runtime) = w := by
  have hmodify : ((w.runtimes.modify runtime fun rt => { rt with heap := {} }).modify runtime
      fun rt => { rt with heap := w.heapOf runtime }) = w.runtimes := by
    apply Array.ext_getElem?
    intro i
    rw [Array.getElem?_modify, Array.getElem?_modify]
    split
    · next hi =>
      subst hi
      rw [heapOf]
      cases w.runtimes[runtime]? <;> rfl
    · rfl
  rw [putHeap, withoutHeap, modifyRuntime, modifyRuntime, hmodify]

/-- An engine that fails at once leaves everything as it is. -/
theorem perform_failWith {turn : BridgeHeap → World → EngineTurn} {cause : RaisedError}
    (hturn : turn (w.heapOf runtime) (w.withoutHeap runtime)
      = Render.failWith (w.heapOf runtime) (w.withoutHeap runtime) cause) (fuel : Nat) :
    w.perform fuel runtime turn = (some (.error cause), w) := by
  have hperform : Render.host.perform fuel (turn (w.heapOf runtime) (w.withoutHeap runtime))
      = ⟨w.heapOf runtime, w.withoutHeap runtime, some (.error cause)⟩ := by
    rw [hturn]
    cases fuel <;> rfl
  have hput := w.putHeap_withoutHeap runtime
  unfold perform
  dsimp only
  rw [show (w.modifyRuntime runtime fun rt => { rt with heap := {} }) = w.withoutHeap runtime
    from rfl, hperform]
  exact congrArg (Prod.mk _) hput

/-! ## Code that is prepared -/

theorem heapOf_nameSource (w : World) (runtime : Nat) (name : Option String) :
    (w.nameSource runtime name).heapOf runtime = w.heapOf runtime :=
  w.heapOf_modifyRuntime_of_heap runtime (f := fun rt => { rt with sourceName := name })
    (fun _ => rfl) runtime

/-- What the engine does first to compile code. -/
def compileTurn (name source : String) (h : BridgeHeap) (w : World) : EngineTurn :=
  match h.readSource 1 name (Script.functionSource source) (.table h.globals) with
  | .error cause => Render.failWith h w cause
  | .ok (f, h) => ⟨h, w, .call f [] .nothing⟩

/-- What comes of compiling code. -/
def compileEnd (runtime : Nat) (outcome : Performed RaisedError (List Value)) (w : World) :
    Performed ScriptError Script.Executable × World :=
  match outcome with
  | none => (none, w)
  | some (.error cause) => (some (.error (.raised cause)), w)
  | some (.ok vs) =>
    if (Script.firstValue vs).isFunction then
      (some (.ok (.compiled (Script.firstValue vs))),
        w.modifyRuntime runtime fun rt => { rt with compilations := rt.compilations + 1 })
    else (some (.error (.raised .conversion)), w)

theorem prepare_eq (fuel : Nat) (w : World) (runtime : Nat) (name source : String) :
    w.prepare fuel runtime true name source
      = let p := (w.nameSource runtime (some name)).perform fuel runtime (compileTurn name source)
        compileEnd runtime p.1 (p.2.nameSource runtime (w.sourceName? runtime)) :=
  rfl

/-- Source that is refused as the body of a function is not compiled. -/
theorem prepare_of_error {cause : RaisedError}
    (hread : (w.heapOf runtime).readSource 1 name (Script.functionSource source)
      (.table (w.heapOf runtime).globals) = .error cause) (fuel : Nat) :
    w.prepare fuel runtime true name source = (some (.error (.raised cause)), w) := by
  have hperform : (w.nameSource runtime (some name)).perform fuel runtime
      (compileTurn name source) = (some (.error cause), w.nameSource runtime (some name)) :=
    perform_failWith (by simp only [compileTurn, heapOf_nameSource, hread]) fuel
  simp only [prepare_eq, hperform, compileEnd, nameSource_sourceName?]

/-- The world with a heap put back after one more source has been compiled on its runtime. -/
def withCompiled (w : World) (runtime : Nat) (h : BridgeHeap) : World :=
  w.modifyRuntime runtime fun rt => { rt with heap := h, compilations := rt.compilations + 1 }

theorem heapOf_withCompiled (hruns : runtime < w.runtimes.size) (h : BridgeHeap) :
    (w.withCompiled runtime h).heapOf runtime = h := by
  rw [heapOf, withCompiled, modifyRuntime, Array.getElem?_modify, if_pos rfl,
    Array.getElem?_eq_getElem hruns]
  rfl

/-- The source that was being compiled before is so again after another one has been compiled. -/
theorem withCompiled_eq (w : World) (runtime : Nat) (name : Option String) (h : BridgeHeap) :
    ((((w.nameSource runtime name).withoutHeap runtime).putHeap runtime h).nameSource runtime
        (w.sourceName? runtime)).modifyRuntime runtime
          (fun rt => { rt with compilations := rt.compilations + 1 })
      = w.withCompiled runtime h := by
  simp only [nameSource, withoutHeap, putHeap, withCompiled, modifyRuntime_modifyRuntime]
  have hmodify : (w.runtimes.modify runtime fun rt =>
        { rt with
          heap := h, compilations := rt.compilations + 1, sourceName := w.sourceName? runtime })
      = w.runtimes.modify runtime fun rt =>
        { rt with heap := h, compilations := rt.compilations + 1 } := by
    apply Array.ext_getElem?
    intro i
    rw [Array.getElem?_modify, Array.getElem?_modify]
    split
    · next hi =>
      subst hi
      rw [sourceName?]
      cases w.runtimes[runtime]? <;> rfl
    · rfl
  simp only [modifyRuntime, hmodify]

/-- Code whose source gives a function is compiled. -/
theorem prepare_of_gives {h : BridgeHeap} {f : Value} (hf : f.isFunction = true)
    (hgives : Expansion.Gives 0 0 (compileTurn name source (w.heapOf runtime)
      ((w.nameSource runtime (some name)).withoutHeap runtime)) h
      ((w.nameSource runtime (some name)).withoutHeap runtime) [f]) :
    ∃ n, ∀ fuel, n ≤ fuel → w.prepare fuel runtime true name source
      = (some (.ok (.compiled f)), w.withCompiled runtime h) := by
  rw [← heapOf_nameSource w runtime (some name)] at hgives
  obtain ⟨n, hn⟩ := perform_of_gives (compileTurn name source) hgives
  refine ⟨n, fun fuel hfuel => ?_⟩
  rw [prepare_eq, hn fuel hfuel, ← withCompiled_eq w runtime (some name)]
  simp only [compileEnd, Script.firstValue, List.headD_cons, hf, if_true]
  rfl

/-- Source that is read as the body of a function is compiled into the function that has it as its
    body. -/
theorem prepare_of_isBody (w : World) (runtime : Nat) {body : List Stmt}
    (hbody : IsBody 0 source body)
    (hname : (chunkName name).contains 0 = false) :
    ∃ n h f behind, Heap.Keeps [] (w.heapOf runtime) h
      ∧ h.functions[f]? = some (viewClosure name body behind)
      ∧ ∀ fuel, n ≤ fuel → w.prepare fuel runtime true name source
        = (some (.ok (.compiled (.function f))), w.withCompiled runtime h) := by
  let h : BridgeHeap := w.heapOf runtime
  let h₁ : BridgeHeap := withViewChunk h name body
  let w₀ : World := (w.nameSource runtime (some name)).withoutHeap runtime
  have hread : h.readSource 1 name (Script.functionSource source) (.table h.globals)
      = .ok (.function h.functions.size, h₁) :=
    hbody.readSource hname (Nat.le_refl 0) h
  have hinvoke : Script.State.Invokes Render.host 1 0 h₁ w₀ (.function h.functions.size) []
      (h₁.newFunction (viewClosure name body h.cells.size)).2 w₀ [.function h₁.functions.size] :=
    Script.State.invokes_return_function (Script.Heap.functions_newFunction _ _) rfl (by decide)
  have hgives : Expansion.Gives 0 0 (compileTurn name source h w₀)
      (h₁.newFunction (viewClosure name body h.cells.size)).2 w₀
      [.function h₁.functions.size] := by
    rw [compileTurn, hread]
    exact gives_call (by decide) hinvoke (Expansion.gives_answer _)
  obtain ⟨n, hn⟩ := prepare_of_gives rfl hgives
  exact ⟨n, _, _, h.cells.size,
    ((Heap.keeps_newCell [] h _).trans (by simp) (Heap.keeps_newFunction [] _ _)).trans (by simp)
      (Heap.keeps_newFunction [] h₁ _), Script.Heap.functions_newFunction h₁ _, hn⟩

/-! ## More steps -/

/-- What the engine does within some steps is what it does within more. -/
theorem perform_of_le {turn : BridgeHeap → World → EngineTurn} {fuel fuel' : Nat}
    {o : Except RaisedError (List Value)} (h : (w.perform fuel runtime turn).1 = some o)
    (hle : fuel ≤ fuel') : w.perform fuel' runtime turn = w.perform fuel runtime turn := by
  unfold perform Script.Host.perform at h ⊢
  dsimp only at h ⊢
  rw [Script.State.run_of_le h hle]

theorem prepare_of_le {fuel fuel' : Nat} {r : Except ScriptError Script.Executable}
    (h : w.prepare fuel runtime compile name source = (some r, w₁)) (hle : fuel ≤ fuel') :
    w.prepare fuel' runtime compile name source = (some r, w₁) := by
  cases compile with
  | false => exact h
  | true =>
    rw [prepare_eq] at h ⊢
    dsimp only at h ⊢
    cases ho : ((w.nameSource runtime (some name)).perform fuel runtime
        (compileTurn name source)).1 with
    | none =>
      rw [ho] at h
      cases h
    | some o =>
      rw [perform_of_le ho hle]
      exact h

theorem execute_of_le {fuel fuel' : Nat} (h : w.execute fuel runtime x c = (some r, w₁))
    (hle : fuel ≤ fuel') : w.execute fuel' runtime x c = (some r, w₁) := by
  rw [execute_eq] at h ⊢
  dsimp only at h ⊢
  obtain ⟨o, ho, -⟩ := Option.map_eq_some_iff.1 (congrArg Prod.fst h)
  rw [Script.State.run_of_le ho hle]
  exact h

/-- What comes of preparing code and running it within some steps comes of it within more too. -/
theorem prepareAndExecute_of_some {fuel : Nat} {y : Except ScriptError Unit × World}
    (h : w.prepareAndExecute fuel runtime compile name source c = some y) :
    EndsAs (fun fuel => w.prepareAndExecute fuel runtime compile name source c) y := by
  refine ⟨fuel, fun fuel' hle => ?_⟩
  show w.prepareAndExecute fuel' runtime compile name source c = some y
  unfold prepareAndExecute at h ⊢
  rcases hprepare : w.prepare fuel runtime compile name source with ⟨_ | _ | x, w₁⟩ <;>
    rw [hprepare] at h
  · cases h
  · rw [prepare_of_le hprepare hle]
    exact h
  · rw [prepare_of_le hprepare hle]
    dsimp only at h ⊢
    rcases hexecute : w₁.execute fuel runtime x c with ⟨_ | r, w₂⟩ <;> rw [hexecute] at h
    · cases h
    · rw [execute_of_le hexecute hle]
      exact h

/-! ## Ends of runs -/

/-- Code that runs comes to an end as the machine does. -/
theorem endsAs_execute_iff {f : Nat → Option (Except ScriptError Unit × World)} {n : Nat}
    (hf : ∀ fuel, n ≤ fuel → f fuel = (match w.execute fuel runtime x c with
      | (none, _) => none
      | (some r, w) => some (r, w))) :
    EndsAs f (r, w₁) ↔ ∃ t o, Reaches Render.host (w.executeStart runtime x c) t
      ∧ t.outcome? = some o ∧ r = endOf o ∧ w₁ = t.world.putHeap runtime t.heap := by
  have heq : ∀ fuel, n ≤ fuel → f fuel
      = let t := (w.executeStart runtime x c).run Render.host fuel
        t.outcome?.map fun o => (endOf o, t.world.putHeap runtime t.heap) := by
    intro fuel hfuel
    rw [hf fuel hfuel, execute_eq]
    dsimp only
    cases ((w.executeStart runtime x c).run Render.host fuel).outcome? <;> rfl
  constructor
  · rintro ⟨m, hm⟩
    have hend := hm (max n m) (by omega)
    rw [heq _ (by omega)] at hend
    obtain ⟨o, ho, hsame⟩ := Option.map_eq_some_iff.1 hend
    obtain ⟨rfl, rfl⟩ := Prod.mk.inj hsame
    exact ⟨_, o, Script.State.reaches_run _ _, ho, rfl, rfl⟩
  · rintro ⟨t, o, hreaches, ho, rfl, rfl⟩
    obtain ⟨m, hm⟩ := Script.State.run_of_reaches hreaches ho
    refine ⟨max n m, fun fuel hfuel => ?_⟩
    rw [heq _ (by omega), hm fuel (by omega)]
    dsimp only
    rw [ho, Option.map_some]

theorem endsAs_compiled_iff {n : Nat}
    (hprepare : ∀ fuel, n ≤ fuel →
      w.prepare fuel runtime true name source = (some (.ok x), w₁)) :
    EndsAs (fun fuel => w.prepareAndExecute fuel runtime true name source c) (r, w₂)
      ↔ ∃ t o, Reaches Render.host (w₁.executeStart runtime x c) t
        ∧ t.outcome? = some o ∧ r = endOf o ∧ w₂ = t.world.putHeap runtime t.heap :=
  endsAs_execute_iff fun fuel hfuel => by
    rw [prepareAndExecute, hprepare fuel hfuel]

theorem endsAs_interpreted_iff :
    EndsAs (fun fuel => w.prepareAndExecute fuel runtime false name source c) (r, w₁)
      ↔ ∃ t o, Reaches Render.host (w.executeStart runtime (.interpreted name source) c) t
        ∧ t.outcome? = some o ∧ r = endOf o ∧ w₁ = t.world.putHeap runtime t.heap :=
  endsAs_execute_iff (n := 0) fun _ _ => rfl

/-- Source that is refused is not run, and leaves everything as it is. -/
theorem endsAs_compiled_of_error {cause : RaisedError}
    (hread : (w.heapOf runtime).readSource 1 name (Script.functionSource source)
      (.table (w.heapOf runtime).globals) = .error cause) :
    EndsAs (fun fuel => w.prepareAndExecute fuel runtime true name source c)
      (.error (.raised cause), w) :=
  ⟨0, fun fuel _ => by simp only [prepareAndExecute, prepare_of_error hread]⟩

theorem endsAs_interpreted_of_error {cause : RaisedError}
    (hread : (w.heapOf runtime).readSource 0 name (utf8 source) (.table c) = .error cause) :
    EndsAs (fun fuel => w.prepareAndExecute fuel runtime false name source c)
      (.error (.raised cause), w) := by
  refine endsAs_interpreted_iff.2 ⟨_, .error cause, .refl _, ?_, rfl, ?_⟩
  · simp only [executeStart, executeTurn, Heap.callOf, hread]
    rfl
  · simp only [executeStart, executeTurn, Heap.callOf, hread]
    exact (w.putHeap_withoutHeap runtime).symm

end World

/-! ## Worlds that mirror each other -/

/-- Whether the same has come of code that has been run in two contexts: it has failed in both or in
    neither, the same has been written, and the contexts and the tables of the global variables hold
    the same. -/
structure World.SameEnd (held : Nat → Nat → Prop) (runtime c c' : Nat)
    (r r' : Except ScriptError Unit) (w w' : World) : Prop where
  fails : r.isOk = r'.isOk
  sinks : w.sinks = w'.sinks
  holds : ∃ R, w.Twins held runtime R w'
    ∧ ((w.heapOf runtime).table c).Alike R ((w'.heapOf runtime).table c')
    ∧ ((w.heapOf runtime).table (w.heapOf runtime).globals).Alike R
      ((w'.heapOf runtime).table (w'.heapOf runtime).globals)

/-- Whether it makes no difference to source how it is prepared: it is read as the same statements
    as the body of a function and as a chunk, and these do not assign to the environment, or it is
    refused both ways. -/
def IsIndifferent (source : String) : Prop :=
  (∃ body, IsBody 0 source body ∧ IsChunk 0 source body
      ∧ Stmt.leaveAll environmentName body = true)
    ∨ (∃ e, IsRefused 0 source e) ∧ ∃ e, Script.readProgram 0 (utf8 source) = .error e

theorem IsPortable.isIndifferent {most : Nat} (h : IsPortable most source) :
    IsIndifferent source := by
  rcases h with ⟨body, hbody, hchunk, hleaves⟩ | ⟨e, hrefused, hread⟩
  · exact .inl ⟨body, fun _ hle => hbody _ (Nat.le_trans hle (Nat.zero_le _)),
      fun _ hle => hchunk _ (Nat.le_trans hle (Nat.zero_le _)), hleaves⟩
  · exact .inr ⟨⟨e, fun _ hle => hrefused _ (Nat.le_trans hle (Nat.zero_le _))⟩,
      e, hread 0 (Nat.zero_le _)⟩

namespace World

/-- Whether no address becomes a text while compiled code runs. -/
def IsQuiet (w : World) (runtime : Nat) (name source : String) (context : Nat) : Prop :=
  ∀ fuel x w₁, w.prepare fuel runtime true name source = (some (.ok x), w₁) →
    Quiet Render.host (fun _ _ => True) (w₁.executeStart runtime x context)

/-- Whether that is so, by computation. -/
def endsQuietly (fuel : Nat) (w : World) (runtime : Nat) (name source : String) (context : Nat) :
    Bool :=
  match w.prepare fuel runtime true name source with
  | (none, _) => false
  | (some (.error _), _) => true
  | (some (.ok x), w) =>
    State.endsQuietly Render.host (fun _ _ => true) fuel (w.executeStart runtime x context)

theorem isQuiet_of_endsQuietly {fuel : Nat}
    (h : w.endsQuietly fuel runtime name source c = true) : w.IsQuiet runtime name source c := by
  intro fuel' x w₁ hprepare
  unfold endsQuietly at h
  rcases hends : w.prepare fuel runtime true name source with ⟨_ | r, w₂⟩ <;> rw [hends] at h
  · cases h
  · have hsame := (prepare_of_le hends (Nat.le_max_left fuel fuel')).symm.trans
      (prepare_of_le hprepare (Nat.le_max_right fuel fuel'))
    obtain ⟨hr, rfl⟩ := Prod.mk.inj hsame
    obtain rfl := Option.some.inj hr
    exact Script.State.quiet_of_endsQuietly (fun _ _ _ => trivial) h

namespace Twins

theorem putHeaps {h h' : BridgeHeap} (hw : World.Mirrors runtime held R w w')
    (hh : Heap.Alike (mirrored runtime held).likeness R h h') :
    (w.putHeap runtime h).Twins held runtime R (w'.putHeap runtime h') := by
  refine ⟨?_, hw.modifyRuntime _ _ _ _⟩
  rwa [putHeap, putHeap, heapOf_modifyRuntime hw.runs, heapOf_modifyRuntime hw.runs']

variable (h : w.Twins held runtime R w')

include h

theorem sameEnd (hheld : held c c') (hfails : r.isOk = r'.isOk) :
    World.SameEnd held runtime c c' r r' w w' where
  fails := hfails
  sinks := h.world.sinks
  holds := ⟨R, h, h.heap.tables (h.world.tables hheld), h.heap.tables h.heap.globals⟩

/-- The machine runs the function that has been compiled and the chunk that has been read alike. -/
theorem follows (hheld : held c c') {body : List Stmt} (hchunk : IsChunk 0 source body)
    (hleaves : Stmt.leaveAll environmentName body = true)
    (hname : (chunkName name).contains 0 = false) {h₁ : BridgeHeap} {f behind : Nat}
    (hkeeps : Heap.Keeps [] (w.heapOf runtime) h₁)
    (hc : h₁.functions[f]? = some (viewClosure name body behind)) :
    Follows Render.host (mirrored runtime held).likeness
      ((w.withCompiled runtime h₁).executeStart runtime (.compiled (.function f)) c)
      (w'.executeStart runtime (.interpreted name source) c') := by
  have ht : R.table c c' := h.world.tables hheld
  have hs : State.Alike (mirrored runtime held).likeness R
      { heap := h₁
        world := (w.withCompiled runtime h₁).withoutHeap runtime
        stack := []
        control := .finished }
      { heap := w'.heapOf runtime
        world := w'.withoutHeap runtime
        stack := []
        control := .finished } :=
    ⟨h.heap.keeps hkeeps (.refl _ _),
      h.world.withRuntimes (Array.size_modify.trans Array.size_modify) Array.size_modify, .nil, rfl,
      rfl⟩
  have hfollows := follows_viewFunction_chunk hs .nothing ht hc (Nat.zero_le _) (Nat.zero_lt_succ _)
    hleaves
  simp only [executeStart, executeTurn, Heap.callOf, heapOf_withCompiled h.world.runs,
    hchunk.readSource hname (Nat.le_refl 0)]
  exact hfollows

/-- The same comes of source that makes no difference, whether it is compiled or not. -/
theorem endsAs_compiled (hheld : held c c') (hsource : IsIndifferent source)
    (hquiet : w.IsQuiet runtime name source c)
    (hends : EndsAs (fun fuel => w.prepareAndExecute fuel runtime true name source c) (r, w₁)) :
    ∃ r' w₁', EndsAs (fun fuel => w'.prepareAndExecute fuel runtime false name source c') (r', w₁')
      ∧ World.SameEnd held runtime c c' r r' w₁ w₁' := by
  have hrefused : ∀ cause cause',
      (w.heapOf runtime).readSource 1 name (Script.functionSource source)
        (.table (w.heapOf runtime).globals) = .error cause →
      (w'.heapOf runtime).readSource 0 name (utf8 source) (.table c') = .error cause' →
      ∃ r' w₁', EndsAs (fun fuel => w'.prepareAndExecute fuel runtime false name source c')
        (r', w₁') ∧ World.SameEnd held runtime c c' r r' w₁ w₁' := by
    intro cause cause' hread hread'
    obtain ⟨rfl, rfl⟩ := Prod.mk.inj (hends.unique (endsAs_compiled_of_error hread))
    exact ⟨_, _, endsAs_interpreted_of_error hread', h.sameEnd hheld rfl⟩
  by_cases hname : (chunkName name).contains 0 = true
  · exact hrefused _ _ (readSource_of_zero hname _ _ _ _) (readSource_of_zero hname _ _ _ _)
  · rw [Bool.not_eq_true] at hname
    rcases hsource with ⟨body, hbody, hchunk, hleaves⟩ | ⟨⟨e, hcompiled⟩, e', hread⟩
    · obtain ⟨n, h₁, f, behind, hkeeps, hc, hprepare⟩ :=
        w.prepare_of_isBody runtime hbody hname
      obtain ⟨t, o, hreaches, ho, rfl, rfl⟩ := (endsAs_compiled_iff hprepare).1 hends
      have hfollows := h.follows hheld hchunk hleaves hname hkeeps hc
      obtain ⟨t', o', S, hreaches', ho', halike, hmatches⟩ := hfollows.ends Mirrored.keeps.respects
        (hquiet n _ _ (hprepare n (Nat.le_refl n))) hreaches ho
      have hfails : (endOf o).isOk = (endOf o').isOk := by
        cases halike <;> rfl
      exact ⟨_, _, endsAs_interpreted_iff.2 ⟨t', o', hreaches', ho', rfl, rfl⟩,
        (putHeaps hmatches.rest.world hmatches.rest.heap).sameEnd hheld hfails⟩
    · exact hrefused _ _ (isUnreadable_of_refused hcompiled hname _ 0 _ (Nat.le_refl 0))
        (readSource_of_error hread hname _ _)

/-- Source that comes to an end if it is not compiled does so if it is. -/
theorem endsAs_interpreted (hheld : held c c') (hsource : IsIndifferent source)
    (hquiet : w.IsQuiet runtime name source c)
    (hends : EndsAs (fun fuel => w'.prepareAndExecute fuel runtime false name source c') (r', w₁)) :
    ∃ r w₁, EndsAs (fun fuel => w.prepareAndExecute fuel runtime true name source c) (r, w₁) := by
  by_cases hname : (chunkName name).contains 0 = true
  · exact ⟨_, _, endsAs_compiled_of_error (readSource_of_zero hname _ _ _ _)⟩
  · rw [Bool.not_eq_true] at hname
    rcases hsource with ⟨body, hbody, hchunk, hleaves⟩ | ⟨⟨e, hcompiled⟩, e', hread⟩
    · obtain ⟨n, h₁, f, behind, hkeeps, hc, hprepare⟩ :=
        w.prepare_of_isBody runtime hbody hname
      obtain ⟨t', o', hreaches', ho', -, -⟩ := endsAs_interpreted_iff.1 hends
      have hfollows := h.follows hheld hchunk hleaves hname hkeeps hc
      obtain ⟨t, o, hreaches, ho⟩ := hfollows.ended Mirrored.keeps.respects
        (hquiet n _ _ (hprepare n (Nat.le_refl n))) hreaches' ho'
      exact ⟨_, _, (endsAs_compiled_iff hprepare).2 ⟨t, o, hreaches, ho, rfl, rfl⟩⟩
    · exact ⟨_, _, endsAs_compiled_of_error
        (isUnreadable_of_refused hcompiled hname _ 0 _ (Nat.le_refl 0))⟩

end Twins

end World

end ScriptedViews

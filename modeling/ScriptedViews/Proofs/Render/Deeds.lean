import Mathlib.Logic.Relation
import ScriptedViews.Proofs.Script.Internal.Steps
import ScriptedViews.Render.Rendering

set_option autoImplicit false

/-! # What renders do

A render takes a context from the pool of its engine or has one made, gives it variables, has code
prepared and run, loads views, writes to sinks and gives the context back. These deeds are all that
turns of the host consist of, whatever they come to, and what a turn leaves on the stack tells which
contexts are on loan. So what holds of every deed holds of renders. -/

namespace ScriptedViews

open Script (Bytes Value utf8)
open Relation (ReflTransGen)

/-- A context that a render of an engine has. -/
structure Loan where
  engine : Nat
  context : Nat
deriving DecidableEq

/-- The contexts on loan, the one that was lent last at the front, the heap that renders run on, and
    the world besides. -/
structure Scene where
  loans : List Loan
  heap : BridgeHeap
  world : World

/-- What is done to a scene on the heap of a runtime. Which contexts get made is the last word of
    the code that makes them: `makes` says what is known of them. -/
inductive Deed (runtime : Nat) (makes : Scene → Nat → Prop) : Scene → Scene → Prop
  /-- Code goes on by itself. -/
  | code {L : List Loan} {h h' : BridgeHeap} {w : World} (hg : h.Grows h') :
      Deed runtime makes ⟨L, h, w⟩ ⟨L, h', w⟩
  /-- An idle context is taken. -/
  | taken {L : List Loan} {h : BridgeHeap} {w : World} {i c : Nat} {e : Engine} {pool : Pool Nat}
      (he : w.engines[i]? = some e) (hr : e.runtime = runtime)
      (hp : e.pool.take? = some (c, pool)) :
      Deed runtime makes ⟨L, h, w⟩ ⟨⟨i, c⟩ :: L, h, w.modifyEngine i fun e => { e with pool }⟩
  /-- A context has been made. -/
  | made {s : Scene} {i c : Nat} {e : Engine} (he : s.world.engines[i]? = some e)
      (hr : e.runtime = runtime) (hm : makes s c) :
      Deed runtime makes s ⟨⟨i, c⟩ :: s.loans, s.heap, s.world⟩
  /-- A context is given its variables. -/
  | bound {L : List Loan} {h : BridgeHeap} {w : World} {b : Bridge}
      (defaults : OrderedMap String String) (attributes : List (String × Value))
      (children : Option String) :
      Deed runtime makes ⟨⟨b.engine, b.context⟩ :: L, h, w⟩
        ⟨⟨b.engine, b.context⟩ :: L,
          Render.bindVariables h b.context defaults attributes children b, w⟩
  /-- The context that was lent last is given back. -/
  | back {L : List Loan} {h : BridgeHeap} {w : World} {i c : Nat} :
      Deed runtime makes ⟨⟨i, c⟩ :: L, h, w⟩
        ⟨L, h.contextClear c, w.modifyEngine i fun e => { e with pool := e.pool.keep c }⟩
  /-- The code of a view is published. -/
  | published {L : List Loan} {h : BridgeHeap} {w : World} (view : Nat) (x : Script.Executable) :
      Deed runtime makes ⟨L, h, w⟩ ⟨L, h, w.modifyView view fun v => v.prepared x⟩
  /-- A source has been compiled. -/
  | compiled {L : List Loan} {h : BridgeHeap} {w : World} (i : Nat) :
      Deed runtime makes ⟨L, h, w⟩ ⟨L, h, w.modifyRuntime i fun rt =>
        { rt with compilations := rt.compilations + 1 }⟩
  /-- Another source, or none, is the one that is being compiled. -/
  | named {L : List Loan} {h : BridgeHeap} {w : World} (i : Nat) (name : Option String) :
      Deed runtime makes ⟨L, h, w⟩ ⟨L, h, w.nameSource i name⟩
  /-- Something is written. -/
  | wrote {L : List Loan} {h : BridgeHeap} {w : World} (sinks : Array Sink) :
      Deed runtime makes ⟨L, h, w⟩ ⟨L, h, { w with sinks }⟩
  /-- A view is loaded. -/
  | loaded {L : List Loan} {h : BridgeHeap} {w w' : World} {i view : Nat} {uri : String}
      (hl : w.load i uri = .ok (view, w')) :
      Deed runtime makes ⟨L, h, w⟩ ⟨L, h, w'⟩

/-- What is done to a scene, one deed after another. -/
abbrev Deeds (runtime : Nat) (makes : Scene → Nat → Prop) : Scene → Scene → Prop :=
  ReflTransGen (Deed runtime makes)

/-! ## What the stack tells -/

namespace Pending

/-- The render that goes on. -/
def request? : Pending → Option Request
  | .acquiring r => some r
  | .preparing r _ _ => some r
  | .running r _ => some r
  | _ => none

/-- The context that the render has. -/
def loan? : Pending → Option Loan
  | .preparing r c _ => some ⟨r.engine, c⟩
  | .running r c => some ⟨r.engine, c⟩
  | _ => none

end Pending

/-- What is kept while what a turn calls runs. -/
def pendingOf (t : EngineTurn) : Option Pending :=
  match t.action with
  | .call _ _ p => some p
  | .get _ _ p => some p
  | _ => none

/-- The context that a render has after a turn. -/
def loansOf (t : EngineTurn) : List Loan :=
  ((pendingOf t).bind Pending.loan?).toList

/-! ## What stays -/

/-- Whether an engine is the same one but for what it keeps: views and idle contexts. -/
structure Engine.SameBut (e e' : Engine) : Prop where
  config : e'.config = e.config
  loader : e'.loader = e.loader
  validator : e'.validator = e.validator
  runtime : e'.runtime = e.runtime
  isHeld : e'.isHeld = e.isHeld

theorem Engine.sameBut_refl (e : Engine) : e.SameBut e :=
  ⟨rfl, rfl, rfl, rfl, rfl⟩

theorem Engine.SameBut.trans {e e' e'' : Engine} (h : e.SameBut e') (h' : e'.SameBut e'') :
    e.SameBut e'' :=
  ⟨h'.config.trans h.config, h'.loader.trans h.loader, h'.validator.trans h.validator,
    h'.runtime.trans h.runtime, h'.isHeld.trans h.isHeld⟩

/-- Whether an engine uses a runtime. -/
def World.Has (w : World) (i runtime : Nat) : Prop :=
  ∃ e, w.engines[i]? = some e ∧ e.runtime = runtime

namespace World

variable {w w' : World} {i runtime : Nat}

/-- An engine of the world is changed. -/
theorem getElem?_modifyEngine (w : World) (i j : Nat) (f : Engine → Engine) :
    (w.modifyEngine j f).engines[i]? =
      if j = i then w.engines[i]?.map f else w.engines[i]? :=
  Array.getElem?_modify

theorem size_modifyEngine (w : World) (j : Nat) (f : Engine → Engine) :
    (w.modifyEngine j f).engines.size = w.engines.size :=
  Array.size_modify

/-- Loading a view puts it into the world, and the engine may keep it. -/
theorem load_cases {j view : Nat} {uri : String} (hl : w.load j uri = .ok (view, w')) :
    (w' = w ∧ ∃ e, w.engines[j]? = some e ∧ e.cache.get? uri = some view)
    ∨ ∃ e v, w.engines[j]? = some e ∧ w.readView j e uri = .ok v ∧ view = w.views.size
      ∧ w' = if e.config.cacheViews then (w.addView v).2.modifyEngine j fun e =>
          { e with cache := e.cache.insert uri view } else (w.addView v).2 := by
  unfold load at hl
  cases he : w.engines[j]? with
  | none => simp [he] at hl
  | some e =>
    simp only [he] at hl
    split at hl
    · next hc =>
      cases hl
      split at hc
      · exact .inl ⟨rfl, e, rfl, hc⟩
      · cases hc
    · split at hl
      · cases hl
      · next v hv =>
        refine .inr ⟨e, v, rfl, hv, ?_⟩
        split at hl <;> cases hl
        · next hc => exact ⟨rfl, by rw [if_pos hc]⟩
        · next hc => exact ⟨rfl, by rw [if_neg hc]⟩

/-- It changes no engine but for the views that it keeps. -/
theorem engines_load {j view : Nat} {uri : String}
    (hl : w.load j uri = .ok (view, w')) : w'.engines.size = w.engines.size
      ∧ ∀ (i : Nat) (e : Engine), w.engines[i]? = some e →
        ∃ e', w'.engines[i]? = some e' ∧ e.SameBut e' ∧ e'.pool = e.pool := by
  obtain ⟨rfl, -⟩ | ⟨e, v, -, -, rfl, rfl⟩ := load_cases hl
  · exact ⟨rfl, fun i e he => ⟨e, he, e.sameBut_refl, rfl⟩⟩
  · split
    · refine ⟨size_modifyEngine _ _ _, fun i e he => ?_⟩
      have hadd : (w.addView v).2.engines[i]? = some e := he
      rw [getElem?_modifyEngine, hadd]
      split
      · exact ⟨_, rfl, ⟨rfl, rfl, rfl, rfl, rfl⟩, rfl⟩
      · exact ⟨e, rfl, e.sameBut_refl, rfl⟩
    · exact ⟨rfl, fun i e he => ⟨e, he, e.sameBut_refl, rfl⟩⟩

theorem Has.runtime_eq (h : w.Has i runtime) {e : Engine} (he : w.engines[i]? = some e) :
    e.runtime = runtime := by
  obtain ⟨e', he', hr⟩ := h
  rwa [← Option.some.inj (he'.symm.trans he)]

theorem Has.modifyEngine (h : w.Has i runtime) (j : Nat) {f : Engine → Engine}
    (hf : ∀ e, (f e).runtime = e.runtime) : (w.modifyEngine j f).Has i runtime := by
  obtain ⟨e, he, hr⟩ := h
  rw [Has, getElem?_modifyEngine, he]
  split
  · exact ⟨f e, rfl, (hf e).trans hr⟩
  · exact ⟨e, rfl, hr⟩

theorem Has.load (h : w.Has i runtime) {j view : Nat} {uri : String}
    (hl : w.load j uri = .ok (view, w')) : w'.Has i runtime := by
  obtain ⟨e, he, hr⟩ := h
  obtain ⟨e', he', hsame, -⟩ := (engines_load hl).2 i e he
  exact ⟨e', he', hsame.runtime.trans hr⟩

end World

/-- Engines keep their runtimes. -/
theorem Deed.has {runtime : Nat} {makes : Scene → Nat → Prop} {s s' : Scene}
    (hd : Deed runtime makes s s') {i j : Nat} (h : s.world.Has i j) : s'.world.Has i j := by
  cases hd with
  | taken he hr hp => exact h.modifyEngine _ fun _ => rfl
  | back => exact h.modifyEngine _ fun _ => rfl
  | loaded hl => exact h.load hl
  | _ => exact h

/-- Whether a turn has a context made: it has read the code for that, and calls it. -/
def HasMade (t : EngineTurn) (r : Request) : Prop :=
  ∃ (levels : Nat) (h : BridgeHeap) (f : Value),
    h.readChunk levels (utf8 "=context") Script.contextSource (.table h.globals) = .ok (f, t.heap)
      ∧ t.action = .call f [] (.acquiring r)

/-- Whether a turn comes from a scene by deeds, with some loans besides its own, and leaves a render
    of the same runtime, or none. -/
structure Does (runtime : Nat) (makes : Scene → Nat → Prop) (s : Scene) (L : List Loan)
    (t : EngineTurn) : Prop where
  deeds : Deeds runtime makes s ⟨loansOf t ++ L, t.heap, t.world⟩
  has : ∀ p r, pendingOf t = some p → p.request? = some r → t.world.Has r.engine runtime
  making : ∀ r, pendingOf t = some (.acquiring r) → HasMade t r

namespace Does

variable {runtime : Nat} {makes : Scene → Nat → Prop} {L : List Loan} {h : BridgeHeap} {w : World}
  {s s' : Scene} {t : EngineTurn}

theorem of_deed (hd : Deed runtime makes s s') (ht : Does runtime makes s' L t) :
    Does runtime makes s L t :=
  ⟨.head hd ht.deeds, ht.has, ht.making⟩

/-- The host is done without another deed. -/
theorem answer (vs : List Value) : Does runtime makes ⟨L, h, w⟩ L (Render.answer h w vs) :=
  ⟨.refl, nofun, nofun⟩

theorem failWith (cause : RaisedError) :
    Does runtime makes ⟨L, h, w⟩ L (Render.failWith h w cause) :=
  ⟨.refl, nofun, nofun⟩

theorem failView (e : ViewError) : Does runtime makes ⟨L, h, w⟩ L (Render.failView h w e) :=
  failWith _

/-- Code is called for a render that has a context. -/
theorem calls {r : Request} (hu : w.Has r.engine runtime) {f : Value} {args : List Value}
    {p : Pending} {l : Loan} (hr : p.request? = some r) (hl : p.loan? = some l) :
    Does runtime makes ⟨l :: L, h, w⟩ L ⟨h, w, .call f args p⟩ where
  deeds := by
    have hloans : loansOf ⟨h, w, .call f args p⟩ = [l] := by
      simp [loansOf, pendingOf, hl]
    rw [hloans]
    exact .refl
  has p' r' hp hr' := by
    cases hp
    cases hr.symm.trans hr'
    exact hu
  making r' hp := by
    cases hp
    cases hl

/-! ## The end of a render -/

theorem finish {r : Request} {c : Nat} (failure : Option RaisedError) :
    Does runtime makes ⟨⟨r.engine, c⟩ :: L, h, w⟩ L (Render.finish r c h w failure) := by
  unfold Render.finish
  cases failure with
  | none => exact .of_deed .back (answer _)
  | some cause => exact .of_deed .back (failView _)

/-! ## The course of a render -/

theorem execute (levels : Nat) {r : Request} (hu : w.Has r.engine runtime) (c : Nat)
    (x : Script.Executable) :
    Does runtime makes ⟨⟨r.engine, c⟩ :: L, h, w⟩ L (Render.execute levels r c x h w) := by
  unfold Render.execute
  split
  · exact finish _
  · next f args h' hc =>
    exact .of_deed (.code (Script.Heap.grows_callOf hc)) (calls hu rfl rfl)

theorem executePrepared (levels : Nat) {r : Request} (hu : w.Has r.engine runtime) (c : Nat)
    (x : Script.Executable) :
    Does runtime makes ⟨⟨r.engine, c⟩ :: L, h, w⟩ L (Render.executePrepared levels r c x h w) :=
  .of_deed (.published r.view x)
    (execute (w := w.modifyView r.view fun v => v.prepared x) levels hu c _)

theorem compile (levels : Nat) {r : Request} (hu : w.Has r.engine runtime) (c : Nat) (v : View) :
    Does runtime makes ⟨⟨r.engine, c⟩ :: L, h, w⟩ L (Render.compile levels r c v h w) := by
  unfold Render.compile
  refine .of_deed (.named (w.runtimeOf r.engine) (some v.uri)) ?_
  have hu' : (w.nameSource (w.runtimeOf r.engine) (some v.uri)).Has r.engine runtime := hu
  dsimp only
  split
  · exact .of_deed (.named _ _) (finish _)
  · next f h' hc =>
    exact .of_deed (.code (Script.Heap.grows_readSource hc)) (calls hu' rfl rfl)

theorem prepare (levels : Nat) {r : Request} (hu : w.Has r.engine runtime) (c : Nat)
    (compile : Bool) (v : View) :
    Does runtime makes ⟨⟨r.engine, c⟩ :: L, h, w⟩ L (Render.prepare levels r c compile v h w) := by
  unfold Render.prepare
  split
  · exact execute levels hu c _
  · split
    · exact Does.compile levels hu c v
    · exact executePrepared levels hu c _

theorem runIn (levels : Nat) {r : Request} (hu : w.Has r.engine runtime) (c : Nat)
    (compile : Bool) (v : View) :
    Does runtime makes ⟨⟨r.engine, c⟩ :: L, h, w⟩ L (Render.runIn levels r c compile v h w) :=
  .of_deed (.bound (b := ⟨r.engine, r.view, c, r.sink, r.depth⟩) _ _ _)
    (prepare levels hu c compile v)

theorem acquire (levels : Nat) {r : Request} {e : Engine} (he : w.engines[r.engine]? = some e)
    (hr : e.runtime = runtime) (v : View) :
    Does runtime makes ⟨L, h, w⟩ L (Render.acquire levels r e v h w) := by
  have hu : w.Has r.engine runtime := ⟨e, he, hr⟩
  unfold Render.acquire
  split
  · next c pool hp =>
    exact .of_deed (.taken he hr hp)
      (runIn levels (hu.modifyEngine r.engine (f := fun e => { e with pool }) fun _ => rfl) c _ v)
  · split
    · exact failView _
    · next f h' hc =>
      exact .of_deed (.code (Script.Heap.grows_readChunk hc)) ⟨.refl, by
        rintro p r' hp hr
        cases hp
        cases hr
        exact hu, by
        rintro r' hp
        cases hp
        exact ⟨levels, h, f, hc, rfl⟩⟩

theorem start (levels : Nat) {r : Request}
    (hr : ∀ e, w.engines[r.engine]? = some e → e.runtime = runtime) :
    Does runtime makes ⟨L, h, w⟩ L (Render.start levels r h w) := by
  unfold Render.start
  split
  · next e v he hv =>
    split
    · exact failView _
    · split
      · exact failView _
      · exact acquire levels he (hr e he) v
  · exact failView _

theorem acquired (levels : Nat) {r : Request} (hu : w.Has r.engine runtime) (vs : List Value)
    (hm : ∀ c, Script.firstValue vs = .table c → makes ⟨L, h, w⟩ c) :
    Does runtime makes ⟨L, h, w⟩ L (Render.acquired levels r vs h w) := by
  unfold Render.acquired
  split
  · next c e v hvs he hv =>
    exact .of_deed (.made he (hu.runtime_eq he) (hm c hvs)) (runIn levels hu c _ v)
  · exact failView _

theorem compiled (levels : Nat) {r : Request} (hu : w.Has r.engine runtime) (c : Nat)
    (vs : List Value) :
    Does runtime makes ⟨⟨r.engine, c⟩ :: L, h, w⟩ L (Render.compiled levels r c vs h w) := by
  unfold Render.compiled
  dsimp only
  split
  · exact .of_deed (.compiled _) (executePrepared (w := w.modifyRuntime _ fun rt =>
      { rt with compilations := rt.compilations + 1 }) levels hu c _)
  · exact finish _

/-! ## Methods -/

theorem write (sink : Nat) (vs : List Value) :
    Does runtime makes ⟨L, h, w⟩ L (Render.write sink vs h w) := by
  unfold Render.write
  split
  · exact failWith _
  · split
    · exact .of_deed (.wrote _) (answer _)
    · exact failWith _

theorem printWith (sink : Nat) (v : Value) (vs : List Value) :
    Does runtime makes ⟨L, h, w⟩ L (Render.printWith sink v vs h w) := by
  unfold Render.printWith
  dsimp only
  split
  · exact ⟨.refl, (by rintro p r hp hr; cases hp; cases hr), nofun⟩
  · exact failWith _

theorem print (b : Bridge) (v : Value) :
    Does runtime makes ⟨L, h, w⟩ L (Render.print b v h w) := by
  unfold Render.print
  split
  · exact answer _
  · exact ⟨.refl, (by rintro p r hp hr; cases hp; cases hr), nofun⟩

theorem callView (levels : Nat) {b : Bridge} (hu : w.Has b.engine runtime) (base tag : String)
    (attributes : Option Nat) (children : Option String) :
    Does runtime makes ⟨L, h, w⟩ L (Render.callView levels b base tag attributes children h w) := by
  unfold Render.callView
  split
  · exact failView _
  · split
    · exact failView _
    · next view w' hl =>
      refine .of_deed (.loaded hl) ?_
      dsimp only
      split
      · exact failView _
      · exact start levels fun e he => (hu.load hl).runtime_eq he

/-- Arguments are looked at before. -/
theorem of_bind {α : Type} {x : Except RaisedError α} {f : α → Except RaisedError EngineTurn}
    (hf : ∀ {a t}, f a = .ok t → Does runtime makes s L t) (ht : x >>= f = .ok t) :
    Does runtime makes s L t := by
  cases x with
  | error cause => cases ht
  | ok a => exact hf ht

theorem callMethod {m : Bridge.Method} {b : Bridge} {args : List Value} {levels : Nat}
    (hu : w.Has b.engine runtime) (ht : Render.callMethod m b args levels h w = .ok t) :
    Does runtime makes ⟨L, h, w⟩ L t := by
  cases m with
  | print =>
    cases ht
    exact print b _
  | path =>
    refine of_bind (fun ht => of_bind (fun ht => ?_) ht) ht
    cases ht
    exact answer _
  | execute =>
    refine of_bind (fun ht => of_bind (fun ht => of_bind (fun ht => of_bind (fun ht => ?_) ht) ht)
      ht) ht
    cases ht
    exact callView levels hu _ _ _ _
  | truthy =>
    cases ht
    exact answer _
  | uri =>
    cases ht
    exact answer _

theorem invoke (name : Bytes) (args : List Value) (levels : Nat)
    (hu : ∀ b, Bridge.receiver? h args = some b → w.Has b.engine runtime) :
    Does runtime makes ⟨L, h, w⟩ L (Render.invoke name args levels h w) := by
  unfold Render.invoke
  split
  · next m b hm hb =>
    split
    · next ht => exact callMethod (hu b hb) ht
    · exact failWith _
  · exact failWith _

/-- A function of the engine goes on with the outcome of what it called. -/
theorem resume (p : Pending) (outcome : Except RaisedError (List Value)) (levels : Nat)
    (hu : ∀ r, p.request? = some r → w.Has r.engine runtime)
    (hm : ∀ r vs c, p = .acquiring r → outcome = .ok vs → Script.firstValue vs = .table c →
      makes ⟨L, h, w⟩ c) :
    Does runtime makes ⟨p.loan?.toList ++ L, h, w⟩ L (Render.resume p outcome levels h w) := by
  unfold Render.resume
  split
  · exact answer _
  · exact failWith _
  · next r vs => exact acquired levels (hu r rfl) vs fun c hc => hm r vs c rfl rfl hc
  · exact failView _
  · next r c previous vs =>
    exact .of_deed (.named _ _) (compiled (w := w.nameSource _ _) levels (hu r rfl) c vs)
  · exact .of_deed (.named _ _) (finish _)
  · exact finish _
  · exact finish _
  · exact printWith _ _ _
  · exact write _ _
  · exact failWith _
  · exact failWith _

end Does

end ScriptedViews

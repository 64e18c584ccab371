import ScriptedViews.Proofs.Render.Context
import ScriptedViews.Proofs.Render.Statements
import ScriptedViews.Proofs.Render.Variables

set_option autoImplicit false

/-! # The course of a render

A render of a plain view goes through its stages and ends, whatever the settings: a context is taken
or made, gets its variables, the code is prepared or has been, runs, and the context is given back.
What the code itself does is left open here. -/

namespace ScriptedViews.Expansion

open Script (Bytes Value Heap State Scope ascii utf8 environmentName)
open Script.State
open Code (Directive)

variable {views : Store} {engine : Nat} {base : Engine} {sink level depth : Nat}
  {h h₁ h₂ : BridgeHeap} {w w₁ w₂ : World}

/-! ## Turns -/

/-- Whether what the engine does next comes to some values. -/
def Gives (level depth : Nat) (t : EngineTurn) (h' : BridgeHeap) (w' : World) (vs : List Value) :
    Prop :=
  ∀ K, Reaches Render.host (State.turn ⟨t.heap, t.world, K, .finished, level, depth⟩ t)
    ⟨h', w', K, .values vs, level, depth⟩

/-- Whether what the engine does next comes to an end without values. -/
abbrev Ends (level depth : Nat) (t : EngineTurn) (h' : BridgeHeap) (w' : World) : Prop :=
  Gives level depth t h' w' []

theorem gives_answer (vs : List Value) : Gives level depth (Render.answer h w vs) h w vs :=
  fun _ => .refl _

/-- A call that the engine makes gives values, and the engine goes on with them. -/
theorem gives_call {f : Value} {args vs rs : List Value} {p : Pending} (hlevel : level < 198)
    (hinvoke : Invokes Render.host (level + 1) depth h w f args h₁ w₁ vs)
    (hresume : Gives level depth (Render.resume p (.ok vs) level h₁ w₁) h₂ w₂ rs) :
    Gives level depth ⟨h, w, .call f args p⟩ h₂ w₂ rs := by
  intro K
  have henter : State.turn ⟨h, w, K, .finished, level, depth⟩ ⟨h, w, .call f args p⟩
      = ⟨h, w, .host p :: K, .invoke f args none, level + 1, depth⟩ := by
    simp only [State.turn, State.enter, Script.maxLevel,
      Nat.not_le.2 (show level + 1 < 200 by omega), if_false]
  have hturn : step Render.host ⟨h₁, w₁, .host p :: K, .values vs, level + 1, depth⟩
      = State.turn ⟨h₁, w₁, K, .finished, level, depth⟩
        (Render.resume p (.ok vs) level h₁ w₁) := rfl
  rw [henter]
  exact (hinvoke _ _).trans (.head hturn (hresume K))

/-! ## Reading the code -/

/-- A text without a zero character has no zero byte. -/
theorem contains_zero_utf8 {s : String} (hs : '\x00' ∉ s.toList) :
    (ascii "@" ++ utf8 s).contains 0 = false := by
  rw [← Bool.not_eq_true, List.contains_iff_mem, List.mem_append, Script.utf8_eq_flatMap,
    List.mem_flatMap]
  rintro (hat | ⟨c, hc, hmem⟩)
  · revert hat
    decide
  · rcases Script.utf8EncodeChar_cases c with ⟨hle, hone⟩ | hmany
    · rw [hone, List.mem_singleton] at hmem
      have hzero : c.toNat = 0 := by
        have := congrArg UInt8.toNat hmem
        simp only [UInt8.toNat_ofNat', UInt8.toNat_ofNat] at this
        omega
      have hnul : c = '\x00' := Char.toNat_inj.1 hzero
      exact hs (hnul ▸ hc)
    · have := hmany 0 hmem
      simp at this

/-- Source that is a program is read as a function that sees its environment. -/
theorem readSource_of_readProgram {levels : Nat} {name : String} {source : Bytes}
    {f : Script.Function} (hname : '\x00' ∉ name.toList)
    (hsource : Script.readProgram levels source = .ok f) (environment : Value) :
    h.readSource levels name source environment
      = .ok ((h.newCell environment).2.newFunction
        ⟨f, [(environmentName, h.cells.size)], Script.chunkTitle (ascii "@" ++ utf8 name)⟩) := by
  simp only [Heap.readSource, contains_zero_utf8 hname, Heap.readChunk, hsource]
  rfl

/-! ## Worlds with other engines and views -/

theorem Holds.congr {bytes : Bytes} (hs : Holds w sink bytes) (hsinks : w₁.sinks = w.sinks) :
    Holds w₁ sink bytes := by
  rwa [Holds, hsinks]

/-- A ready world of which the engines and the sinks are those of another is an extension of it. -/
theorem Extends.of_ready (hr : Ready views engine base h w₁) (hengines : w₁.engines = w.engines)
    (hsinks : w₁.sinks = w.sinks) : Extends views engine base sink "" h w h w₁ where
  ready := hr
  keeps := .refl _ _
  idle c hc := by
    rw [idleOf, hengines] at hc
    exact .inl hc
  written bytes hs := by
    rw [show utf8 "" = [] by decide, List.append_nil]
    exact hs.congr hsinks

/-- What a runtime keeps besides the heap does not matter. -/
theorem Ready.modifyRuntime (hr : Ready views engine base h w) (runtime : Nat)
    (f : Runtime → Runtime) : Ready views engine base h (w.modifyRuntime runtime f) where
  present := hr.present
  made := hr.made
  stored := hr.stored
  runs := by
    rw [World.modifyRuntime, Array.size_modify]
    exact hr.runs
  ground := hr.ground

/-- The code that has been prepared for a view is kept. -/
theorem Ready.modifyView {i : Nat} {v : View} {x : Script.Executable}
    (hr : Ready views engine base h w) (hv : w.views[i]? = some v)
    (hcode : HasOwnCode h (v.prepared x)) :
    Ready views engine base h (w.modifyView i fun v => v.prepared x) := by
  have hget (j : Nat) : (w.modifyView i fun v => v.prepared x).views[j]?
      = if i = j then some (v.prepared x) else w.views[j]? := by
    rw [World.modifyView, Array.getElem?_modify]
    split
    · rename_i heq
      rw [← heq, hv, Option.map_some]
    · rfl
  obtain ⟨cache, pool, hengine, hcache⟩ := hr.present
  refine ⟨⟨cache, pool, hengine, fun uri j hj => ?_⟩, fun j u hu => ?_, hr.stored, hr.runs,
    hr.ground⟩
  · obtain ⟨v₀, y, hv₀, hj⟩ := hcache uri j hj
    rw [hget]
    by_cases heq : i = j
    · subst heq
      rw [hv, Option.some.injEq] at hj
      exact ⟨v₀, _, hv₀, by rw [if_pos rfl, hj]; rfl⟩
    · exact ⟨v₀, y, hv₀, by rw [if_neg heq, hj]⟩
  · rw [hget] at hu
    by_cases heq : i = j
    · rw [if_pos heq, Option.some.injEq] at hu
      obtain ⟨⟨uri, v₀, y, hv₀, rfl⟩, -⟩ := hr.made i v hv
      subst hu
      exact ⟨⟨uri, v₀, _, hv₀, rfl⟩, hcode⟩
    · rw [if_neg heq] at hu
      exact hr.made j u hu

/-! ## The code -/

section Code

variable {r : Request} {context : Nat} {b : Bridge} {content : Value} {text : String} {v : View}
  {bytes : Bytes} (hlevel : level ≤ 191) (hdepth : depth + 1 < Script.maxDepth)
  (huri : '\x00' ∉ v.uri.toList) (hsource : v.source = Directive.sources (directivesOf v))

include hlevel hdepth huri hsource

/-- The code of a render runs, and what is left is to finish. -/
theorem ends_execute {x : Script.Executable} (hcode : HasOwnCode h { v with executable := some x })
    (hr : Ready views engine base h w) (hu : InUse (idleOf w engine) h context b content)
    (hs : Holds w b.sink bytes)
    (hbody : Writes views engine base context b content (level + 1) (depth + 1)
      (Directive.stmts 1 (directivesOf v)) text) :
    ∃ h₁ w₁, Extends views engine base b.sink text h w h₁ w₁
      ∧ ∀ h₂ w₂, Ends level depth (Render.finish r context h₁ w₁ none) h₂ w₂ →
        Ends level depth (Render.execute level r context x h w) h₂ w₂ := by
  cases x with
  | compiled f =>
    obtain ⟨ref, cell, rfl, hc⟩ := hcode
    obtain ⟨h₁, w₁, hext, hinvoke⟩ := hbody.invokes [.table context] hc
      (Heap.keeps_newCell [] h _) (Scope.sees_environment (by simp) (Heap.cell_newCell h _)) hr hu hs
      (by omega)
    exact ⟨h₁, w₁, hext, fun h₂ w₂ hfinish => gives_call (by omega) hinvoke hfinish⟩
  | interpreted name source =>
    obtain ⟨hname, hs'⟩ : name = v.uri ∧ source = v.source := hcode
    subst hname hs'
    let h₀ : BridgeHeap := ((h.newCell (.table context)).2.newFunction
      ⟨.mk [] true (Directive.stmts 1 (directivesOf v)), [(environmentName, h.cells.size)],
        Script.chunkTitle (ascii "@" ++ utf8 v.uri)⟩).2
    have hread : h.callOf level (.interpreted v.uri v.source) context
        = .ok (.function h.functions.size, [], h₀) := by
      rw [Heap.callOf, hsource, readSource_of_readProgram huri
        (Code.readProgram_sources (by omega) (directivesOf v))]
      rfl
    have hext : Extends views engine base b.sink "" h w h₀ w :=
      .of_keeps hr ((Heap.keeps_newCell [] h _).trans (by simp) (Heap.keeps_newFunction [] _ _))
    have hc : h₀.functions[h.functions.size]?
        = some ⟨.mk [] true (Directive.stmts 1 (directivesOf v)),
          [(environmentName, h.cells.size)], Script.chunkTitle (ascii "@" ++ utf8 v.uri)⟩ :=
      Heap.functions_newFunction _ _
    obtain ⟨h₁, w₁, hext₁, hinvoke⟩ := hbody.invokes [] hc (.refl _ _)
      (Scope.sees_environment (by simp) (Heap.cell_newCell h _)) hext.ready (hu.extends hr hext) hs
      (by omega)
    refine ⟨h₁, w₁, ?_, fun h₂ w₂ hfinish => ?_⟩
    · exact hext.after hext₁
    · simp only [Render.execute, hread]
      exact gives_call (by omega) hinvoke hfinish

/-- Code that has been prepared just now is kept and runs. -/
theorem ends_executePrepared {x : Script.Executable} (hv : w.views[r.view]? = some v)
    (hnone : v.executable = none) (hcode : HasOwnCode h { v with executable := some x })
    (hr : Ready views engine base h w) (hu : InUse (idleOf w engine) h context b content)
    (hs : Holds w b.sink bytes)
    (hbody : Writes views engine base context b content (level + 1) (depth + 1)
      (Directive.stmts 1 (directivesOf v)) text) :
    ∃ h₁ w₁, Extends views engine base b.sink text h w h₁ w₁
      ∧ ∀ h₂ w₂, Ends level depth (Render.finish r context h₁ w₁ none) h₂ w₂ →
        Ends level depth (Render.executePrepared level r context x h w) h₂ w₂ := by
  have hprepared : v.prepared x = { v with executable := some x } := by
    rw [View.prepared, hnone]
    rfl
  have hext : Extends views engine base b.sink "" h w h
      (w.modifyView r.view fun v => v.prepared x) :=
    .of_ready (hr.modifyView hv (hprepared ▸ hcode)) rfl rfl
  have hexecute : Render.executePrepared level r context x h w
      = Render.execute level r context x h (w.modifyView r.view fun v => v.prepared x) := by
    have hx : (w.modifyView r.view fun v => v.prepared x).views[r.view]?
        = some { v with executable := some x } := by
      rw [World.modifyView, Array.getElem?_modify, if_pos rfl, hv, Option.map_some, hprepared]
    rw [Render.executePrepared, hx]
    rfl
  obtain ⟨h₁, w₁, hext₁, hends⟩ := ends_execute (r := r) hlevel hdepth huri hsource hcode hext.ready
    (hu.extends hr hext) (hs.congr rfl) hbody
  refine ⟨h₁, w₁, ?_, fun h₂ w₂ hfinish => ?_⟩
  · exact hext.after hext₁
  · rw [hexecute]
    exact hends h₂ w₂ hfinish

/-- The code of a view is prepared, if that has not been done, and runs. -/
theorem ends_prepare (compile : Bool) (hv : w.views[r.view]? = some v)
    (hr : Ready views engine base h w) (hu : InUse (idleOf w engine) h context b content)
    (hs : Holds w b.sink bytes)
    (hbody : Writes views engine base context b content (level + 1) (depth + 1)
      (Directive.stmts 1 (directivesOf v)) text) :
    ∃ h₁ w₁, Extends views engine base b.sink text h w h₁ w₁
      ∧ ∀ h₂ w₂, Ends level depth (Render.finish r context h₁ w₁ none) h₂ w₂ →
        Ends level depth (Render.prepare level r context compile v h w) h₂ w₂ := by
  unfold Render.prepare
  cases hx : v.executable with
  | some x =>
    have hcode : HasOwnCode h { v with executable := some x } := by
      have := (hr.made r.view v hv).2
      rwa [← hx]
    exact ends_execute hlevel hdepth huri hsource hcode hr hu hs hbody
  | none =>
    cases compile with
    | false =>
      exact ends_executePrepared hlevel hdepth huri hsource hv hx ⟨rfl, rfl⟩ hr hu hs hbody
    | true =>
      simp only [if_true]
      let vars : List (Script.Name × Nat) := [(environmentName, h.cells.size)]
      let chunk : Bytes := Script.chunkTitle (ascii "@" ++ utf8 v.uri)
      let f : Script.Function := .mk [environmentName] false (Directive.stmts 1 (directivesOf v))
      let h₁ : BridgeHeap := ((h.newCell (.table h.globals)).2.newFunction
        ⟨.mk [] true [.return [.function f]], vars, chunk⟩).2
      let h₂ : BridgeHeap := (h₁.newFunction ⟨f, vars, chunk⟩).2
      let w₀ : World := w.nameSource (w.runtimeOf r.engine) (some v.uri)
      let w₁ : World := (w₀.nameSource (w.runtimeOf r.engine)
        (w.sourceName? (w.runtimeOf r.engine))).modifyRuntime (w.runtimeOf r.engine)
          fun rt => { rt with compilations := rt.compilations + 1 }
      have hread : h.readSource (level + 1) v.uri (Script.functionSource v.source)
          (.table h.globals) = .ok (.function h.functions.size, h₁) := by
        rw [hsource, readSource_of_readProgram huri
          (Code.readProgram_functionSource (by omega) (directivesOf v))]
        rfl
      have hkeeps : Heap.Keeps [] h h₂ :=
        ((Heap.keeps_newCell [] h _).trans (by simp) (Heap.keeps_newFunction [] _ _)).trans (by simp)
          (Heap.keeps_newFunction [] h₁ _)
      have hext : Extends views engine base b.sink "" h w h₂ w₁ := by
        have hext₁ : Extends views engine base b.sink "" h w h₂ w := .of_keeps hr hkeeps
        have hnamed : Ready views engine base h₂ w₀ := hext₁.ready.modifyRuntime _ _
        exact hext₁.after (.of_ready ((hnamed.modifyRuntime _ _).modifyRuntime _ _) rfl rfl)
      have hinvoke : Invokes Render.host (level + 1) depth h₁ w₀ (.function h.functions.size) [] h₂
          w₀ [.function h₁.functions.size] :=
        invokes_return_function (Heap.functions_newFunction _ _) rfl (by omega)
      have hcode : HasOwnCode h₂ { v with executable := some (.compiled (.function h₁.functions.size)) } :=
        ⟨_, _, rfl, Heap.functions_newFunction h₁ _⟩
      obtain ⟨h₃, w₃, hext₃, hends⟩ := ends_executePrepared (r := r) (w := w₁) hlevel hdepth huri
        hsource hv hx hcode hext.ready (hu.extends hr hext) (hs.congr rfl) hbody
      refine ⟨h₃, w₃, ?_, fun h₄ w₄ hfinish => ?_⟩
      · exact hext.after hext₃
      · simp only [Render.compile, hread]
        exact gives_call (by omega) hinvoke (hends h₄ w₄ hfinish)

end Code

/-! ## Contexts taken and given back -/

theorem idleOf_modifyEngine {e : Engine} (he : w.engines[engine]? = some e) (f : Engine → Engine) :
    idleOf (w.modifyEngine engine f) engine = (f e).pool.idle := by
  rw [idleOf, World.modifyEngine, Array.getElem?_modify, if_pos rfl, he]
  rfl

/-- The idle contexts of an engine may be others that are ready. -/
theorem Ready.withPool (hr : Ready views engine base h w) (f : Pool Nat → Pool Nat)
    (hk : ∀ (ref : Nat) (c : Script.Closure), h.functions[ref]? = some c →
      h₁.functions[ref]? = some c)
    (hground : Ground (idleOf (w.modifyEngine engine fun e => { e with pool := f e.pool }) engine)
      h₁) :
    Ready views engine base h₁ (w.modifyEngine engine fun e => { e with pool := f e.pool }) := by
  obtain ⟨cache, pool, hengine, hcache⟩ := hr.present
  refine ⟨⟨cache, f pool, ?_, hcache⟩, fun i v hv => ?_, hr.stored, hr.runs,
    hground⟩
  · rw [World.modifyEngine, Array.getElem?_modify, if_pos rfl, hengine]
    rfl
  · exact ⟨(hr.made i v hv).1, (hr.made i v hv).2.keeps hk⟩

/-- Whether a context is an empty one that is in nobody's use, taken from the idle ones or new. -/
structure Takes (views : Store) (engine : Nat) (base : Engine) (context : Nat) (h : BridgeHeap)
    (w : World) (h' : BridgeHeap) (w' : World) : Prop where
  ready : Ready views engine base h' w'
  keeps : Heap.Keeps [] h h'
  idle : ∀ c ∈ idleOf w' engine, c ∈ idleOf w engine
  notIdle : context ∉ idleOf w' engine
  free : context ∈ idleOf w engine ∨ h.tables.size ≤ context
  findsGlobals : FindsGlobals h' context
  entries : (h'.table context).entries = []
  views : w'.views = w.views
  sinks : w'.sinks = w.sinks

section Contexts

variable {r : Request} {v : View}

/-- A render gets a context. -/
theorem ends_acquire {e : Engine} (hlevel : level ≤ 191) (hdepth : depth < Script.maxDepth)
    (hr : Ready views engine base h w) (hengine : r.engine = engine)
    (he : w.engines[engine]? = some e) (hv : w.views[r.view]? = some v) :
    ∃ context h₁ w₁, Takes views engine base context h w h₁ w₁
      ∧ ∀ h₂ w₂, Ends level depth (Render.runIn level r context e.config.compile v h₁ w₁) h₂ w₂ →
        Ends level depth (Render.acquire level r e v h w) h₂ w₂ := by
  subst hengine
  have hidle : idleOf w r.engine = e.pool.idle := by rw [idleOf, he]
  have hg := hr.ground
  unfold Render.acquire Pool.take?
  cases hpool : e.pool.idle with
  | cons context rest =>
    rw [hpool] at hidle
    rw [hidle] at hg
    obtain ⟨hnot, hnodup⟩ := List.nodup_cons.1 hg.nodup
    let pool : Pool Nat := { e.pool with idle := rest }
    let w₁ : World := w.modifyEngine r.engine fun e => { e with pool }
    have hrest : idleOf w₁ r.engine = rest := idleOf_modifyEngine he _
    have hr₁ : Ready views r.engine base h w₁ := by
      refine hr.withPool (fun _ => pool) (fun _ _ hc => hc) ?_
      show Ground (idleOf w₁ r.engine) h
      rw [hrest]
      have hnone : HaveMetatables h [] := fun _ hc => absurd hc List.not_mem_nil
      exact hg.keeps_idle hnone (.refl _ _) (fun c hc => List.mem_cons_of_mem _ hc) hnodup
        fun _ _ => List.not_mem_nil
    refine ⟨context, h, w₁, ⟨hr₁, .refl _ _, ?_, ?_, .inl ?_, hg.findsGlobals _ List.mem_cons_self,
      hg.entries _ List.mem_cons_self, rfl, rfl⟩, fun h₂ w₂ hrun => hrun⟩
    · rw [hrest, hidle]
      exact fun c hc => List.mem_cons_of_mem _ hc
    · rwa [hrest]
    · rw [hidle]
      exact List.mem_cons_self
  | nil =>
    obtain ⟨hread, h₁, hinvoke, hkeeps, hfinds, hentries⟩ :=
      makes_context (w := w) hg hlevel hdepth (level + 1)
    refine ⟨h.tables.size, h₁, w, ⟨hr.keeps hkeeps, hkeeps, fun c hc => hc, ?_, .inr ?_, hfinds,
      hentries, rfl, rfl⟩, fun h₂ w₂ hrun => ?_⟩
    · rw [hidle, hpool]
      exact List.not_mem_nil
    · exact Nat.le_refl _
    · simp only [hread]
      refine gives_call (by omega) hinvoke ?_
      simp only [Render.resume, Render.acquired, Script.firstValue, List.headD_cons, he, hv]
      exact hrun

/-- The context of a render is given back. -/
theorem ends_finish (level depth : Nat) {context : Nat} {b : Bridge} {content : Value}
    (hr : Ready views engine base h w) (hu : InUse (idleOf w engine) h context b content)
    (hengine : r.engine = engine) :
    ∃ h₁ w₁, Ends level depth (Render.finish r context h w none) h₁ w₁
      ∧ Ready views engine base h₁ w₁ ∧ Heap.Keeps [context] h h₁
      ∧ (∀ c ∈ idleOf w₁ engine, c ∈ idleOf w engine ∨ c = context) ∧ w₁.sinks = w.sinks := by
  subst hengine
  obtain ⟨cache, pool, hengine, -⟩ := hr.present
  have hidle : idleOf w r.engine = pool.idle := by rw [idleOf, hengine]
  have hkept : idleOf (w.modifyEngine r.engine fun e => { e with pool := e.pool.keep context })
      r.engine = (pool.keep context).idle := idleOf_modifyEngine hengine _
  have hmem : ∀ c ∈ (pool.keep context).idle, c ∈ pool.idle ∨ c = context := by
    intro c hc
    unfold Pool.keep at hc
    split at hc
    · simpa using hc
    · exact .inl hc
  have hg := hr.ground
  have hnot := hu.notIdle
  rw [hidle] at hg hnot
  have hkeeps : Heap.Keeps [context] h (h.contextClear context) :=
    Heap.keeps_modifyTable h (List.mem_singleton.2 rfl) _
  have htable : (h.contextClear context).table context = (h.table context).clear :=
    Heap.table_modifyTable_self hu.findsGlobals.lt _
  have hfree : HaveMetatables h [context] := by
    intro ref href
    rw [List.mem_singleton.1 href]
    exact hu.findsGlobals.metatable
  refine ⟨h.contextClear context, _, gives_answer [],
    hr.withPool (fun pool => pool.keep context) (fun _ _ hc => hc) ?_, hkeeps, ?_, rfl⟩
  · rw [hkept]
    refine hg.keeps hfree hkeeps ?_ (fun c hc => ?_) (fun c hc => ?_)
    · unfold Pool.keep
      split
      · exact List.nodup_append.2 ⟨hg.nodup, List.nodup_cons.2 ⟨List.not_mem_nil, .nil⟩, by
          intro c hc d hd heq
          rw [List.mem_singleton.1 hd] at heq
          exact hnot (heq ▸ hc)⟩
      · exact hg.nodup
    · rcases hmem c hc with hold | rfl
      · rw [hkeeps.tables c (hg.findsGlobals c hold).lt]
        · exact hg.entries c hold
        · exact fun hc' => hnot (List.mem_singleton.1 hc' ▸ hold)
      · rw [htable]
        rfl
    · rcases hmem c hc with hold | rfl
      · refine (hg.findsGlobals c hold).keeps hfree hkeeps ?_
        rw [hkeeps.tables c (hg.findsGlobals c hold).lt]
        exact fun hc' => hnot (List.mem_singleton.1 hc' ▸ hold)
      · exact hu.findsGlobals.keeps hfree hkeeps (by rw [htable]; rfl)
  · rw [hkept, hidle]
    exact hmem

/-- A render of a plain view whose code writes some text when it runs writes the text and ends,
    whatever the settings and the idle contexts, and whether or not the code has been prepared. -/
theorem ends_start {text : String} {bytes : Bytes} (hlevel : level ≤ 191)
    (hdepth : depth + 1 < Script.maxDepth) (hplain : IsPlain v)
    (hsource : v.source = Directive.sources (directivesOf v)) (hr : Ready views engine base h w)
    (hengine : r.engine = engine) (hv : w.views[r.view]? = some v) (hown : v.engine = engine)
    (hnesting : r.depth ≤ base.config.maxNestingDepth) (hs : Holds w r.sink bytes)
    (hbody : ∀ context, Writes views engine base context ⟨engine, r.view, context, r.sink, r.depth⟩
      (contentValue r.children) (level + 1) (depth + 1) (Directive.stmts 1 (directivesOf v)) text) :
    ∃ h₁ w₁, Ends level depth (Render.start level r h w) h₁ w₁
      ∧ Extends views engine base r.sink text h w h₁ w₁ := by
  subst hengine
  obtain ⟨cache, pool, he, -⟩ := hr.present
  obtain ⟨context, h₁, w₁, htakes, hacquire⟩ :=
    ends_acquire hlevel (Nat.lt_of_succ_lt hdepth) hr rfl he hv
  let b : Bridge := ⟨r.engine, r.view, context, r.sink, r.depth⟩
  let h₂ : BridgeHeap := Render.bindVariables h₁ context v.defaults r.attributes r.children b
  have hbinds := inUse_bindVariables htakes.findsGlobals htakes.entries htakes.notIdle hplain.load
    hplain.assert r.attributes r.children b
  obtain ⟨hkeeps₂, hu⟩ := hbinds
  have hfree : HaveMetatables h₁ [context] := by
    intro ref href
    rw [List.mem_singleton.1 href]
    exact htakes.findsGlobals.metatable
  have hr₂ : Ready views r.engine base h₂ w₁ := by
    have hr₁ := htakes.ready
    refine ⟨hr₁.present, fun i v hv => ⟨(hr₁.made i v hv).1, (hr₁.made i v hv).2.keeps
      hkeeps₂.functions⟩, hr₁.stored, hr₁.runs, hr₁.ground.keeps_idle hfree hkeeps₂ (fun _ hc => hc)
      hr₁.ground.nodup fun c hc hmem => ?_⟩
    exact htakes.notIdle (List.mem_singleton.1 hmem ▸ hc)
  obtain ⟨h₃, w₃, hext, hprepare⟩ := ends_prepare hlevel hdepth hplain.uri hsource
    base.config.compile (by rw [htakes.views]; exact hv) hr₂ hu (hs.congr htakes.sinks) (hbody context)
  obtain ⟨h₄, w₄, hfinish, hr₄, hkeeps₄, hidle₄, hsinks₄⟩ :=
    ends_finish level depth (r := r) hext.ready (hu.extends hr₂ hext) rfl
  have hkeeps₃ : Heap.Keeps (idleOf w r.engine) h h₃ := by
    refine (Heap.Keeps.trans (htakes.keeps.mono (fun _ hc => absurd hc List.not_mem_nil))
      (fun c hc => ?_) hkeeps₂).trans (fun c hc => .inl (htakes.idle c hc)) hext.keeps
    rw [List.mem_singleton.1 hc]
    exact htakes.free
  refine ⟨h₄, w₄, ?_, hr₄, ?_, fun c hc => ?_, fun bytes' hs' => ?_⟩
  · have hstart : Render.start level r h w
        = Render.acquire level r { base with cache, pool } v h w := by
      simp only [Render.start, he, hv]
      rw [if_neg (not_not.2 hown), if_neg (Nat.not_lt.2 hnesting)]
    rw [hstart]
    exact hacquire _ _ (hprepare _ _ hfinish)
  · refine hkeeps₃.trans (fun c hc => ?_) hkeeps₄
    rw [List.mem_singleton.1 hc]
    exact htakes.free
  · rcases hidle₄ c hc with hold | rfl
    · rcases hext.idle c hold with hold | hnew
      · exact .inl (htakes.idle c hold)
      · exact .inr (Nat.le_trans (Nat.le_trans htakes.keeps.tablesSize hkeeps₂.tablesSize) hnew)
    · exact htakes.free
  · exact (hext.written bytes' (hs'.congr htakes.sinks)).congr hsinks₄

end Contexts

end ScriptedViews.Expansion

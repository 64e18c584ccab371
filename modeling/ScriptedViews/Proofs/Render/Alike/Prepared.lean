import ScriptedViews.Proofs.Render.Loading

set_option autoImplicit false

/-! # Views that are kept and prepared

Whether an engine keeps its views and prepares their code once or again and again, a view that is
kept is the one that would be read now, and prepared code is what preparing would give now. Preparing
compiles source as the body of a function. What runs later is that body, if the source is read as no
more than that. -/

namespace ScriptedViews

open Script (Value Bytes Heap State Frame Stmt ascii utf8 environmentName)
open Script.State

/-! ## Source -/

/-- The function that the code of a view is compiled into. -/
def viewFunction (body : List Stmt) : Script.Function :=
  .mk [environmentName] false body

/-- The name of the code of a view. -/
def chunkName (uri : String) : Bytes :=
  ascii "@" ++ utf8 uri

/-- The function of a view as it is when it has been made. -/
def viewClosure (uri : String) (body : List Stmt) (behind : Nat) : Script.Closure :=
  ⟨viewFunction body, [(environmentName, behind)], Script.chunkTitle (chunkName uri)⟩

/-- Whether some source is read as the body of one function, with no more than `most` levels of
    calls. -/
def IsBody (most : Nat) (source : String) (body : List Stmt) : Prop :=
  ∀ levels ≤ most, Script.readProgram (levels + 1) (Script.functionSource source)
    = .ok (.mk [] true [.return [.function (viewFunction body)]])

/-- Whether some source is refused for the same reason, with no more than `most` levels of calls. -/
def IsRefused (most : Nat) (source : String) (e : Script.ReadError) : Prop :=
  ∀ levels ≤ most, Script.readProgram (levels + 1) (Script.functionSource source) = .error e

/-- Whether some source is compiled into one function that has it as its body, or is refused, however
    many levels of calls there are up to `most`. -/
def IsSealed (most : Nat) (source : String) : Prop :=
  (∃ body, IsBody most source body) ∨ ∃ e, IsRefused most source e

theorem IsBody.unique {most : Nat} {source : String} {body body' : List Stmt}
    (h : IsBody most source body) (h' : IsBody most source body') : body = body' := by
  have := (h 0 (Nat.zero_le _)).symm.trans (h' 0 (Nat.zero_le _))
  simpa [viewFunction] using this

theorem IsBody.not_refused {most : Nat} {source : String} {body : List Stmt} {e : Script.ReadError}
    (h : IsBody most source body) (h' : IsRefused most source e) : False := by
  have := (h 0 (Nat.zero_le _)).symm.trans (h' 0 (Nat.zero_le _))
  cases this

/-! ## Worlds that keep views -/

/-- Whether some code is what preparing the code of a view gives. -/
inductive Prepares (known : Nat → Script.Closure → Prop) (most : Nat) (uri source : String) :
    Bool → Script.Executable → Prop where
  | compiled {body : List Stmt} {f behind : Nat} (hname : (chunkName uri).contains 0 = false)
      (hbody : IsBody most source body) (hknown : known f (viewClosure uri body behind)) :
      Prepares known most uri source true (.compiled (.function f))
  | interpreted : Prepares known most uri source false (.interpreted uri source)

/-- Whether all engines of a world have its first runtime, and all of them compile the code of views
    or none of them does, kept views are those that would be read now, and prepared code is what
    preparing it would give. -/
structure World.Tidy (known : Nat → Script.Closure → Prop) (most : Nat) (compile : Bool)
    (w : World) : Prop where
  runs : 0 < w.runtimes.size
  runtime : ∀ {i : Nat} {e : Engine}, w.engines[i]? = some e → e.runtime = 0
  compiles : ∀ {i : Nat} {e : Engine}, w.engines[i]? = some e → e.config.compile = compile
  kept : ∀ {i : Nat} {e : Engine} {uri : String} {k : Nat}, w.engines[i]? = some e →
    e.cache.get? uri = some k → ∃ v, w.views[k]? = some v
      ∧ w.readView i e uri = .ok { v with executable := none }
  prepared : ∀ {k : Nat} {v : View} {x : Script.Executable}, w.views[k]? = some v →
    v.executable = some x → Prepares known most v.uri v.source compile x

variable {known known' : Nat → Script.Closure → Prop} {most : Nat} {compile : Bool}
  {w w₁ w₂ : World}

theorem Prepares.mono (hk : ∀ {f c}, known f c → known' f c) {uri source : String}
    {x : Script.Executable} (h : Prepares known most uri source compile x) :
    Prepares known' most uri source compile x := by
  cases h with
  | compiled hname hbody hknown => exact .compiled hname hbody (hk hknown)
  | interpreted => exact .interpreted

theorem World.Tidy.mono (hk : ∀ {f c}, known f c → known' f c) (h : w.Tidy known most compile) :
    w.Tidy known' most compile where
  runs := h.runs
  runtime := h.runtime
  compiles := h.compiles
  kept := h.kept
  prepared hv hx := (h.prepared hv hx).mono hk

/-! ## Loads -/

/-- Whether an engine is another one that keeps other views. -/
def Engine.SameButCache (e e₁ : Engine) : Prop :=
  ∃ cache, e₁ = { e with cache }

/-- Whether a world is another one with more views, with more code prepared, and with other views
    kept. -/
structure World.Stays (w w₁ : World) : Prop where
  views : ∀ {j : Nat} {v : View}, w.views[j]? = some v →
    ∃ x, w₁.views[j]? = some { v with executable := x }
  engines : ∀ i : Nat, Option.Rel Engine.SameButCache w.engines[i]? w₁.engines[i]?
  sinks : w₁.sinks = w.sinks
  sources : w₁.sources = w.sources

theorem sameButCache_refl (x : Option Engine) : Option.Rel Engine.SameButCache x x := by
  cases x with
  | none => exact .none
  | some e => exact .some ⟨e.cache, rfl⟩

theorem World.Stays.refl (w : World) : w.Stays w :=
  ⟨fun {_ v} hv => ⟨v.executable, hv⟩, fun _ => sameButCache_refl _, rfl, rfl⟩

/-- A view that is read is put into the world, and may be kept. -/
theorem World.Tidy.addRead (ht : w.Tidy known most compile) {i : Nat} {e : Engine}
    (he : w.engines[i]? = some e) {uri : String} {v : View} (hread : w.readView i e uri = .ok v)
    (keep : Bool) :
    let w₁ := if keep then
      (w.addView v).2.modifyEngine i fun e => { e with cache := e.cache.insert uri w.views.size }
      else (w.addView v).2
    w₁.Tidy known most compile ∧ w.Stays w₁
      ∧ w₁.views[w.views.size]? = some { v with executable := none } := by
  have hnone := (Expansion.isRead_of_readView hread).executable
  have hnew : (w.views.push v)[w.views.size]? = some { v with executable := none } := by
    rw [← hnone]
    exact Array.getElem?_push_size
  have hold : ∀ {j : Nat} {u : View}, w.views[j]? = some u → (w.views.push v)[j]? = some u := by
    intro j u hu
    have hlt := (Array.getElem?_eq_some_iff.1 hu).1
    rw [Array.getElem?_push_lt hlt, ← Array.getElem?_eq_getElem hlt, hu]
  have hviews : ∀ {j : Nat} {u : View}, w.views[j]? = some u →
      ∃ x, (w.views.push v)[j]? = some { u with executable := x } :=
    fun {_ u} hu => ⟨u.executable, hold hu⟩
  -- what is prepared was there before
  have hprepared : ∀ {k : Nat} {u : View} {x : Script.Executable}, (w.views.push v)[k]? = some u →
      u.executable = some x → w.views[k]? = some u := by
    intro k u x hu hx
    rw [Array.getElem?_push] at hu
    split at hu
    · rw [Option.some.injEq] at hu
      rw [← hu, hnone] at hx
      cases hx
    · exact hu
  cases keep with
  | false =>
    refine ⟨⟨ht.runs, ht.runtime, ht.compiles, fun he hk => ?_,
      fun hv hx => ht.prepared (hprepared hv hx) hx⟩,
      ⟨hviews, fun i => sameButCache_refl _, rfl, rfl⟩, hnew⟩
    obtain ⟨u, hu, hreads⟩ := ht.kept he hk
    exact ⟨u, hold hu, hreads⟩
  | true =>
    have hengines : ∀ j : Nat, ((w.addView v).2.modifyEngine i fun e =>
        { e with cache := e.cache.insert uri w.views.size }).engines[j]?
        = if i = j then some { e with cache := e.cache.insert uri w.views.size }
          else w.engines[j]? := by
      intro j
      simp only [World.modifyEngine, World.addView, Array.getElem?_modify]
      split
      · rename_i hij
        rw [← hij, he, Option.map_some]
      · rfl
    refine ⟨⟨ht.runs, fun {j e'} he' => ?_, fun {j e'} he' => ?_, fun {j e' uri' k} he' hk => ?_,
      fun hv hx => ht.prepared (hprepared hv hx) hx⟩, ⟨hviews, fun j => ?_, rfl, rfl⟩, hnew⟩
    · simp only [if_true, hengines] at he'
      split at he'
      · cases he'
        have hruntime := ht.runtime he
        exact hruntime
      · exact ht.runtime he'
    · simp only [if_true, hengines] at he'
      split at he'
      · cases he'
        have hcompile := ht.compiles he
        exact hcompile
      · exact ht.compiles he'
    · simp only [if_true, hengines] at he'
      by_cases hij : i = j
      · subst hij
        rw [if_pos rfl, Option.some.injEq] at he'
        subst he'
        rw [OrderedMap.get?_insert] at hk
        by_cases huri : uri' == uri
        · rw [if_pos huri, Option.some.injEq] at hk
          rw [eq_of_beq huri, ← hk]
          refine ⟨{ v with executable := none }, hnew, ?_⟩
          exact hread.trans (congrArg _ (by rw [← hnone]))
        · rw [if_neg huri] at hk
          obtain ⟨u, hu, hreads⟩ := ht.kept he hk
          exact ⟨u, hold hu, hreads⟩
      · rw [if_neg hij] at he'
        obtain ⟨u, hu, hreads⟩ := ht.kept he' hk
        exact ⟨u, hold hu, hreads⟩
    · simp only [if_true, hengines]
      split
      · rename_i hij
        rw [← hij, he]
        exact .some ⟨_, rfl⟩
      · exact sameButCache_refl _

/-- A load gives the view that would be read now, or fails as reading would. -/
theorem World.Tidy.load (ht : w.Tidy known most compile) {i : Nat} {e : Engine}
    (he : w.engines[i]? = some e) (uri : String) :
    (∃ error, w.readView i e uri = .error error ∧ w.load i uri = .error error)
      ∨ ∃ v k w₁ x, w.readView i e uri = .ok v ∧ w.load i uri = .ok (k, w₁) ∧ w₁.Tidy known most compile
        ∧ w.Stays w₁ ∧ w₁.views[k]? = some { v with executable := x } := by
  cases hkept : (if e.config.cacheViews then e.cache.get? uri else none) with
  | some k =>
    have hget : e.cache.get? uri = some k := by
      split at hkept
      · exact hkept
      · cases hkept
    obtain ⟨v, hv, hread⟩ := ht.kept he hget
    refine .inr ⟨_, k, w, v.executable, hread, ?_, ht, .refl w, hv⟩
    simp only [World.load, he, hkept]
  | none =>
    cases hread : w.readView i e uri with
    | error error =>
      refine .inl ⟨error, rfl, ?_⟩
      simp only [World.load, he, hkept, hread]
    | ok v =>
      obtain ⟨htidy, hstays, hview⟩ := ht.addRead he hread e.config.cacheViews
      refine .inr ⟨v, _, _, none, rfl, ?_, htidy, hstays, hview⟩
      simp only [World.load, he, hkept, hread]
      cases e.config.cacheViews <;> rfl

/-! ## Reading source -/

theorem readSource_eq (h : BridgeHeap) (levels : Nat) (uri : String) (source : Bytes)
    (environment : Value) : h.readSource levels uri source environment
      = if (chunkName uri).contains 0 then .error (.runtime "invalid chunk name")
        else match h.readChunk levels (chunkName uri) source environment with
          | .ok r => .ok r
          | .error e => .error (e.toRaised (Script.chunkTitle (chunkName uri))) := by
  unfold Heap.readSource chunkName
  dsimp only
  cases h.readChunk levels (ascii "@" ++ utf8 uri) source environment <;> rfl

/-- Whether the source of a view is refused for a cause that does not depend on where it is read. -/
def IsUnreadable (most : Nat) (uri source : String) (cause : RaisedError) : Prop :=
  ∀ (h : BridgeHeap) (levels : Nat) (environment : Value), levels ≤ most →
    h.readSource (levels + 1) uri (Script.functionSource source) environment = .error cause

/-- A name with a zero byte names no code. -/
theorem isUnreadable_of_zero {uri : String} (hname : (chunkName uri).contains 0 = true) (most : Nat)
    (source : String) : IsUnreadable most uri source (.runtime "invalid chunk name") := by
  intro h levels environment _
  rw [readSource_eq, if_pos hname]

theorem isUnreadable_of_refused {most : Nat} {uri source : String} {e : Script.ReadError}
    (hrefused : IsRefused most source e) (hname : (chunkName uri).contains 0 = false) :
    IsUnreadable most uri source (e.toRaised (Script.chunkTitle (chunkName uri))) := by
  intro h levels environment hlevels
  simp only [readSource_eq, hname, Heap.readChunk, hrefused levels hlevels]
  rfl

/-- Source that is sealed is refused everywhere, or read as the body of one function. -/
theorem IsSealed.cases {most : Nat} {source : String} (h : IsSealed most source) (uri : String) :
    (∃ cause, IsUnreadable most uri source cause)
      ∨ (chunkName uri).contains 0 = false ∧ ∃ body, IsBody most source body := by
  by_cases hname : (chunkName uri).contains 0 = true
  · exact .inl ⟨_, isUnreadable_of_zero hname most source⟩
  · rw [Bool.not_eq_true] at hname
    rcases h with hbody | ⟨e, hrefused⟩
    · exact .inr ⟨hname, hbody⟩
    · exact .inl ⟨_, isUnreadable_of_refused hrefused hname⟩

/-- What reading the source of a view puts on the heap: the chunk that makes its function. -/
def withViewChunk (h : BridgeHeap) (uri : String) (body : List Stmt) : BridgeHeap :=
  ((h.newCell (.table h.globals)).2.newFunction
    ⟨.mk [] true [.return [.function (viewFunction body)]], [(environmentName, h.cells.size)],
      Script.chunkTitle (chunkName uri)⟩).2

theorem IsBody.readSource {most levels : Nat} {uri source : String} {body : List Stmt}
    (hbody : IsBody most source body) (hname : (chunkName uri).contains 0 = false)
    (hlevels : levels ≤ most) (h : BridgeHeap) :
    h.readSource (levels + 1) uri (Script.functionSource source) (.table h.globals)
      = .ok (.function h.functions.size, withViewChunk h uri body) := by
  simp only [readSource_eq, hname, Heap.readChunk, hbody levels hlevels]
  rfl

/-! ## Preparing -/

theorem World.stays_publish (w : World) (k : Nat) (x : Script.Executable) :
    w.Stays (w.modifyView k fun v => v.prepared x) := by
  refine ⟨fun {j u} hu => ?_, fun _ => sameButCache_refl _, rfl, rfl⟩
  simp only [World.modifyView, Array.getElem?_modify]
  split
  · exact ⟨_, by rw [hu]; rfl⟩
  · exact ⟨u.executable, hu⟩

/-- Code that has been prepared is published. -/
theorem World.Tidy.publish (ht : w.Tidy known most compile) {k : Nat} {v : View}
    (hv : w.views[k]? = some v) {x : Script.Executable}
    (hx : Prepares known most v.uri v.source compile x) :
    (w.modifyView k fun v => v.prepared x).Tidy known most compile := by
  refine ⟨ht.runs, ht.runtime, ht.compiles, fun he' hk => ?_, fun {j u y} hu hy => ?_⟩
  · obtain ⟨u, hu, hread⟩ := ht.kept he' hk
    obtain ⟨y, hy⟩ := (w.stays_publish k x).views hu
    exact ⟨_, hy, hread⟩
  · simp only [World.modifyView, Array.getElem?_modify] at hu
    split at hu
    · rename_i hkj
      rw [← hkj, hv, Option.map_some, Option.some.injEq] at hu
      subst hu
      cases hold : v.executable with
      | some z =>
        have hz : z = y := by simpa [View.prepared, hold] using hy
        have hprepared := ht.prepared hv (hold.trans (congrArg some hz))
        exact hprepared
      | none =>
        have hz : x = y := by simpa [View.prepared, hold] using hy
        exact hz ▸ hx
    · exact ht.prepared hu hy

theorem World.Tidy.modifyRuntime (ht : w.Tidy known most compile) (i : Nat) (f : Runtime → Runtime) :
    (w.modifyRuntime i f).Tidy known most compile where
  runs := by
    simpa only [World.modifyRuntime, Array.size_modify] using ht.runs
  runtime := ht.runtime
  compiles := ht.compiles
  kept := ht.kept
  prepared := ht.prepared

theorem executePrepared_of_none {level : Nat} {r : Request} {c : Nat} {x : Script.Executable}
    {h : BridgeHeap} {v : View} (hv : w.views[r.view]? = some v) (hx : v.executable = none) :
    Render.executePrepared level r c x h w
      = Render.execute level r c x h (w.modifyView r.view fun v => v.prepared x) := by
  have hview : (w.modifyView r.view fun v => v.prepared x).views[r.view]?
      = some { v with executable := some x } := by
    simp only [World.modifyView, Array.getElem?_modify, if_true, hv, Option.map_some, View.prepared,
      hx]
    rfl
  simp only [Render.executePrepared, hview]
  rfl

section Prepare

variable {level depth c : Nat} {r : Request} {h : BridgeHeap} {v : View}

/-- Code that is not compiled is read again for each render. -/
theorem World.Tidy.prepare_interpreted (ht : w.Tidy known most false)
    (hv : w.views[r.view]? = some v) :
    ∃ w₁, w₁.Tidy known most false ∧ w.Stays w₁ ∧ ∀ (level c : Nat) (h : BridgeHeap),
      Render.prepare level r c false v h w
        = Render.execute level r c (.interpreted v.uri v.source) h w₁ := by
  cases hx : v.executable with
  | some x =>
    cases ht.prepared hv hx
    exact ⟨w, ht, .refl w, fun level c h => by simp only [Render.prepare, hx]⟩
  | none =>
    refine ⟨_, ht.publish hv .interpreted, w.stays_publish _ _, fun level c h => ?_⟩
    simp only [Render.prepare, hx]
    exact executePrepared_of_none hv hx

variable (ht : w.Tidy known most true) (hv : w.views[r.view]? = some v) (hlevel : level ≤ most)

include ht hv hlevel

/-- A view whose source is refused has no prepared code, and its render fails. -/
theorem World.Tidy.prepare_refused {cause : RaisedError}
    (hrefused : IsUnreadable most v.uri v.source cause) :
    Render.prepare level r c true v h w = Render.finish r c h w (some cause) := by
  cases hx : v.executable with
  | some x =>
    cases ht.prepared hv hx with
    | compiled hname hbody hknown =>
      have hread := hbody.readSource hname hlevel h
      rw [hrefused h level _ hlevel] at hread
      cases hread
  | none =>
    simp only [Render.prepare, hx, if_true, Render.compile, hrefused h level _ hlevel,
      World.nameSource_sourceName?]

/-- A render of a view whose source is the body of a function calls a function. -/
theorem World.Tidy.prepare_calls {body : List Stmt} (hbody : IsBody most v.source body)
    (hname : (chunkName v.uri).contains 0 = false) :
    ∃ h₁ w₁ f args p, Render.prepare level r c true v h w = ⟨h₁, w₁, .call f args p⟩ := by
  cases hx : v.executable with
  | some x =>
    cases ht.prepared hv hx with
    | compiled => exact ⟨_, _, _, _, _, by simp only [Render.prepare, hx]; rfl⟩
  | none =>
    exact ⟨_, _, _, _, _, by
      simp only [Render.prepare, hx, if_true, Render.compile, hbody.readSource hname hlevel h]; rfl⟩

/-- It comes to call the function that its source is the body of. -/
theorem World.Tidy.prepare_compiled {body : List Stmt} (hbody : IsBody most v.source body)
    (hname : (chunkName v.uri).contains 0 = false) (hmost : most ≤ 197)
    (hdepth : depth < Script.maxDepth) (K : List (Frame Pending)) (control : Script.Control) :
    ∃ h₁ w₁ f behind, Heap.Keeps [] h h₁ ∧ w.Stays w₁
      ∧ ((∀ {f c}, known f c → h.functions[f]? = some c) →
        h₁.functions[f]? = some (viewClosure v.uri body behind))
      ∧ (∀ known' : Nat → Script.Closure → Prop, (∀ {f c}, known f c → known' f c) →
        known' f (viewClosure v.uri body behind) → w₁.Tidy known' most true)
      ∧ Reaches Render.host
        (State.turn ⟨h, w, K, control, level, depth⟩ (Render.prepare level r c true v h w))
        (State.turn ⟨h, w, K, control, level, depth⟩
          ⟨h₁, w₁, .call (.function f) [.table c] (.running r c)⟩) := by
  cases hx : v.executable with
  | some x =>
    cases ht.prepared hv hx with
    | @compiled body' f behind hname' hbody' hknown =>
      obtain rfl := hbody.unique hbody'
      refine ⟨h, w, f, behind, .refl _ _, .refl w, fun hk => hk hknown,
        fun known' hmono _ => ht.mono hmono, ?_⟩
      simp only [Render.prepare, hx]
      exact .refl _
  | none =>
    let h₁ : BridgeHeap := withViewChunk h v.uri body
    let h₂ : BridgeHeap := (h₁.newFunction (viewClosure v.uri body h.cells.size)).2
    let w₀ : World := w.nameSource (w.runtimeOf r.engine) (some v.uri)
    let previous : Option String := w.sourceName? (w.runtimeOf r.engine)
    let w₁ : World := (w₀.nameSource (w.runtimeOf r.engine) previous).modifyRuntime
      (w.runtimeOf r.engine) fun rt => { rt with compilations := rt.compilations + 1 }
    let x : Script.Executable := .compiled (.function h₁.functions.size)
    have hkeeps : Heap.Keeps [] h h₂ :=
      ((Heap.keeps_newCell [] h _).trans (by simp) (Heap.keeps_newFunction [] _ _)).trans (by simp)
        (Heap.keeps_newFunction [] h₁ _)
    have hstays : w.Stays (w₁.modifyView r.view fun v => v.prepared x) :=
      { w₁.stays_publish r.view x with }
    refine ⟨h₂, w₁.modifyView r.view fun v => v.prepared x, h₁.functions.size, h.cells.size, hkeeps,
      hstays, fun _ => Heap.functions_newFunction h₁ _, fun known' hmono hknown => ?_, ?_⟩
    · have htidy : w₁.Tidy known most true :=
        ((ht.modifyRuntime _ _).modifyRuntime _ _).modifyRuntime _ _
      exact (htidy.mono hmono).publish hv (.compiled hname hbody hknown)
    · have hinvoke : Invokes Render.host (level + 1) depth h₁ w₀ (.function h.functions.size) [] h₂
          w₀ [.function h₁.functions.size] :=
        invokes_return_function (Heap.functions_newFunction _ _) rfl hdepth
      have henter : State.turn ⟨h, w, K, control, level, depth⟩ (Render.prepare level r c true v h w)
          = ⟨h₁, w₀, .host (.preparing r c previous) :: K,
            .invoke (.function h.functions.size) [] none, level + 1, depth⟩ := by
        simp only [Render.prepare, hx, if_true, Render.compile, hbody.readSource hname hlevel h,
          State.turn, State.enter, Script.maxLevel, Nat.not_le.2 (show level + 1 < 200 by omega),
          if_false]
        rfl
      have hresume : step Render.host ⟨h₂, w₀, .host (.preparing r c previous) :: K,
            .values [.function h₁.functions.size], level + 1, depth⟩
          = State.turn ⟨h₂, w, K, .finished, level, depth⟩
            (Render.executePrepared level r c x h₂ w₁) := rfl
      have hexecute : State.turn ⟨h₂, w, K, .finished, level, depth⟩
            (Render.executePrepared level r c x h₂ w₁)
          = State.turn ⟨h, w, K, control, level, depth⟩
            ⟨h₂, w₁.modifyView r.view fun v => v.prepared x,
              .call (.function h₁.functions.size) [.table c] (.running r c)⟩ := by
        rw [executePrepared_of_none (w := w₁) hv hx]
        rfl
      rw [henter, ← hexecute, ← hresume]
      exact (hinvoke _ _).trans (.head rfl (.refl _))

end Prepare

end ScriptedViews

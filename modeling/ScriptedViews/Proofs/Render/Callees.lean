import ScriptedViews.Proofs.Render.Kept
import ScriptedViews.Proofs.Render.Merging

set_option autoImplicit false

/-! # Views that are called

A view that is called by code gets a context that nobody else has, with the variables that it declares
and no others, and the variables of its caller are left alone. This is so when its code starts: when it
is called as it was compiled or read, or when what it is compiled by does more than make a function of
it. -/

namespace ScriptedViews

open Expansion (FindsMaker FindsGlobals withContext withContextCode)
open Script (Bytes Value Frame State utf8 hostPart)
open Script.State (Reaches)

/-! ## Calls -/

/-- A call of a view by code. -/
structure ViewCall where
  bridge : Bridge
  base : String
  tag : String
  /-- The table of what the call gives. -/
  given : Option Nat
  content : Option String
  /-- The stack below the call. -/
  stack : List (Frame Pending)

namespace RenderState

variable {s s' : RenderState}

theorem methodCall?_spec {name : Bytes} {args : List Value} {K : List (Frame Pending)}
    (hcall : s.methodCall? = some (name, args, K)) : hostPart K = hostPart s.stack
      ∧ s.step Render.host = State.turn { s with stack := K }
        (Render.invoke name args s.level s.heap s.world) := by
  obtain ⟨heap, w, stack, control, level, depth⟩ := s
  unfold State.methodCall? at hcall
  split at hcall
  · next hc =>
    cases hcall
    cases hc
    exact ⟨rfl, rfl⟩
  · next hc hs =>
    cases hcall
    cases hc
    cases hs
    exact ⟨(Script.hostPart_of_not rfl _).symm, rfl⟩
  · cases hcall

/-- The call of a view that the next step makes. -/
def viewCall? (s : RenderState) : Option ViewCall :=
  match s.methodCall? with
  | some (name, args, stack) =>
    if name = utf8 "execute" then
      match Bridge.receiver? s.heap args, Bridge.textArgument (args.tail.getD 0 .nil),
        Bridge.textArgument (args.tail.getD 1 .nil), Bridge.optionalTable (args.tail.getD 2 .nil),
        Bridge.optionalText (args.tail.getD 3 .nil) with
      | some bridge, .ok base, .ok tag, .ok given, .ok content =>
        some { bridge, base, tag, given, content, stack }
      | _, _, _, _, _ => none
    else none
  | none => none

theorem viewCall?_spec {c : ViewCall} (hcall : s.viewCall? = some c) :
    hostPart c.stack = hostPart s.stack
      ∧ s.step Render.host = State.turn { s with stack := c.stack }
        (Render.callView s.level c.bridge c.base c.tag c.given c.content s.heap s.world) := by
  unfold viewCall? at hcall
  split at hcall
  · next name args K hmethod =>
    split at hcall
    · next hname =>
      subst hname
      split at hcall
      · next bridge base tag given content hb hbase htag hgiven hcontent =>
        cases hcall
        obtain ⟨hpart, hstep⟩ := methodCall?_spec hmethod
        have hlookup : Bridge.methods.lookup (utf8 "execute") = some .execute := by decide
        have hinvoke : Render.invoke (utf8 "execute") args s.level s.heap s.world
            = Render.callView s.level bridge base tag given content s.heap s.world := by
          simp only [Render.invoke, hlookup, hb, Render.callMethod, hbase, htag, hgiven, hcontent]
          rfl
        exact ⟨hpart, hstep.trans (congrArg _ hinvoke)⟩
      · cases hcall
    · cases hcall
  · cases hcall

/-- Only the stack and the room count for a turn. -/
theorem turn_congr (hstack : s.stack = s'.stack) (hlevel : s.level = s'.level)
    (hdepth : s.depth = s'.depth) (t : EngineTurn) : s.turn t = s'.turn t := by
  obtain ⟨_, _, stack, _, level, depth⟩ := s
  obtain ⟨_, _, stack', _, level', depth'⟩ := s'
  cases hstack
  cases hlevel
  cases hdepth
  obtain ⟨h, w, action⟩ := t
  cases action <;> rfl

/-- The host calls something, if there is room for it. -/
theorem turn_call (hlevel : s.level + 1 < Script.maxLevel) (h : BridgeHeap) (w : World) (f : Value)
    (args : List Value) (p : Pending) : s.turn ⟨h, w, .call f args p⟩
      = ⟨h, w, .host p :: s.stack, .invoke f args none, s.level + 1, s.depth⟩ := by
  simp only [State.turn, State.enter, Nat.not_le.2 hlevel, if_false]

/-- The host goes on with values. -/
theorem reaches_resume {p : Pending} {vs : List Value} (h : BridgeHeap) (w : World) :
    Reaches Render.host ⟨h, w, .host p :: s.stack, .values vs, s.level + 1, s.depth⟩
      (s.turn (Render.resume p (.ok vs) s.level h w)) := by
  refine .step ?_
  have hstep : State.step Render.host ⟨h, w, .host p :: s.stack, .values vs, s.level + 1, s.depth⟩
      = s.turn (Render.resume p (.ok vs) s.level h w) :=
    turn_congr (s := ⟨h, w, s.stack, .finished, s.level + 1 - 1, s.depth⟩) rfl rfl rfl _
  rw [hstep]
  exact .refl _

end RenderState

/-! ## Reading code -/

/-- Whether source with a name can be read at a number of levels. -/
def IsReadable (levels : Nat) (name : String) (source : Bytes) : Prop :=
  '\x00' ∉ name.toList ∧ ∃ f, Script.readProgram levels source = .ok f

/-- Whether the code of a view can be read, as far as that has to be done. -/
def View.IsReadable (levels : Nat) (compile : Bool) (v : View) : Prop :=
  match v.executable with
  | some (.compiled _) => True
  | some (.interpreted name source) => ScriptedViews.IsReadable levels name (utf8 source)
  | none =>
    if compile then
      ScriptedViews.IsReadable (levels + 1) v.uri (Script.functionSource v.source)
    else ScriptedViews.IsReadable levels v.uri (utf8 v.source)

variable {h h' : BridgeHeap} {w : World}

/-- What can be read is read as a function, and no table or object is touched. -/
theorem IsReadable.readSource {levels : Nat} {name : String} {source : Bytes}
    (hr : IsReadable levels name source) (h : BridgeHeap) (environment : Value) :
    ∃ f chunk h', Script.readProgram levels source = .ok f
      ∧ h.readSource levels name source environment = .ok (.function h.functions.size, h')
      ∧ h'.functions[h.functions.size]? = some ⟨f, [(Script.environmentName, h.cells.size)], chunk⟩
      ∧ h'.tables = h.tables ∧ h'.objects = h.objects := by
  obtain ⟨hname, f, hf⟩ := hr
  exact ⟨f, _, _, hf, Expansion.readSource_of_readProgram hname hf environment,
    Script.Heap.functions_newFunction _ _, rfl, rfl⟩

/-! ## The code of a render starts -/

/-- Whether a program only makes a function. -/
def MakesFunction (f : Script.Function) : Prop :=
  ∃ g, f = .mk [] true [.return [.function g]]

/-- Whether the code of a render starts above a stack, with the context of the render. -/
inductive StartsCode (r : Request) (context : Nat) (K : List (Frame Pending)) (s : RenderState) :
    Prop
  /-- The code is called. -/
  | runs {levels : Nat} {h : BridgeHeap} {x : Script.Executable} {f : Value} {args : List Value}
      (hx : h.callOf levels x context = .ok (f, args, s.heap))
      (hs : s.stack = .host (.running r context) :: K) (hc : s.control = .invoke f args none)
  /-- The code is compiled, and does something by itself then. -/
  | compiles {ref : Nat} {c : Script.Closure} {previous : Option String}
      (hs : s.stack = .host (.preparing r context previous) :: K)
      (hc : s.control = .invoke (.function ref) [] none) (hf : s.heap.functions[ref]? = some c)
      (hmore : ¬ MakesFunction c.function)

section Code

variable {s : RenderState} {r : Request} {context : Nat} {v : View}

theorem startsCode_execute (hlevel : s.level + 1 < Script.maxLevel) {x : Script.Executable}
    (hx : ∀ name source, x = .interpreted name source → IsReadable s.level name (utf8 source)) :
    ∃ t, s.turn (Render.execute s.level r context x h w) = t ∧ StartsCode r context s.stack t
      ∧ t.heap.tables = h.tables ∧ t.heap.objects = h.objects := by
  cases x with
  | compiled f =>
    refine ⟨_, rfl, ?_⟩
    rw [show Render.execute s.level r context (.compiled f) h w
      = ⟨h, w, .call f [.table context] (.running r context)⟩ from rfl,
      RenderState.turn_call hlevel]
    have hcall : h.callOf s.level (.compiled f) context = .ok (f, [.table context], h) := rfl
    exact ⟨.runs hcall rfl rfl, rfl, rfl⟩
  | interpreted name source =>
    obtain ⟨f, chunk, h', -, hread, -, hkept⟩ := (hx name source rfl).readSource h (.table context)
    have hcall : h.callOf s.level (.interpreted name source) context
        = .ok (.function h.functions.size, [], h') := by
      rw [Script.Heap.callOf, hread]
    have hexecute : Render.execute s.level r context (.interpreted name source) h w
        = ⟨h', w, .call (.function h.functions.size) [] (.running r context)⟩ := by
      rw [Render.execute, hcall]
    refine ⟨_, rfl, ?_⟩
    rw [hexecute, RenderState.turn_call hlevel]
    exact ⟨.runs hcall rfl rfl, hkept⟩

theorem startsCode_executePrepared (context : Nat) (hlevel : s.level + 1 < Script.maxLevel)
    (hv : w.views[r.view]? = some v) (hnone : v.executable = none) {x : Script.Executable}
    (hx : ∀ name source, x = .interpreted name source → IsReadable s.level name (utf8 source)) :
    ∃ t, s.turn (Render.executePrepared s.level r context x h w) = t
      ∧ StartsCode r context s.stack t ∧ t.heap.tables = h.tables
      ∧ t.heap.objects = h.objects := by
  have hpublished : ((w.modifyView r.view fun v => v.prepared x).views[r.view]?.bind
      View.executable).getD x = x := by
    rw [World.modifyView, Array.getElem?_modify, if_pos rfl, hv]
    simp only [Option.map_some, Option.bind_some, View.prepared, hnone]
    rfl
  rw [show Render.executePrepared s.level r context x h w
    = Render.execute s.level r context (((w.modifyView r.view fun v => v.prepared x).views[r.view]?.bind
      View.executable).getD x) h (w.modifyView r.view fun v => v.prepared x) from rfl, hpublished]
  exact startsCode_execute hlevel hx

/-- Code that can be read starts, and no table or object has been touched then. -/
theorem reaches_startsCode (context : Nat) (hlevel : s.level + 1 < Script.maxLevel)
    (hdepth : s.depth < Script.maxDepth) (hv : w.views[r.view]? = some v) {compile : Bool}
    (hreads : v.IsReadable s.level compile) :
    ∃ t, Reaches Render.host (s.turn (Render.prepare s.level r context compile v h w)) t
      ∧ StartsCode r context s.stack t ∧ t.heap.tables = h.tables
      ∧ t.heap.objects = h.objects := by
  unfold Render.prepare
  cases hx : v.executable with
  | some x =>
    rw [View.IsReadable, hx] at hreads
    have hx : ∀ name source, x = .interpreted name source →
        IsReadable s.level name (utf8 source) := by
      rintro name source rfl
      exact hreads
    obtain ⟨t, rfl, ht⟩ := startsCode_execute hlevel hx
    exact ⟨_, .refl _, ht⟩
  | none =>
    rw [View.IsReadable, hx] at hreads
    cases compile with
    | false =>
      have hsource : ∀ name source, Script.Executable.interpreted v.uri v.source
          = .interpreted name source → IsReadable s.level name (utf8 source) := by
        rintro name source hsame
        cases hsame
        exact hreads
      obtain ⟨t, rfl, ht⟩ := startsCode_executePrepared context hlevel hv hx hsource
      exact ⟨_, .refl _, ht⟩
    | true =>
      simp only [if_true] at hreads ⊢
      obtain ⟨f, chunk, h', -, hread, hf, htables, hobjects⟩ :=
        hreads.readSource h (.table h.globals)
      simp only [Render.compile, hread]
      rw [RenderState.turn_call hlevel]
      by_cases hmore : MakesFunction f
      · -- The function is made, and called in its turn.
        obtain ⟨g, rfl⟩ := hmore
        let runtime := w.runtimeOf r.engine
        have hmade : Script.State.Invokes Render.host (s.level + 1) s.depth h'
            (w.nameSource runtime (some v.uri)) (.function h.functions.size) [] _
            (w.nameSource runtime (some v.uri)) [.function h'.functions.size] :=
          Script.State.invokes_return_function hf rfl hdepth
        have hresume := (hmade (.host (.preparing r context (w.sourceName? runtime)) :: s.stack)
          none).trans (RenderState.reaches_resume _ _)
        have hrestored : Render.resume (.preparing r context (w.sourceName? runtime))
            (.ok [.function h'.functions.size]) s.level
            (h'.newFunction ⟨g, [(Script.environmentName, h.cells.size)], chunk⟩).2
            (w.nameSource runtime (some v.uri))
            = Render.compiled s.level r context [.function h'.functions.size]
              (h'.newFunction ⟨g, [(Script.environmentName, h.cells.size)], chunk⟩).2 w := by
          rw [Render.resume, show (w.nameSource runtime (some v.uri)).runtimeOf r.engine = runtime
            from rfl, w.nameSource_sourceName?]
        rw [hrestored] at hresume
        obtain ⟨t, ht, hstarts⟩ := startsCode_executePrepared context (r := r)
          (h := (h'.newFunction ⟨g, [(Script.environmentName, h.cells.size)], chunk⟩).2)
          (w := w.modifyRuntime runtime fun rt =>
            { rt with compilations := rt.compilations + 1 }) hlevel
          hv hx (x := .compiled (.function h'.functions.size)) fun _ _ h => by cases h
        exact ⟨t, ht ▸ hresume, hstarts.1, hstarts.2.1.trans htables, hstarts.2.2.trans hobjects⟩
      · exact ⟨_, .refl _, .compiles rfl rfl hf hmore, htables, hobjects⟩

end Code

/-! ## A context for a call -/

/-- Whether a context on a heap is one for a call in a scene: it is empty, nobody has it, and no other
    table has changed. -/
structure IsForCall (context : Nat) (s : Scene) (h : BridgeHeap) : Prop where
  hasContext : Render.HasContext context h
  empty : ∀ key, (h.table context).getText key = .nil
  free : context ∉ s.loans.map Loan.context
  others : ∀ ref < s.heap.tables.size, ref ≠ context → h.table ref = s.heap.table ref

/-- A context that is made is one for a call. -/
theorem isForCall_withContext {runtime : Nat} {L : List Loan}
    (happart : Scene.IsApart runtime ⟨L, h, w⟩) :
    IsForCall h.tables.size ⟨L, h, w⟩ (withContext (withContextCode h)) := by
  have htable := Expansion.table_withContext (withContextCode h)
  have hentries : ((withContext (withContextCode h)).table h.tables.size).entries = [] :=
    congrArg Script.Table.entries htable
  refine ⟨⟨(Expansion.findsGlobals_withContext (withContextCode h)).lt, ?_⟩, fun key => ?_,
    fun hmem => ?_, fun ref hlt hne => ?_⟩
  · rw [hentries]
    exact .nil
  · rw [Script.Table.getText, hentries]
    rfl
  · exact Nat.lt_irrefl _ (happart.lt _ (List.mem_append_left _ hmem))
  · exact (Expansion.keeps_withContext (withContextCode h)).tables ref hlt List.not_mem_nil

/-- An empty context that is idle is one for a call. -/
theorem isForCall_idle {runtime i context : Nat} {rest : List Nat} {e : Engine} {L : List Loan}
    (happart : Scene.IsApart runtime ⟨L, h, w⟩) (hd : h.IsDistinct)
    (he : w.engines[i]? = some e) (hr : e.runtime = runtime)
    (hidle : e.pool.idle = context :: rest) (hempty : h.contextIsEmpty context = true) :
    IsForCall context ⟨L, h, w⟩ h := by
  have hmem : context ∈ w.idle runtime := by
    refine List.mem_flatMap.2 ⟨e, List.mem_of_getElem? (i := i) (by simpa using he), ?_⟩
    rw [Engine.idleOn, if_pos hr, hidle]
    exact List.mem_cons_self
  refine ⟨⟨happart.lt _ (List.mem_append_right _ hmem), hd context⟩,
    fun key => Script.Table.getText_of_isEmpty (hd context) hempty, fun hloan => ?_,
    fun ref _ _ => rfl⟩
  exact (List.nodup_append.1 happart.nodup).2.2 context hloan context hmem rfl

/-- Whether a render can get a context and its code can be called: there is room for calls, and what
    has to be read can be read. -/
structure HasRoom (s : RenderState) (e : Engine) (v : View) : Prop where
  level : s.level + 1 < Script.maxLevel
  depth : s.depth < Script.maxDepth
  context : e.pool.idle = [] → ∃ f, Script.readProgram s.level Script.contextSource = .ok f
  code : v.IsReadable s.level e.config.compile

/-- A render that finds no idle context has one made. -/
theorem reaches_runIn_made {s : RenderState} {r : Request} {e : Engine} {v : View}
    (hlevel : s.level + 1 < Script.maxLevel) (hdepth : s.depth < Script.maxDepth)
    (hread : h.readChunk s.level (utf8 "=context") Script.contextSource (.table h.globals)
      = .ok (.function h.functions.size, withContextCode h))
    (hm : FindsMaker h) (hidle : e.pool.idle = []) (he : w.engines[r.engine]? = some e)
    (hv : w.views[r.view]? = some v) :
    Reaches Render.host (s.turn (Render.acquire s.level r e v h w))
      (s.turn (Render.runIn s.level r h.tables.size e.config.compile v
        (withContext (withContextCode h)) w)) := by
  have hresume : Render.resume (.acquiring r) (.ok [.table h.tables.size]) s.level
      (withContext (withContextCode h)) w
      = Render.runIn s.level r h.tables.size e.config.compile v
        (withContext (withContextCode h)) w := by
    simp only [Render.resume, Render.acquired, Script.firstValue, List.headD_cons, he, hv]
  unfold Render.acquire Pool.take?
  simp only [hidle, hread, RenderState.turn_call hlevel]
  rw [← hresume]
  exact (Expansion.calmly_contextCode hm hdepth _ none).reaches.trans
    (RenderState.reaches_resume _ w)

/-- A render gets a context. -/
theorem reaches_runIn {s : RenderState} {r : Request} {e : Engine} {v : View} {runtime : Nat}
    (hroom : HasRoom s e v) (he : w.engines[r.engine]? = some e) (hr : e.runtime = runtime)
    (hv : w.views[r.view]? = some v)
    (happart : Scene.IsApart runtime ⟨loansOn s.stack, h, w⟩) (hd : h.IsDistinct)
    (hempty : ∀ context ∈ e.pool.idle.head?, h.contextIsEmpty context = true)
    (hmaker : StartsMaking (s.turn (Render.acquire s.level r e v h w)) →
      FindsMaker (s.turn (Render.acquire s.level r e v h w)).heap) :
    ∃ context h₁ w₁, IsForCall context ⟨loansOn s.stack, h, w⟩ h₁ ∧ w₁.views = w.views
      ∧ Reaches Render.host (s.turn (Render.acquire s.level r e v h w))
        (s.turn (Render.runIn s.level r context e.config.compile v h₁ w₁)) := by
  cases hidle : e.pool.idle with
  | cons context rest =>
    rw [hidle] at hempty
    have htaken : Render.acquire s.level r e v h w = Render.runIn s.level r context e.config.compile v
        h (w.modifyEngine r.engine fun e₀ => { e₀ with pool := { e.pool with idle := rest } }) := by
      simp only [Render.acquire, Pool.take?, hidle]
    rw [htaken]
    refine ⟨context, h, _, isForCall_idle happart hd he hr hidle (hempty context rfl), ?_, .refl _⟩
    rfl
  | nil =>
    obtain ⟨f, hf⟩ := hroom.context hidle
    obtain ⟨c, h₁, hread⟩ : ∃ c h₁, h.readChunk s.level (utf8 "=context") Script.contextSource
        (.table h.globals) = .ok (c, h₁) := by
      rw [Script.Heap.readChunk, hf]
      exact ⟨_, _, rfl⟩
    obtain ⟨rfl, rfl⟩ := Expansion.eq_of_readChunk_contextSource hread
    have hm : FindsMaker (withContextCode h) := by
      unfold Render.acquire Pool.take? at hmaker
      simp only [hidle, hread, RenderState.turn_call hroom.level] at hmaker
      exact hmaker ⟨r, s.stack, _, rfl, rfl⟩
    have hfinds : FindsMaker h := ⟨hm.setmetatable, hm.self⟩
    exact ⟨h.tables.size, _, w, isForCall_withContext happart, rfl,
      reaches_runIn_made hroom.level hroom.depth hread hfinds hidle he hv⟩

end ScriptedViews

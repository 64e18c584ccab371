import ScriptedViews.Proofs.Render.Callees

set_option autoImplicit false

/-! # What a view that is called sees

When the code of a view that is called starts, its context has what the call gives under the names
that the view declares, or what the caller has, or the defaults; it has nothing else, it is nobody
else's, and the caller's variables are what they were. -/

namespace ScriptedViews

open Expansion (FindsMaker)
open Script (Bytes Value Frame State utf8 hostPart)

/-- What the attributes of a call have under a name. -/
def attributeOf (given : Option Script.Table) (name : String) : Value :=
  given.elim .nil fun t => t.getText (utf8 name)

/-- Whether a table has the variables of a view with some defaults: of what a call gives and a caller
    has, what counts under each name that is declared, and nothing else. -/
structure HasVariables (defaults : OrderedMap String String) (given : Option Script.Table)
    (own t : Script.Table) : Prop where
  /-- Where the call gives nothing it is the caller's variable of the name that counts, if no other
      key of the caller reads like the name. -/
  declared : ∀ name default, defaults.get? name = some default → ¬ Render.IsReserved name →
    (attributeOf given name = .nil → own.ReadsAsItself name) →
      t.getText (utf8 name)
        = Render.valueFor default (attributeOf given name) (own.getText (utf8 name))
  /-- If there are more keys like that, it is one of their variables that counts. -/
  inherited : ∀ name default, defaults.get? name = some default → ¬ Render.IsReserved name →
    attributeOf given name = .nil →
      Render.IsChosen default (own.Reads name) (t.getText (utf8 name))
  others : ∀ key, (∀ name, defaults.contains name = true ∨ Render.IsReserved name →
    key ≠ utf8 name) → t.getText key = .nil

section Merging

variable {h : BridgeHeap} {attributes : Option Nat}

/-- The variables of the caller and the attributes of a call are merged. -/
theorem exists_scope (own : Nat) (hd : h.IsDistinct)
    (hkeys : ∀ ref, attributes = some ref → ∀ e ∈ (h.table ref).toList, ∃ name, e.1 = .ofString name) :
    ∃ scope, Bridge.addAttributes (h.contextEntries own)
        (attributes.elim [] fun ref => (h.table ref).toList) = some scope
      ∧ ∀ name, Says scope name
        (merged (attributeOf (attributes.map h.table) name) ((h.table own).Reads name)) := by
  cases attributes with
  | none => exact ⟨_, rfl, fun name => says_contextEntries hd⟩
  | some ref =>
    have hkeys := hkeys ref rfl
    have htexts : ∀ e ∈ (h.table ref).toList, ∃ n, e.1 = .text n := fun e he => by
      obtain ⟨name, hname⟩ := hkeys e he
      exact ⟨utf8 name, hname⟩
    have hdistinct : Script.Table.AreDistinct (h.table ref).toList := by
      rw [Script.Table.toList_of_keys htexts]
      exact (hd ref).filter _
    have hvalues : ∀ e ∈ (h.table ref).toList, e.2 ≠ .nil := fun e he => by
      have hsome := (List.mem_filter.1 he).2
      rwa [Bool.not_eq_true', Script.Table.isNil_eq_false_iff] at hsome
    obtain ⟨scope, hadd, htold⟩ := exists_addAttributes hdistinct hkeys hvalues (h.contextEntries own)
    refine ⟨scope, hadd, fun name => ?_⟩
    have := htold name _ fun _ => says_contextEntries hd
    rwa [Script.Table.lookup_toList (hd ref) htexts] at this

/-- A context for a call gets the variables of the view. -/
theorem hasVariables_bindVariables {context : Nat} {s : Scene} {h₁ : BridgeHeap}
    {defaults : OrderedMap String String} {given : Option Script.Table} {own : Script.Table}
    {scope : List (String × Value)} (hc : IsForCall context s h₁)
    (hnodup : (defaults.map Prod.fst).Nodup)
    (htold : ∀ name, Says scope name (merged (attributeOf given name) (own.Reads name)))
    (children : Option String) (b : Bridge) :
    HasVariables defaults given own
      ((Render.bindVariables h₁ context defaults scope children b).table context) where
  declared name default hname hreserved hread :=
    (Render.getText_bindVariables_declared hc.hasContext hnodup hname hreserved
      (htold name)).eq_valueFor hread
  inherited name default hname hreserved hnone := by
    have hgiven := htold name
    rw [hnone] at hgiven
    exact Render.getText_bindVariables_declared hc.hasContext hnodup hname hreserved hgiven
  others key hkey := Render.getText_bindVariables_other hc.hasContext (hc.empty key) hkey

end Merging

/-! ## Calls that go through -/

/-- What is asked for when a view is called. -/
def ViewCall.request (c : ViewCall) (callee : Nat) (scope : List (String × Value)) : Request :=
  { engine := c.bridge.engine
    view := callee
    sink := c.bridge.sink
    depth := c.bridge.depth + 1
    attributes := scope
    children := c.content }

/-- Whether a running render calls a view whose code comes to run: the view is loaded, what the call
    gives has texts for names, the nesting is allowed, and there is an empty context and room for the
    code. -/
structure GoesThrough (s : RenderState) (c : ViewCall) (callee : Nat) (w : World) (e : Engine)
    (v : View) : Prop where
  call : s.viewCall? = some c
  runs : ⟨c.bridge.engine, c.bridge.context⟩ ∈ loansOn s.stack
  held : s.world.engines[c.bridge.engine]?.any Engine.isHeld = true
  loads : s.world.load c.bridge.engine (Bridge.target c.base c.tag) = .ok (callee, w)
  engine : w.engines[c.bridge.engine]? = some e
  view : w.views[callee]? = some v
  keys : ∀ ref, c.given = some ref →
    ∀ e ∈ (s.heap.table ref).toList, ∃ name, e.1 = .ofString name
  nesting : c.bridge.depth + 1 ≤ e.config.maxNestingDepth
  empty : ∀ context ∈ e.pool.idle.head?, s.heap.contextIsEmpty context = true
  room : HasRoom s e v

variable {s : RenderState} {c : ViewCall} {callee : Nat} {w : World} {e : Engine} {v : View}

/-- The step that makes the call acquires a context for the view. -/
theorem GoesThrough.step_eq (hg : GoesThrough s c callee w e v) (hown : v.engine = c.bridge.engine)
    {scope : List (String × Value)}
    (hscope : Bridge.addAttributes (s.heap.contextEntries c.bridge.context)
      (c.given.elim [] fun ref => (s.heap.table ref).toList) = some scope) :
    s.step Render.host = State.turn { s with stack := c.stack }
      (Render.acquire s.level (c.request callee scope) e v s.heap w) := by
  have hstart : Render.start s.level (c.request callee scope) s.heap w
      = Render.acquire s.level (c.request callee scope) e v s.heap w := by
    have hengine : w.engines[(c.request callee scope).engine]? = some e := hg.engine
    have hview : w.views[(c.request callee scope).view]? = some v := hg.view
    have hsame : v.engine = (c.request callee scope).engine := hown
    have hnesting : ¬ e.config.maxNestingDepth < (c.request callee scope).depth :=
      Nat.not_lt.2 hg.nesting
    simp only [Render.start, hengine, hview, hsame, ne_eq, not_true_eq_false, if_false, hnesting]
  have hcall : Render.callView s.level c.bridge c.base c.tag c.given c.content s.heap s.world
      = Render.start s.level (c.request callee scope) s.heap w := by
    simp only [Render.callView, hg.held, Bool.not_true, Bool.false_eq_true, if_false, hg.loads]
    cases hgiven : c.given with
    | none =>
      rw [hgiven, Option.elim_none] at hscope
      simp only [hscope]
      rfl
    | some ref =>
      rw [hgiven, Option.elim_some] at hscope
      simp only [hscope]
      rfl
  rw [(RenderState.viewCall?_spec hg.call).2, hcall, hstart]

/-- The code of a view that is called starts with the variables that the call and the caller tell. -/
theorem GoesThrough.reaches {runtime : Nat} (hg : GoesThrough s c callee w e v)
    (hproper : (sceneOf s).IsProper runtime) (happart : (sceneOf s).IsApart runtime)
    (hviews : s.world.HasOwnViews)
    (hmaker : StartsMaking (s.step Render.host) → FindsMaker (s.step Render.host).heap) :
    ∃ scope context t, Script.State.Reaches Render.host (s.step Render.host) t
      ∧ StartsCode (c.request callee scope) context c.stack t
      ∧ HasVariables v.defaults (c.given.map s.heap.table) (s.heap.table c.bridge.context)
        (t.heap.table context)
      ∧ context ∉ (loansOn s.stack).map Loan.context
      ∧ t.heap.table c.bridge.context = s.heap.table c.bridge.context := by
  obtain ⟨scope, hscope, htold⟩ := exists_scope c.bridge.context hproper.distinct hg.keys
  obtain ⟨hviews', v', hv', hown, -⟩ := hviews.load hg.loads
  cases hg.view.symm.trans hv'
  have hstep := hg.step_eq hown hscope
  have hloans : loansOn c.stack = loansOn s.stack :=
    loansOn_congr (RenderState.viewCall?_spec hg.call).1
  have hr : e.runtime = runtime :=
    ((hproper.loans _ hg.runs).load hg.loads).runtime_eq hg.engine
  have happart' : Scene.IsApart runtime ⟨loansOn c.stack, s.heap, w⟩ := by
    refine happart.congr ?_ (Nat.le_refl _)
    rw [Scene.contexts, Scene.contexts, World.idle_load hg.loads, hloans]
    rfl
  rw [hstep] at hmaker ⊢
  obtain ⟨context, h₁, w₁, hfor, hviews₁, hruns⟩ := reaches_runIn (s := { s with stack := c.stack })
    ⟨hg.room.level, hg.room.depth, hg.room.context, hg.room.code⟩ hg.engine hr hg.view happart'
    hproper.distinct hg.empty hmaker
  let bound : BridgeHeap := Render.bindVariables h₁ context v.defaults scope c.content
    ⟨c.bridge.engine, callee, context, c.bridge.sink, c.bridge.depth + 1⟩
  obtain ⟨t, hcode, hstarts, htables, -⟩ := reaches_startsCode context (s := { s with stack := c.stack })
    (r := c.request callee scope) (h := bound) (w := w₁) hg.room.level hg.room.depth
    (hviews₁ ▸ hg.view) hg.room.code
  have htable (ref : Nat) : t.heap.table ref = bound.table ref := congrArg (·.getD ref {}) htables
  have hmem : c.bridge.context ∈ (loansOn s.stack).map Loan.context :=
    List.mem_map.2 ⟨_, hg.runs, rfl⟩
  have hfree : context ∉ (loansOn s.stack).map Loan.context := hloans ▸ hfor.free
  have hne : c.bridge.context ≠ context := fun heq => hfree (heq ▸ hmem)
  refine ⟨scope, context, t, hruns.trans hcode, hstarts, ?_, hfree, ?_⟩
  · rw [htable]
    exact hasVariables_bindVariables hfor (hviews'.declared callee v hg.view) htold _ _
  · rw [htable, Render.table_bindVariables_ne hne]
    exact hfor.others _ (happart.lt _ (List.mem_append_left _ hmem)) hne

/-! ## Calls that are told to go through -/

/-- Tell whether the code that makes contexts finds what it needs. -/
def findsMaker (h : BridgeHeap) : Bool :=
  let globals := h.table h.globals
  (globals.getText (utf8 "setmetatable")).same (.builtin .setmetatable)
    && (globals.getText (utf8 "_G")).same (.table h.globals)

theorem findsMaker_of_true {h : BridgeHeap} (hm : findsMaker h = true) : FindsMaker h := by
  have hbuiltin (v : Value) (b : Script.Builtin) (hv : v.same (.builtin b) = true) :
      v = .builtin b := by
    cases v <;> simp_all [Value.same]
  have htable (v : Value) (ref : Nat) (hv : v.same (.table ref) = true) : v = .table ref := by
    cases v <;> simp_all [Value.same]
  obtain ⟨hset, hself⟩ := Bool.and_eq_true_iff.1 hm
  exact ⟨hbuiltin _ _ hset, htable _ _ hself⟩

theorem exists_of_isSome {ε α : Type} {x : Except ε α} (h : x.toOption.isSome = true) :
    ∃ a, x = .ok a := by
  cases x with
  | ok a => exact ⟨a, rfl⟩
  | error e => cases h

/-- Tell whether source can be read. -/
def isReadable (levels : Nat) (name : String) (source : Bytes) : Bool :=
  decide ('\x00' ∉ name.toList) && (Script.readProgram levels source).toOption.isSome

theorem isReadable_of_true {levels : Nat} {name : String} {source : Bytes}
    (h : isReadable levels name source = true) : IsReadable levels name source := by
  obtain ⟨hname, hread⟩ := Bool.and_eq_true_iff.1 h
  exact ⟨of_decide_eq_true hname, exists_of_isSome hread⟩

/-- Tell whether a call of a view whose code has not been prepared goes through, with attributes of
    some names, and what is so of it. -/
def goesThrough (names : List String) (p : RenderState → ViewCall → Nat → View → Bool)
    (s : RenderState) : Bool :=
  match s.viewCall? with
  | none => false
  | some c =>
    match s.world.load c.bridge.engine (Bridge.target c.base c.tag) with
    | .error _ => false
    | .ok (callee, w) =>
      match w.engines[c.bridge.engine]?, w.views[callee]? with
      | some e, some v =>
        decide (⟨c.bridge.engine, c.bridge.context⟩ ∈ loansOn s.stack)
          && s.world.engines[c.bridge.engine]?.any Engine.isHeld
          && c.given.all (fun ref => (s.heap.table ref).toList.all fun e =>
            names.any fun name => e.1.same (.ofString name))
          && decide (c.bridge.depth + 1 ≤ e.config.maxNestingDepth)
          && e.pool.idle.isEmpty
          && decide (s.level + 1 < Script.maxLevel) && decide (s.depth < Script.maxDepth)
          && (Script.readProgram s.level Script.contextSource).toOption.isSome
          && v.executable.isNone && e.config.compile
          && isReadable (s.level + 1) v.uri (Script.functionSource v.source)
          && p s c callee v
      | _, _ => false

theorem exists_goesThrough {names : List String} {p : RenderState → ViewCall → Nat → View → Bool}
    (h : goesThrough names p s = true) :
    ∃ c callee w e v, GoesThrough s c callee w e v ∧ p s c callee v = true := by
  unfold goesThrough at h
  split at h
  · cases h
  next c hcall =>
  split at h
  · cases h
  next callee w hload =>
  split at h
  · next e v he hv =>
    simp only [Bool.and_eq_true, decide_eq_true_eq, List.isEmpty_iff, Option.isNone_iff_eq_none,
      Option.all_eq_true, List.all_eq_true, List.any_eq_true] at h
    obtain ⟨⟨⟨⟨⟨⟨⟨⟨⟨⟨⟨hruns, hheld⟩, hkeys⟩, hnesting⟩, hidle⟩, hlevel⟩, hdepth⟩, hmakes⟩, hnone⟩,
      hcompile⟩, hreads⟩, hp⟩ := h
    refine ⟨c, callee, w, e, v, ⟨hcall, hruns, hheld, hload, he, hv, fun ref href e he => ?_, hnesting,
      ?_, hlevel, hdepth, fun _ => exists_of_isSome hmakes, ?_⟩, hp⟩
    · obtain ⟨name, -, hname⟩ := hkeys ref href e he
      exact ⟨name, Script.Table.same_text_iff.1 hname⟩
    · rw [hidle]
      intro _ h
      cases h
    · rw [View.IsReadable, hnone, hcompile]
      exact isReadable_of_true hreads
  · cases h

/-- Tell whether a call goes through some steps on, and the code that makes contexts finds what it
    needs up to then and one step on. -/
def goesThroughAfter (names : List String) (p : RenderState → ViewCall → Nat → View → Bool) :
    Nat → RenderState → Bool
  | 0, s => findsMaker s.heap && findsMaker (s.step Render.host).heap && goesThrough names p s
  | n + 1, s => findsMaker s.heap && goesThroughAfter names p n (s.step Render.host)

theorem of_goesThroughAfter {names : List String} {p : RenderState → ViewCall → Nat → View → Bool}
    {n : Nat} (h : goesThroughAfter names p n s = true) :
    (∀ m ≤ n + 1, FindsMaker (s.stepMany Render.host m).heap)
      ∧ goesThrough names p (s.stepMany Render.host n) = true := by
  induction n generalizing s with
  | zero =>
    rw [goesThroughAfter, Bool.and_eq_true, Bool.and_eq_true] at h
    obtain ⟨⟨hnow, hnext⟩, hgoes⟩ := h
    refine ⟨fun m hm => ?_, hgoes⟩
    obtain rfl | rfl : m = 0 ∨ m = 1 := by omega
    · exact findsMaker_of_true hnow
    · exact findsMaker_of_true hnext
  | succ n ih =>
    obtain ⟨hnow, hlater⟩ := Bool.and_eq_true_iff.1 h
    obtain ⟨hmaker, hgoes⟩ := ih hlater
    refine ⟨fun m hm => ?_, hgoes⟩
    cases m with
    | zero => exact findsMaker_of_true hnow
    | succ m => exact hmaker m (Nat.le_of_succ_le_succ hm)

/-! ## At any time of a render -/

/-- When the code of a view that is called starts, the variables that the view declares have the
    values that the call and the caller tell, and there are no others. The context is in nobody else's
    use, and the variables of the caller are what they were. This is so whatever calls have led there,
    if the library function that makes contexts has been found each time. -/
theorem World.Reached.handsOver {P : BridgeHeap → Prop} {w₀ : World} (hw : w₀.Reached P)
    (hP : ∀ h, P h → FindsMaker h) {engine : Nat} {e₀ : Engine}
    (he₀ : w₀.engines[engine]? = some e₀) (view sink : Nat) (attributes : List (String × Json))
    (children : Option String) (n : Nat)
    (hs : (w₀.rendering engine view sink attributes children).stepMany Render.host n = s)
    (hmaker : ∀ m ≤ n + 1,
      StartsMaking ((w₀.rendering engine view sink attributes children).stepMany Render.host m) →
        FindsMaker
          ((w₀.rendering engine view sink attributes children).stepMany Render.host m).heap)
    (hg : GoesThrough s c callee w e v) :
    ∃ scope context k, let t := s.stepMany Render.host (k + 1)
      StartsCode (c.request callee scope) context c.stack t
      ∧ HasVariables v.defaults (c.given.map s.heap.table) (s.heap.table c.bridge.context)
        (t.heap.table context)
      ∧ context ∉ (loansOn s.stack).map Loan.context
      ∧ t.heap.table c.bridge.context = s.heap.table c.bridge.context := by
  have hsettled := hw.settled
  obtain ⟨hgiven, hlt, happart⟩ := hsettled.given he₀ attributes
  have hstart := (happart (hw.apart hP)).at hlt
  have hunderway := hsettled.underwayApart he₀ view sink attributes children (hw.apart hP) n
    fun m hle => hmaker m (by omega)
  have hnext := hmaker (n + 1) (Nat.le_refl _)
  have hviews := hw.hasOwnViews.rendering hsettled he₀ view sink attributes children n
  rw [State.stepMany_add, hs] at hnext
  rw [hs] at hunderway hviews
  obtain ⟨scope, context, t, hreaches, hfacts⟩ := hg.reaches
    (Deeds.proper hunderway.deeds (hgiven.properAt hlt))
    (hunderway.apart (hgiven.properAt hlt) hstart) hviews hnext
  obtain ⟨k, rfl⟩ := State.exists_stepMany_of_reaches hreaches
  refine ⟨scope, context, k, ?_⟩
  rw [Nat.add_comm k 1, State.stepMany_add]
  exact hfacts

namespace World

/-- Some views, and a sink. -/
def withViews (views : ViewStore) : World :=
  { sources := { stores := #[views] }, sinks := #[{}] }

/-- The world of some views with an engine that keeps no contexts, where the page has been loaded. -/
def pageOf (views : ViewStore) : World :=
  let w := ((withViews views).createEngine 100 [] Expansion.memorySetup).2.2
  match w.load 0 "/page.xview" with
  | .ok (_, w) => w
  | .error _ => w

/-- Whatever the views, an engine for them is set up. -/
theorem reached_pageOf {P : BridgeHeap → Prop} (views : ViewStore) : (pageOf views).Reached P := by
  obtain ⟨r, hr⟩ : ∃ r, ((withViews views).createEngine 100 [] Expansion.memorySetup).1 = some r :=
    ⟨_, rfl⟩
  have hstart : (withViews views).Reached P := (Reached.start.sources _).sink {}
  have hw := hstart.createEngine (fun e he => absurd he List.not_mem_nil)
    (fun _ _ _ _ hlt => absurd hlt (Nat.lt_irrefl 0)) hr
  simp only [pageOf]
  split
  · next hl => exact hw.load hl
  · exact hw

/-- A page that gives a card a note, and has a title itself. -/
def cardViews : ViewStore :=
  [("/card.xview",
      "<x:view xmlns:x=\"xview\" x:title=\"D\" x:note=\"E\"><p/></x:view>".toUTF8),
   ("/page.xview",
      ("<x:view xmlns:x=\"xview\" xmlns:u=\"/\"><x:script>title = 'own'</x:script>"
        ++ "<u:card note=\"'given'\"/></x:view>").toUTF8)]

/-- Tell whether a call gives a card a note and leaves the title to a caller that has one. -/
def givesNote (s : RenderState) (c : ViewCall) (_ : Nat) (v : View) : Bool :=
  v.defaults.get? "title" == some "D" && v.defaults.get? "note" == some "E"
    && (attributeOf (c.given.map s.heap.table) "title").isNil
    && (attributeOf (c.given.map s.heap.table) "note").same (.ofString "given")
    && ((s.heap.table c.bridge.context).getText (utf8 "title")).same (.ofString "own")

/-- The card has the title of the page and the note that it is given. -/
theorem handsOver_card : ∃ c callee w e v scope context k,
    let s : RenderState := ((pageOf cardViews).rendering 0 0 0 [] none).stepMany Render.host 112
    let t := s.stepMany Render.host (k + 1)
    GoesThrough s c callee w e v ∧ StartsCode (c.request callee scope) context c.stack t
      ∧ (t.heap.table context).getText (utf8 "title") = .ofString "own"
      ∧ (t.heap.table context).getText (utf8 "note") = .ofString "given" := by
  have hcheck : ((pageOf cardViews).engines[0]?.isSome && goesThroughAfter ["note"] givesNote 112
      ((pageOf cardViews).rendering 0 0 0 [] none)) = true := by
    decide +kernel
  have hw : (pageOf cardViews).Reached FindsMaker := reached_pageOf cardViews
  generalize pageOf cardViews = w₀ at *
  obtain ⟨hengine, hafter⟩ := Bool.and_eq_true_iff.1 hcheck
  obtain ⟨e₀, he₀⟩ := Option.isSome_iff_exists.1 hengine
  obtain ⟨hmaker, hgoes⟩ := of_goesThroughAfter hafter
  obtain ⟨c, callee, w, e, v, hg, hgives⟩ := exists_goesThrough hgoes
  obtain ⟨scope, context, k, hstarts, hhas, -, -⟩ := World.Reached.handsOver hw (fun _ => id) he₀
    0 0 [] none 112 rfl (fun m hm _ => hmaker m hm) hg
  simp only [givesNote, Bool.and_eq_true, beq_iff_eq, Value.ofString, Script.Table.same_text_iff,
    Script.Table.isNil_iff] at hgives
  obtain ⟨⟨⟨⟨htitle, hnote⟩, hnone⟩, hgiven⟩, hown⟩ := hgives
  refine ⟨c, callee, w, e, v, scope, context, k, hg, hstarts, ?_, ?_⟩
  · rw [hhas.declared "title" "D" htitle (by decide) fun _ =>
      Script.Table.readsAsItself_of_not_mem _ (by decide), hnone, hown]
    exact if_pos (by decide +kernel)
  · rw [hhas.declared "note" "E" hnote (by decide) fun _ =>
      Script.Table.readsAsItself_of_not_mem _ (by decide), hgiven]
    exact if_pos (by decide +kernel)

/-- A card that declares an attribute named by the replacement character, and a page that calls it
    with a variable whose name is a byte that is no text. -/
def replacedViews : ViewStore :=
  [("/card.xview",
      "<x:view xmlns:x=\"xview\" x:\ufffd=\"d\"><p/></x:view>".toUTF8),
   ("/page.xview",
      ("<x:view xmlns:x=\"xview\" xmlns:u=\"/\"><x:script>_ENV['\\255'] = 'x'</x:script>"
        ++ "<u:card/></x:view>").toUTF8)]

/-- A page that takes its variables away and has new contexts be its own. -/
def sharedViews : ViewStore :=
  [("/card.xview", "<p/>".toUTF8),
   ("/page.xview",
      ("<x:view xmlns:x=\"xview\" xmlns:u=\"/\"><x:script>local xview, env = xview, _ENV  "
        ++ "env.xview = nil  _G.setmetatable = function() return env end</x:script>"
        ++ "<u:card/></x:view>").toUTF8)]

/-- Tell whether compiled code of a view starts, with a context. -/
def startsCompiled (view : Nat) (p : Nat → Bool) (s : RenderState) : Bool :=
  match s.stack, s.control with
  | .host (.running r context) :: _, .invoke _ [.table ref] none =>
    r.view == view && ref == context && p context
  | _, _ => false

theorem exists_startsCode {view : Nat} {p : Nat → Bool} {s : RenderState}
    (h : startsCompiled view p s = true) :
    ∃ r context K, r.view = view ∧ StartsCode r context K s ∧ p context = true := by
  unfold startsCompiled at h
  split at h
  · next r context K f ref hs hc =>
    simp only [Bool.and_eq_true, beq_iff_eq] at h
    obtain ⟨⟨hview, rfl⟩, hp⟩ := h
    have hcall : s.heap.callOf 0 (.compiled f) ref = .ok (f, [.table ref], s.heap) := rfl
    exact ⟨r, ref, K, hview, .runs hcall hs hc, hp⟩
  · cases h

/-- Tell whether a page that calls a card has no variable named by the replacement character, and the
    card has one as it starts. -/
def replaces (s : RenderState) (c : ViewCall) (callee : Nat) (v : View) : Bool :=
  let t := s.stepMany Render.host 30
  v.defaults.get? "\ufffd" == some "d"
    && (attributeOf (c.given.map s.heap.table) "\ufffd").isNil
    && ((s.heap.table c.bridge.context).getText (utf8 "\ufffd")).isNil
    && startsCompiled callee
      (fun context => ((t.heap.table context).getText (utf8 "\ufffd")).same (.ofString "x")) t

/-- Tell whether a page without variables calls a card that starts in the context of the page. -/
def shares (s : RenderState) (c : ViewCall) (callee : Nat) (_ : View) : Bool :=
  s.heap.contextIsEmpty c.bridge.context
    && startsCompiled callee (· == c.bridge.context) (s.stepMany Render.host 33)

/-- The variable of the page counts for the name that it reads like, and code that takes the place of
    `setmetatable` can have the view that is called run in the context of its caller. -/
theorem handsOver_replacement :
    (∃ c callee w e v,
      let s : RenderState := ((pageOf replacedViews).rendering 0 0 0 [] none).stepMany Render.host 80
      let t := s.stepMany Render.host 30
      GoesThrough s c callee w e v ∧ v.defaults.get? "\ufffd" = some "d"
        ∧ attributeOf (c.given.map s.heap.table) "\ufffd" = .nil
        ∧ (s.heap.table c.bridge.context).getText (utf8 "\ufffd") = .nil
        ∧ ∃ r context K, r.view = callee ∧ StartsCode r context K t
          ∧ (t.heap.table context).getText (utf8 "\ufffd") = .ofString "x")
    ∧ ∃ c callee w e v,
      let s : RenderState := ((pageOf sharedViews).rendering 0 0 0 [] none).stepMany Render.host 106
      let t := s.stepMany Render.host 33
      GoesThrough s c callee w e v ∧ s.heap.contextIsEmpty c.bridge.context = true
        ∧ ∃ r K, r.view = callee ∧ StartsCode r c.bridge.context K t := by
  constructor
  · have hgoes : goesThrough [] replaces
        (((pageOf replacedViews).rendering 0 0 0 [] none).stepMany Render.host 80) = true := by
      decide +kernel
    generalize ((pageOf replacedViews).rendering 0 0 0 [] none).stepMany Render.host 80 = s at *
    obtain ⟨c, callee, w, e, v, hg, hreplaces⟩ := exists_goesThrough hgoes
    simp only [replaces, Bool.and_eq_true, beq_iff_eq, Script.Table.isNil_iff] at hreplaces
    obtain ⟨⟨⟨hdefault, hnone⟩, hown⟩, hstarts⟩ := hreplaces
    obtain ⟨r, context, K, hr, hstarts, hx⟩ := exists_startsCode hstarts
    exact ⟨c, callee, w, e, v, hg, hdefault, hnone, hown, r, context, K, hr, hstarts,
      Script.Table.same_text_iff.1 hx⟩
  · have hgoes : goesThrough [] shares
        (((pageOf sharedViews).rendering 0 0 0 [] none).stepMany Render.host 106) = true := by
      decide +kernel
    generalize ((pageOf sharedViews).rendering 0 0 0 [] none).stepMany Render.host 106 = s at *
    obtain ⟨c, callee, w, e, v, hg, hshares⟩ := exists_goesThrough hgoes
    obtain ⟨hempty, hstarts⟩ := Bool.and_eq_true_iff.1 hshares
    obtain ⟨r, context, K, hr, hstarts, hx⟩ := exists_startsCode hstarts
    obtain rfl := beq_iff_eq.1 hx
    exact ⟨c, callee, w, e, v, hg, hempty, r, K, hr, hstarts⟩

end World

end ScriptedViews

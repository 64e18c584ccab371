import ScriptedViews.Proofs.Render.Serving

set_option autoImplicit false

/-! # Rendering is macro expansion

An engine that is set up in an empty world is ready for renders: its contexts have been made, and the
library is in its place. So whatever the settings, what it writes for requests is what their views
stand for. -/

namespace ScriptedViews.Expansion

open Script (Bytes Value Heap utf8 ascii environmentName)
open Script.State
open Code (HasExpression)

/-! ## The heap at the start -/

theorem ground_start : Ground [] (Heap.start : BridgeHeap) where
  load := rfl
  assert := rfl
  tostring := rfl
  setmetatable := rfl
  self := rfl
  content := rfl
  metatable := rfl
  texts := rfl
  textsMetatable := rfl
  textsSize := by decide
  nodup := .nil
  entries := fun _ hc => absurd hc List.not_mem_nil
  findsGlobals := fun _ hc => absurd hc List.not_mem_nil

/-! ## Contexts that are made at once -/

variable {idle : List Nat} {h : BridgeHeap} {w : World} {runtime : Nat}

theorem Ground.append {context : Nat} (hg : Ground idle h) (hfinds : FindsGlobals h context)
    (hentries : (h.table context).entries = []) (hnot : context ∉ idle) :
    Ground (idle ++ [context]) h :=
  { hg with
    nodup := List.nodup_append.2 ⟨hg.nodup, List.nodup_cons.2 ⟨List.not_mem_nil, .nil⟩, by
      intro c hc d hd heq
      rw [List.mem_singleton.1 hd] at heq
      exact hnot (heq ▸ hc)⟩
    entries := by
      intro c hc
      rcases List.mem_append.1 hc with hold | hnew
      · exact hg.entries c hold
      · rwa [List.mem_singleton.1 hnew]
    findsGlobals := by
      intro c hc
      rcases List.mem_append.1 hc with hold | hnew
      · exact hg.findsGlobals c hold
      · rwa [List.mem_singleton.1 hnew] }

/-- A context is made, and nothing changes but the heap. -/
theorem newContext_of_findsMaker (hm : FindsMaker (w.heapOf runtime)) :
    ∃ n, ∀ fuel, n ≤ fuel → w.newContext fuel runtime
      = (some (.ok (w.heapOf runtime).tables.size), w.modifyRuntime runtime fun rt =>
        { rt with heap := withContext (withContextCode (w.heapOf runtime)) }) := by
  let h := w.heapOf runtime
  let w₀ : World := w.modifyRuntime runtime fun rt => { rt with heap := {} }
  have hgives : Gives 0 0 (World.contextTurn h w₀) (withContext (withContextCode h)) w₀
      [.table h.tables.size] := by
    rw [World.contextTurn, readChunk_contextSource (Nat.zero_le _)]
    exact gives_call (by decide) (invokes_contextCode hm (show 0 < Script.maxDepth by decide) 1)
      (gives_answer _)
  obtain ⟨n, hn⟩ := perform_of_gives World.contextTurn hgives
  refine ⟨n, fun fuel hfuel => ?_⟩
  simp only [World.newContext, hn fuel hfuel, w₀, modifyRuntime_modifyRuntime]
  rfl

/-- A context is made, and the library stays in its place. -/
theorem newContext_of_ground (hg : Ground idle (w.heapOf runtime))
    (hruntime : runtime < w.runtimes.size) :
    ∃ n runtimes, (∀ fuel, n ≤ fuel → w.newContext fuel runtime
        = (some (.ok (w.heapOf runtime).tables.size), { w with runtimes }))
      ∧ runtime < runtimes.size
      ∧ World.heapOf { w with runtimes } runtime = withContext (withContextCode (w.heapOf runtime))
      ∧ Ground (idle ++ [(w.heapOf runtime).tables.size])
        (World.heapOf { w with runtimes } runtime) := by
  let h := w.heapOf runtime
  obtain ⟨n, hn⟩ := newContext_of_findsMaker hg.findsMaker
  have hnot : h.tables.size ∉ idle := fun hmem =>
    Nat.lt_irrefl _ (hg.findsGlobals _ hmem).lt
  have hheap := heapOf_modifyRuntime hruntime (withContext (withContextCode h))
  refine ⟨n, _, hn, by rwa [Array.size_modify], hheap, ?_⟩
  have hkeeps : Heap.Keeps [] h (withContext (withContextCode h)) :=
    (keeps_withContextCode h).trans (by simp) (keeps_withContext (withContextCode h))
  have hground := (hg.keeps_all hkeeps).append (findsGlobals_withContext (withContextCode h))
    (congrArg Script.Table.entries (table_withContext (withContextCode h))) hnot
  rwa [← hheap] at hground

/-- So are many contexts. -/
theorem makeMany_of_ground (count : Nat) (hg : Ground idle (w.heapOf runtime))
    (hruntime : runtime < w.runtimes.size) :
    ∃ n contexts runtimes, (∀ fuel, n ≤ fuel →
        Pool.makeMany (World.contextKind fuel runtime) count w = (.ok contexts, { w with runtimes }))
      ∧ runtime < runtimes.size
      ∧ (contexts, World.heapOf { w with runtimes } runtime) = withContexts count (w.heapOf runtime)
      ∧ Ground (idle ++ contexts) (World.heapOf { w with runtimes } runtime) := by
  induction count generalizing idle w with
  | zero =>
    refine ⟨0, [], w.runtimes, fun fuel _ => rfl, hruntime, rfl, ?_⟩
    rw [List.append_nil]
    exact hg
  | succ count ih =>
    obtain ⟨n, runtimes, hnew, hsize, hheap, hg₁⟩ := newContext_of_ground hg hruntime
    obtain ⟨m, contexts, runtimes', hmany, hsize', hheap', hg₂⟩ := ih hg₁ hsize
    refine ⟨max n m, (w.heapOf runtime).tables.size :: contexts, runtimes', fun fuel hfuel => ?_,
      hsize', ?_, ?_⟩
    · have hmake : (World.contextKind fuel runtime).make w
          = (.ok (w.heapOf runtime).tables.size, { w with runtimes }) := by
        simp only [World.contextKind, hnew fuel (by omega)]
      simp only [Pool.makeMany, hmake, hmany fuel (by omega)]
    · rw [hheap] at hheap'
      simp only [withContexts, ← hheap']
    · rwa [List.append_assoc, List.singleton_append] at hg₂

/-! ## Engines -/

/-- The views that an engine with some setup reads. -/
def storeOf (sources : Sources) (s : Setup) (loader : Loader) : Store := fun uri =>
  let e : Engine :=
    { config := s.config, loader, validator := s.validator, pool := ⟨0, []⟩, runtime := 0 }
  (World.readView { sources } 0 e uri).toOption

/-- Of the settings, only those for the validator matter to what is read. -/
theorem storeOf_congr {s s' : Setup} {sources : Sources} {loader : Loader}
    (hvalidator : s.validator = s'.validator)
    (hvalidates : s.validator.isSome = true → s.config.validateSchema = s'.config.validateSchema) :
    storeOf sources s loader = storeOf sources s' loader := by
  funext uri
  simp only [storeOf, World.readView, World.validate, ← hvalidator]
  cases hv : s.validator with
  | none => rfl
  | some validator =>
    rw [hvalidates (by rw [hv]; rfl)]

/-- A language that is supported goes by a name that is supported. -/
theorem supports_languageId {language : String} (h : Runtime.supports language = true) :
    Runtime.supports (Runtime.languageId language) = true := by
  unfold Runtime.supports at h
  have hmem : Runtime.languageId language ∈ Runtime.languages := List.contains_iff_mem.1 h
  generalize Runtime.languageId language = id at hmem
  simp only [Runtime.languages, List.mem_cons, List.not_mem_nil, or_false] at hmem
  rcases hmem with rfl | rfl | rfl <;> decide

/-- An engine that is set up in a world without engines is the only one there, and has new contexts. -/
theorem createEngine_eq (sources : Sources) (sinks : Array Sink) {s : Setup} {loader : Loader}
    (hloader : s.loader = some loader) (hlanguage : Runtime.supports (Runtime.languageId s.config.language) = true) :
    ∃ n registry contexts runtimes,
      let base : Engine :=
        { config := s.config
          loader
          validator := s.validator
          pool := ⟨s.config.contextPoolCapacity, contexts⟩
          runtime := 0 }
      let w : World := { sources, sinks, runtimes, engines := #[base] }
      (∀ fuel, n ≤ fuel →
          World.createEngine fuel { sources, sinks } [] s = (some (.ok 0), registry, w))
        ∧ 0 < runtimes.size
        ∧ (contexts, w.heapOf 0) = withContexts s.config.contextPoolCapacity Heap.start
        ∧ Ground contexts (w.heapOf 0) := by
  let id := Runtime.languageId s.config.language
  let w₁ : World := { sources, sinks, runtimes := #[{ language := id }] }
  have hruntime : World.runtimeFor { sources, sinks } [] s.config.language
      = .ok (0, [(id, 0)], w₁) := by
    simp only [World.runtimeFor, OrderedMap.get?, List.lookup_nil, hlanguage,
      if_true]
    rfl
  have hg₁ : Ground [] (w₁.heapOf 0) := ground_start
  obtain ⟨n, contexts, runtimes, hmany, hsize, hheap, hg⟩ :=
    makeMany_of_ground s.config.contextPoolCapacity hg₁ Nat.zero_lt_one
  refine ⟨n, [(id, 0)], contexts, runtimes, fun fuel hfuel => ?_, hsize, hheap, hg⟩
  simp only [World.createEngine, hloader, hruntime, Pool.create, hmany fuel hfuel]
  rfl

/-- An engine that is set up in a world without engines serves the views that it reads. -/
theorem createEngine_serves (sources : Sources) (sinks : Array Sink) {s : Setup} {loader : Loader}
    (hloader : s.loader = some loader) (hlanguage : Runtime.supports s.config.language = true) :
    ∃ n registry base w, (∀ fuel, n ≤ fuel →
        World.createEngine fuel { sources, sinks } [] s = (some (.ok 0), registry, w))
      ∧ Serves (storeOf sources s loader) 0 base w ∧ base.config = s.config ∧ base.isHeld = true
      ∧ w.sinks = sinks := by
  obtain ⟨n, registry, contexts, runtimes, hcreate, hsize, -, hg⟩ :=
    createEngine_eq sources sinks hloader (supports_languageId hlanguage)
  let pool : Pool Nat := ⟨s.config.contextPoolCapacity, contexts⟩
  let base : Engine := { config := s.config, loader, validator := s.validator, pool, runtime := 0 }
  let w : World := { sources, sinks, runtimes, engines := #[base] }
  refine ⟨n, registry, base, w, hcreate, ?_, rfl, rfl, rfl⟩
  refine ⟨⟨[], pool, rfl, fun uri i hi => by simp [OrderedMap.get?] at hi⟩, fun i v hv => ?_,
    fun uri v hv => ?_, hsize, hg⟩
  · exact absurd hv (by simp [w])
  · have hread : (w.readView 0 base uri).toOption = some v := hv
    cases h : w.readView 0 base uri with
    | error e => simp [h, Except.toOption] at hread
    | ok v' =>
      rw [h] at hread
      exact congrArg Except.ok (Option.some.inj hread)

/-- The views of a store in memory are plain if each of its entries is. -/
theorem isPlain_of_memory {views : ViewStore} {s : Setup}
    (h : views.all (fun e => (storeOf { stores := #[views] } s (.memory 0) e.1).all
      fun v => decide (IsPlain v)) = true) (uri : String) (v : View)
    (hv : storeOf { stores := #[views] } s (.memory 0) uri = some v) : IsPlain v := by
  have hmem : ∃ e ∈ views, e.1 = uri := by
    cases hget : views.get? uri with
    | some data =>
      obtain ⟨before, after, hviews, -⟩ := List.lookup_eq_some_iff.1 hget
      exact ⟨(uri, data), by rw [hviews]; simp, rfl⟩
    | none =>
      have hload : Loader.load { stores := #[views] } uri (.memory 0) = .error (.notFound uri) := by
        rw [Loader.load, Loader.loadMemory]
        simp only [List.getElem?_toArray, List.getElem?_cons_zero, Option.bind_some, hget]
      simp only [storeOf, World.readView, hload] at hv
      cases hv
  obtain ⟨e, hmem, rfl⟩ := hmem
  have hplain := List.all_eq_true.1 h e hmem
  rw [hv] at hplain
  exact of_decide_eq_true hplain

/-- Serve requests with an engine that is set up in an empty world, and give what is written. -/
def served (fuel : Nat) (sources : Sources) (s : Setup) (requests : List Asked) :
    Performed ViewError Bytes :=
  match World.createEngine fuel { sources, sinks := #[{}] } [] s with
  | (some (.ok engine), _, w) =>
    match serve fuel engine 0 requests w with
    | (some (.ok ()), w) => some (.ok ((w.sinks[0]?.map Sink.bytes).getD []))
    | (some (.error e), _) => some (.error e)
    | (none, _) => none
  | (some (.error e), _, _) => some (.error e)
  | (none, _, _) => none

/-- Rendering is macro expansion: whatever the settings, an engine whose views are plain writes for
    requests, one after the other, what their views stand for. -/
theorem served_eq_expand {sources : Sources} {s : Setup} {loader : Loader}
    {requests : List Asked} {texts : List String} (hloader : s.loader = some loader)
    (hlanguage : Runtime.supports s.config.language = true)
    (hplain : ∀ uri v, storeOf sources s loader uri = some v → IsPlain v)
    (htexts : expandAsked (storeOf sources s loader) (min s.config.maxNestingDepth maxCallDepth)
      requests = some texts) :
    ∃ n, ∀ fuel, n ≤ fuel → served fuel sources s requests = some (.ok (texts.flatMap utf8)) := by
  obtain ⟨n, registry, base, w, hcreate, hw, hconfig, hheld, hsinks⟩ :=
    createEngine_serves sources #[{}] hloader hlanguage
  have hnests : Nests (storeOf sources s loader) base
      (min s.config.maxNestingDepth maxCallDepth) :=
    ⟨hheld, hplain, by rw [hconfig]; exact Nat.min_le_left _ _, Nat.min_le_right _ _⟩
  have hs : Holds w 0 [] := ⟨{}, by rw [hsinks]; rfl, rfl, rfl⟩
  obtain ⟨m, w₁, hserve, -, hs₁⟩ := hw.serve hnests hs htexts
  refine ⟨max n m, fun fuel hfuel => ?_⟩
  obtain ⟨sink, hsink, -, hbytes⟩ := hs₁
  simp only [served, hcreate fuel (by omega), hserve fuel (by omega), hsink, Option.map_some,
    Option.getD_some, hbytes, List.nil_append]

/-- A page of one view that calls another one, with a text for content. -/
def boxedViews : ViewStore :=
  [("/box.xview",
      "<x:view xmlns:x=\"xview\"><p><x:process_child_nodes/></p></x:view>".toUTF8),
   ("/page.xview", "<x:view xmlns:x=\"xview\" xmlns:b=\"/\">a<b:box>b</b:box></x:view>".toUTF8)]

/-- The views are plain, whatever the settings, unless a validator refuses them. -/
theorem isPlain_boxedViews {s : Setup} (hvalidator : s.validator = none) (uri : String) (v : View)
    (hv : storeOf { stores := #[boxedViews] } s (.memory 0) uri = some v) : IsPlain v := by
  have hplain : ∀ uri v, storeOf { stores := #[boxedViews] } {} (.memory 0) uri = some v → IsPlain v :=
    isPlain_of_memory (by decide +kernel)
  have hread : storeOf { stores := #[boxedViews] } s (.memory 0)
      = storeOf { stores := #[boxedViews] } {} (.memory 0) :=
    storeOf_congr hvalidator fun h => by rw [hvalidator] at h; cases h
  exact hplain uri v (hread ▸ hv)

theorem served_boxedViews :
    ∃ n, ∀ fuel, n ≤ fuel →
      served fuel { stores := #[boxedViews] } { loader := some (.memory 0) }
        [("/page.xview", []), ("/box.xview", [])]
          = some (.ok (["a<p>b</p>", "<p></p>"].flatMap utf8)) :=
  served_eq_expand rfl (by decide) (isPlain_boxedViews rfl) (by decide +kernel)

/-- A setup that keeps no contexts. -/
def memorySetup : Setup :=
  { loader := some (.memory 0), config := { contextPoolCapacity := 0 } }

/-- Minifying takes carriage returns out of a text, which may make an expression of it, and code
    cannot have a name with a zero character in it. -/
theorem served_ne_expand :
    let returns : ViewStore := [("/page.xview", "<p>$&#13;\x7b1\x7d</p>".toUTF8)]
    let zero : ViewStore := [("/\x00.xview", "<p/>".toUTF8)]
    ¬ HasExpression "$\x0d\x7b1\x7d".toList
      ∧ expandAsked (storeOf { stores := #[returns] } memorySetup (.memory 0)) 32
        [("/page.xview", [])] = some ["<p>$\x7b1\x7d</p>"]
      ∧ (served 100 { stores := #[returns] } memorySetup [("/page.xview", [])]).map Except.toOption
        = some (some (utf8 "<p>1</p>"))
      ∧ expandAsked (storeOf { stores := #[zero] } memorySetup (.memory 0)) 32
        [("/\x00.xview", [])] = some ["<p/>"]
      ∧ (served 100 { stores := #[zero] } memorySetup [("/\x00.xview", [])]).map Except.toOption
        = some none := by
  decide +kernel

end ScriptedViews.Expansion

import ScriptedViews.Proofs.Code.Reading
import ScriptedViews.Proofs.Script.Keeping
import ScriptedViews.Proofs.Script.Reaches
import ScriptedViews.Proofs.Script.Table
import ScriptedViews.Render.Rendering

set_option autoImplicit false

/-! # Readiness for renders

What a render of a plain view finds and what it leaves: the library in its place, idle contexts that
are empty, views that are those of the store with their code as it was made from them, and contexts
in use that nobody else touches. A render only ever changes idle contexts and what is new. -/

namespace ScriptedViews.Expansion

open Script (Bytes Value Heap ascii utf8 environmentName)
open Code (Directive nodeDirectives bridgeName contentName)

/-! ## Tables -/

/-- Whether a table finds what it lacks among the global variables. -/
def FindsGlobals (h : BridgeHeap) (context : Nat) : Prop :=
  ∃ m, (h.table context).metatable = some m
    ∧ (h.table m).getText (ascii "__index") = .table h.globals ∧ (h.table m).metatable = none

/-- What code of plain views needs of the library, and the idle contexts. -/
structure Ground (idle : List Nat) (h : BridgeHeap) : Prop where
  load : (h.table h.globals).getText (utf8 "load") = .builtin .load
  assert : (h.table h.globals).getText (utf8 "assert") = .builtin .assert
  tostring : (h.table h.globals).getText (utf8 "tostring") = .builtin .tostring
  setmetatable : (h.table h.globals).getText (utf8 "setmetatable") = .builtin .setmetatable
  self : (h.table h.globals).getText (utf8 "_G") = .table h.globals
  content : (h.table h.globals).getText contentName = .nil
  metatable : (h.table h.globals).metatable = none
  texts : (h.table h.textMetatable).getText (ascii "__tostring") = .nil
  textsMetatable : (h.table h.textMetatable).metatable = none
  textsSize : h.textMetatable < h.tables.size
  nodup : idle.Nodup
  entries : ∀ c ∈ idle, (h.table c).entries = []
  findsGlobals : ∀ c ∈ idle, FindsGlobals h c

/-- A context that a render uses, with its bridge and the caller's content. -/
structure InUse (idle : List Nat) (h : BridgeHeap) (context : Nat) (b : Bridge) (content : Value) :
    Prop where
  notIdle : context ∉ idle
  findsGlobals : FindsGlobals h context
  bridge : ∃ o, (h.table context).getText bridgeName = .object o
    ∧ h.objects[o]? = some (.host b)
  content : (h.table context).getText contentName = content
  load : (h.table context).getText (utf8 "load") = .nil
  assert : (h.table context).getText (utf8 "assert") = .nil

variable {idle idle' : List Nat} {h h' : BridgeHeap}

theorem FindsGlobals.lt {context : Nat} (hc : FindsGlobals h context) :
    context < h.tables.size := by
  obtain ⟨m, hm, -⟩ := hc
  exact Heap.lt_of_metatable hm

/-- A table without a metatable is no context. -/
theorem Ground.not_mem {ref : Nat} (hg : Ground idle h) (hm : (h.table ref).metatable = none) :
    ref ∉ idle := by
  intro hmem
  obtain ⟨m, hc, -⟩ := hg.findsGlobals ref hmem
  rw [hm] at hc
  cases hc

theorem Ground.globals_lt (hg : Ground idle h) : h.globals < h.tables.size :=
  Heap.lt_of_getText (by rw [hg.load]; simp)

/-- Whether all of some tables have a metatable, which no table of the library has. -/
def HaveMetatables (h : BridgeHeap) (free : List Nat) : Prop :=
  ∀ ref ∈ free, (h.table ref).metatable ≠ none

theorem FindsGlobals.metatable {context : Nat} (hc : FindsGlobals h context) :
    (h.table context).metatable ≠ none := by
  obtain ⟨m, hm, -⟩ := hc
  simp [hm]

theorem Ground.haveMetatables (hg : Ground idle h) : HaveMetatables h idle :=
  fun c hc => (hg.findsGlobals c hc).metatable

/-- A table without a metatable is not among those that have one. -/
theorem table_of_keeps {free : List Nat} (hfree : HaveMetatables h free)
    (hk : Heap.Keeps free h h') {ref : Nat} (hlt : ref < h.tables.size)
    (hm : (h.table ref).metatable = none) : h'.table ref = h.table ref :=
  hk.tables ref hlt fun hmem => hfree ref hmem hm

theorem Ground.table_globals {free : List Nat} (hg : Ground idle h) (hfree : HaveMetatables h free)
    (hk : Heap.Keeps free h h') : h'.table h'.globals = h.table h.globals := by
  rw [hk.globals, table_of_keeps hfree hk hg.globals_lt hg.metatable]

theorem Ground.table_texts {free : List Nat} (hg : Ground idle h) (hfree : HaveMetatables h free)
    (hk : Heap.Keeps free h h') : h'.table h'.textMetatable = h.table h.textMetatable := by
  rw [hk.textMetatable, table_of_keeps hfree hk hg.textsSize hg.textsMetatable]

/-- A context that is kept, or keeps its metatable, goes on finding the global variables. -/
theorem FindsGlobals.keeps {context : Nat} {free : List Nat} (hc : FindsGlobals h context)
    (hfree : HaveMetatables h free) (hk : Heap.Keeps free h h')
    (hcontext : (h'.table context).metatable = (h.table context).metatable) :
    FindsGlobals h' context := by
  obtain ⟨m, hm, hindex, hmeta⟩ := hc
  have hmlt : m < h.tables.size := Heap.lt_of_getText (by rw [hindex]; simp)
  have hmtable := table_of_keeps hfree hk hmlt hmeta
  exact ⟨m, by rw [hcontext, hm], by rw [hmtable, hindex, hk.globals], by rw [hmtable, hmeta]⟩

/-- The library stays in its place. -/
theorem Ground.keeps {free : List Nat} (hg : Ground idle h) (hfree : HaveMetatables h free)
    (hk : Heap.Keeps free h h') (hnodup : idle'.Nodup)
    (hentries : ∀ c ∈ idle', (h'.table c).entries = [])
    (hfinds : ∀ c ∈ idle', FindsGlobals h' c) : Ground idle' h' where
  load := by rw [hg.table_globals hfree hk, hg.load]
  assert := by rw [hg.table_globals hfree hk, hg.assert]
  tostring := by rw [hg.table_globals hfree hk, hg.tostring]
  setmetatable := by rw [hg.table_globals hfree hk, hg.setmetatable]
  self := by rw [hg.table_globals hfree hk, hg.self, hk.globals]
  content := by rw [hg.table_globals hfree hk, hg.content]
  metatable := by rw [hg.table_globals hfree hk, hg.metatable]
  texts := by rw [hg.table_texts hfree hk, hg.texts]
  textsMetatable := by rw [hg.table_texts hfree hk, hg.textsMetatable]
  textsSize := by
    rw [hk.textMetatable]
    exact Nat.lt_of_lt_of_le hg.textsSize hk.tablesSize
  nodup := hnodup
  entries := hentries
  findsGlobals := hfinds

/-- The idle contexts stay ready if none of them is among the free tables. -/
theorem Ground.keeps_idle {free : List Nat} (hg : Ground idle h) (hfree : HaveMetatables h free)
    (hk : Heap.Keeps free h h') (hsub : ∀ c ∈ idle', c ∈ idle) (hnodup : idle'.Nodup)
    (hnot : ∀ c ∈ idle', c ∉ free) : Ground idle' h' := by
  have htable (c : Nat) (hc : c ∈ idle') : h'.table c = h.table c :=
    hk.tables c (hg.findsGlobals c (hsub c hc)).lt (hnot c hc)
  refine hg.keeps hfree hk hnodup (fun c hc => ?_) (fun c hc => ?_)
  · rw [htable c hc]
    exact hg.entries c (hsub c hc)
  · exact (hg.findsGlobals c (hsub c hc)).keeps hfree hk (by rw [htable c hc])

/-- A heap that keeps everything, idle contexts too, is as ready as before. -/
theorem Ground.keeps_all (hg : Ground idle h) (hk : Heap.Keeps [] h h') : Ground idle h' :=
  hg.keeps_idle (by simp [HaveMetatables]) hk (fun _ hc => hc) hg.nodup (by simp)

/-- A context in use stays as it is. -/
theorem InUse.keeps {context : Nat} {b : Bridge} {content : Value}
    (hu : InUse idle h context b content) (hg : Ground idle h) (hk : Heap.Keeps idle h h')
    (hidle : ∀ c ∈ idle', c ∈ idle ∨ h.tables.size ≤ c) : InUse idle' h' context b content := by
  have hlt := hu.findsGlobals.lt
  have htable := hk.tables _ hlt hu.notIdle
  refine ⟨?_, hu.findsGlobals.keeps hg.haveMetatables hk (by rw [htable]), ?_, ?_, ?_, ?_⟩
  · intro hmem
    rcases hidle context hmem with hold | hnew
    · exact hu.notIdle hold
    · omega
  · obtain ⟨o, ho, hb⟩ := hu.bridge
    exact ⟨o, by rw [htable, ho], hk.objects o _ hb⟩
  · rw [htable, hu.content]
  · rw [htable, hu.load]
  · rw [htable, hu.assert]

/-! ## Variables of a context -/

section Variables

variable {context : Nat} {b : Bridge} {content : Value}

theorem InUse.finds_bridge (hu : InUse idle h context b content) :
    ∃ o, h.Finds context bridgeName (.object o) ∧ h.objects[o]? = some (.host b) := by
  obtain ⟨o, ho, hb⟩ := hu.bridge
  exact ⟨o, .inl ⟨ho, by simp⟩, hb⟩

/-- What a context lacks is what the global variables have. -/
theorem FindsGlobals.finds (hc : FindsGlobals h context) (hg : Ground idle h) {n : Bytes} {v : Value}
    (hown : (h.table context).getText n = .nil) (hv : (h.table h.globals).getText n = v) :
    h.Finds context n v := by
  obtain ⟨m, hm, hindex, -⟩ := hc
  exact .inr ⟨hown, m, h.globals, hm, hindex, hv, fun _ => hg.metatable⟩

theorem InUse.finds_content (hu : InUse idle h context b content) (hg : Ground idle h) :
    h.Finds context contentName content := by
  by_cases hnil : content = .nil
  · have hown := hu.content
    rw [hnil] at hown ⊢
    exact hu.findsGlobals.finds hg hown hg.content
  · exact .inl ⟨hu.content, hnil⟩

theorem InUse.finds_load (hu : InUse idle h context b content) (hg : Ground idle h) :
    h.Finds context (utf8 "load") (.builtin .load) :=
  hu.findsGlobals.finds hg hu.load hg.load

theorem InUse.finds_assert (hu : InUse idle h context b content) (hg : Ground idle h) :
    h.Finds context (utf8 "assert") (.builtin .assert) :=
  hu.findsGlobals.finds hg hu.assert hg.assert

end Variables

/-! ## Worlds -/

/-- The idle contexts of an engine. -/
def idleOf (w : World) (engine : Nat) : List Nat :=
  match w.engines[engine]? with
  | some e => e.pool.idle
  | none => []

/-- The statements of a plain view. -/
def directivesOf (v : View) : List Directive :=
  Directive.joined "" (nodeDirectives v.namespaces v.uri v.root.toNode)

/-- Whether the code of a view as it runs, if it has been prepared, is that of the view. -/
def HasOwnCode (h : BridgeHeap) (v : View) : Prop :=
  match v.executable with
  | none => True
  | some (.interpreted name source) => name = v.uri ∧ source = v.source
  | some (.compiled f) => ∃ ref cell, f = .function ref
    ∧ h.functions[ref]? = some ⟨.mk [environmentName] false (Directive.stmts 1 (directivesOf v)),
      [(environmentName, cell)], Script.chunkTitle (ascii "@" ++ utf8 v.uri)⟩

/-- Whether a world is ready for renders of an engine that reads the views of a store, where `base`
    tells all of the engine but its cache and its idle contexts. -/
structure Ready (views : Store) (engine : Nat) (base : Engine) (h : BridgeHeap) (w : World) :
    Prop where
  present : ∃ cache pool, w.engines[engine]? = some { base with cache, pool }
    ∧ ∀ uri i, cache.get? uri = some i → ∃ v x, views uri = some v
      ∧ w.views[i]? = some { v with executable := x }
  made : ∀ (i : Nat) (v : View), w.views[i]? = some v →
    (∃ uri v₀ x, views uri = some v₀ ∧ v = { v₀ with executable := x }) ∧ HasOwnCode h v
  stored : ∀ uri v, views uri = some v → w.readView engine base uri = .ok v
  runs : base.runtime < w.runtimes.size
  ground : Ground (idleOf w engine) h

/-- Whether a sink is open and holds some bytes. -/
def Holds (w : World) (sink : Nat) (bytes : Bytes) : Prop :=
  ∃ s, w.sinks[sink]? = some s ∧ s.limit = none ∧ s.bytes = bytes

theorem Holds.unique {w : World} {sink : Nat} {bytes bytes' : Bytes} (hs : Holds w sink bytes)
    (hs' : Holds w sink bytes') : bytes = bytes' := by
  obtain ⟨s, hs, -, rfl⟩ := hs
  obtain ⟨s', hs', -, rfl⟩ := hs'
  rw [Option.some.inj (hs.symm.trans hs')]

theorem HasOwnCode.keeps {v : View} (hv : HasOwnCode h v)
    (hk : ∀ (ref : Nat) (c : Script.Closure), h.functions[ref]? = some c → h'.functions[ref]? = some c) :
    HasOwnCode h' v := by
  unfold HasOwnCode at *
  split
  · trivial
  · simp_all
  · rename_i f hx
    rw [hx] at hv
    obtain ⟨ref, cell, hf, hc⟩ := hv
    exact ⟨ref, cell, hf, hk ref _ hc⟩

/-- The heap may keep everything and grow. -/
theorem Ready.keeps {views : Store} {engine : Nat} {base : Engine} {w : World}
    (hr : Ready views engine base h w) (hk : Heap.Keeps [] h h') : Ready views engine base h' w where
  present := hr.present
  made i v hv := ⟨(hr.made i v hv).1, (hr.made i v hv).2.keeps hk.functions⟩
  stored := hr.stored
  runs := hr.runs
  ground := hr.ground.keeps_all hk

/-! ## What a render does -/

/-- Whether a ready world has become another one, with some text written to a sink and nothing
    changed that others use. -/
structure Extends (views : Store) (engine : Nat) (base : Engine) (sink : Nat) (text : String)
    (h : BridgeHeap) (w : World) (h' : BridgeHeap) (w' : World) : Prop where
  ready : Ready views engine base h' w'
  keeps : Heap.Keeps (idleOf w engine) h h'
  idle : ∀ c ∈ idleOf w' engine, c ∈ idleOf w engine ∨ h.tables.size ≤ c
  written : ∀ bytes, Holds w sink bytes → Holds w' sink (bytes ++ utf8 text)

section Effects

variable {views : Store} {engine : Nat} {base : Engine} {sink : Nat} {text text' : String}
  {h'' : BridgeHeap} {w w' w'' : World}

theorem Extends.trans (he : Extends views engine base sink text h w h' w')
    (he' : Extends views engine base sink text' h' w' h'' w'') :
    Extends views engine base sink (text ++ text') h w h'' w'' where
  ready := he'.ready
  keeps := he.keeps.trans he.idle he'.keeps
  idle c hc := by
    rcases he'.idle c hc with hold | hnew
    · exact he.idle c hold
    · exact .inr (Nat.le_trans he.keeps.tablesSize hnew)
  written bytes hs := by
    have := he'.written _ (he.written bytes hs)
    rwa [List.append_assoc, ← Script.utf8_append] at this

/-- An extension may follow one in which nothing is written. -/
theorem Extends.after (he : Extends views engine base sink "" h w h' w')
    (he' : Extends views engine base sink text h' w' h'' w'') :
    Extends views engine base sink text h w h'' w'' := by
  have := he.trans he'
  rwa [String.empty_append] at this

/-- A heap that only grows is an extension in which nothing is written. -/
theorem Extends.of_keeps (hr : Ready views engine base h w) (hk : Heap.Keeps [] h h') :
    Extends views engine base sink "" h w h' w where
  ready := hr.keeps hk
  keeps := { hk with tables := fun ref hlt _ => hk.tables ref hlt List.not_mem_nil }
  idle _ hc := .inl hc
  written bytes hs := by
    rw [show utf8 "" = [] by decide, List.append_nil]
    exact hs

theorem InUse.extends {context : Nat} {b : Bridge} {content : Value}
    (hu : InUse (idleOf w engine) h context b content) (hr : Ready views engine base h w)
    (he : Extends views engine base sink text h w h' w') :
    InUse (idleOf w' engine) h' context b content :=
  hu.keeps hr.ground he.keeps he.idle

theorem sees_of_keeps {scope : Script.Scope} {context : Nat} {free : List Nat}
    (hs : scope.Sees h context) (hk : Heap.Keeps free h h') : scope.Sees h' context := by
  obtain ⟨⟨cell, own, hfind, hcell⟩, hothers⟩ := hs
  exact ⟨⟨cell, own, hfind, by rw [hk.cells cell (Heap.lt_of_cell hcell (by simp)), hcell]⟩,
    hothers⟩

end Effects

end ScriptedViews.Expansion

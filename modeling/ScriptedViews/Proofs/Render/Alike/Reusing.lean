import ScriptedViews.Proofs.Render.Alike.Pooling
import ScriptedViews.Proofs.Render.Alike.Settings
import ScriptedViews.Proofs.Render.Callees

set_option autoImplicit false

/-! # Contexts that are used again

A context that has been given back is wiped, no more. It is as good as a new one if it still has the
metatable that it was made with, and nothing refers to either of them any more. If that holds for
every context that is given back by an engine that keeps none, an engine that keeps some goes about its
renders alike: what one of them makes, the other one may take out of its pool. -/

namespace ScriptedViews

open Expansion (FindsMaker contextMetatable withContext withContextCode)
open Script (Value Heap Matching Places State Frame utf8)
open Script.State (Follows Quiet Reaches)

variable {globals : Nat} {R : Matching} {w w' : World}

/-! ## Contexts as they are made -/

/-- Whether a context is as contexts are made, and so is its metatable. -/
structure Script.Heap.IsNewContext (h : BridgeHeap) (c m : Nat) : Prop where
  context : h.table c = { metatable := some m }
  metatable : h.table m = contextMetatable h.globals

theorem isNewContext_withContext (h : BridgeHeap) :
    (withContext h).IsNewContext h.tables.size (h.tables.size + 1) :=
  ⟨Expansion.table_withContext h, by
    rw [Expansion.metatable_withContext, (Expansion.keeps_withContext h).globals]⟩

/-- What is like an empty table is empty. -/
theorem Script.Table.Alike.eq_empty {x : Option Nat} {t : Script.Table}
    (h : Script.Table.Alike R { metatable := x } t) : t = { metatable := t.metatable } := by
  obtain ⟨items, entries, metatable⟩ := t
  obtain rfl : items = #[] := Array.toList_eq_nil_iff.1 (List.forall₂_nil_left_iff.1 h.items)
  obtain rfl : entries = [] := List.forall₂_nil_left_iff.1 h.entries
  rfl

/-- What is like the metatable of a context is one that finds the table that stands for that of the
    global variables. -/
theorem Script.Table.Alike.eq_contextMetatable {g : Nat} {t : Script.Table}
    (h : (contextMetatable g).Alike R t) : ∃ g', R.table g g' ∧ t = contextMetatable g' := by
  obtain ⟨items, entries, metatable⟩ := t
  obtain ⟨hitems, hentries, hmetatable⟩ := h
  obtain rfl : items = #[] := Array.toList_eq_nil_iff.1 (List.forall₂_nil_left_iff.1 hitems)
  dsimp only [contextMetatable] at hentries hmetatable
  cases hmetatable
  cases hentries with
  | @cons _ e' _ _ he hrest =>
    cases hrest
    obtain ⟨key, v⟩ := e'
    obtain ⟨hkey, hv⟩ := he
    cases hkey
    cases hv with
    | table hr => exact ⟨_, hr, rfl⟩

namespace Script.Heap.IsNewContext

variable {h h' : BridgeHeap} {c c' m : Nat}

theorem lt (hn : h.IsNewContext c m) : c < h.tables.size :=
  Heap.lt_of_metatable (m := m) (by rw [hn.context])

theorem metatable_lt (hn : h.IsNewContext c m) : m < h.tables.size :=
  Heap.lt_of_getText (n := utf8 "__index") (by rw [hn.metatable]; exact nofun)

theorem ne (hn : h.IsNewContext c m) : c ≠ m := by
  rintro rfl
  have hsame := hn.context.symm.trans hn.metatable
  cases hsame

theorem keeps (hn : h.IsNewContext c m) (hk : Heap.Keeps [] h h') : h'.IsNewContext c m :=
  ⟨(hk.tables c hn.lt List.not_mem_nil).trans hn.context, by
    rw [hk.tables m hn.metatable_lt List.not_mem_nil, hn.metatable, hk.globals]⟩

/-- What stands for such a context is one, too. -/
theorem alike {L : Script.Likeness Bridge World Pending} (hh : Heap.Alike L R h h')
    (ht : R.table c c') (hn : h.IsNewContext c m) :
    ∃ m', R.table m m' ∧ h'.IsNewContext c' m' := by
  have hcontext := hh.tables ht
  rw [hn.context] at hcontext
  have hempty := hcontext.eq_empty
  have hrel := hcontext.metatable
  generalize (h'.table c').metatable = x at hempty hrel
  cases hrel with
  | @some _ m' hr =>
    have hmetatable := hh.tables hr
    rw [hn.metatable] at hmetatable
    obtain ⟨g', hg', htable⟩ := hmetatable.eq_contextMetatable
    obtain rfl : h'.globals = g' := (hh.faithful.table hh.globals hg').1 rfl
    exact ⟨m', hr, hempty, htable⟩

/-- A context that is wiped after it has been given variables is as it was made. -/
theorem keeps_contextClear (hn : h.IsNewContext c m) (declared : OrderedMap String String)
    (attributes : List (String × Value)) (children : Option String) (b : Bridge) :
    Heap.Keeps [] h ((Render.bindVariables h c declared attributes children b).contextClear c) := by
  have hfree : ∀ {h' : BridgeHeap}, Heap.Keeps [c] h h' → ∀ f : Script.Table → Script.Table,
      Heap.Keeps [c] h (h'.modifyTable c f) := fun hkeeps f =>
    hkeeps.trans (fun _ hmem => .inl hmem)
      (Heap.keeps_modifyTable _ (List.mem_singleton.2 rfl) f)
  obtain ⟨hkeeps, hmetatable⟩ : Heap.Keeps [c] h
        (Render.bindVariables h c declared attributes children b)
      ∧ ((Render.bindVariables h c declared attributes children b).table c).metatable
        = (h.table c).metatable :=
    Render.bindVariables_induction
      (P := fun h' => Heap.Keeps [c] h h' ∧ (h'.table c).metatable = (h.table c).metatable)
      ⟨.refl _ h, rfl⟩
      (fun h' name v ⟨hkeeps, hmetatable⟩ => ⟨hfree hkeeps _, by
        rw [Expansion.table_contextSet (Nat.lt_of_lt_of_le hn.lt hkeeps.tablesSize),
          Script.Table.metatable_setText, hmetatable]⟩)
      fun h' o ⟨hkeeps, hmetatable⟩ =>
        ⟨hkeeps.trans (fun _ hmem => .inl hmem) (Heap.keeps_newObject [c] h' o), hmetatable⟩
  generalize Render.bindVariables h c declared attributes children b = h₁ at hkeeps hmetatable ⊢
  have hcleared : Heap.Keeps [c] h (h₁.contextClear c) := hfree hkeeps _
  -- what is in the context again is what was in it
  refine { hcleared with tables := fun ref hlt _ => ?_ }
  by_cases hne : ref = c
  · subst hne
    rw [Heap.contextClear,
      Heap.table_modifyTable_self (Nat.lt_of_lt_of_le hlt hkeeps.tablesSize), Script.Table.clear,
      hmetatable, hn.context]
  · exact hcleared.tables ref hlt (by simpa using hne)

end Script.Heap.IsNewContext

/-- The code that makes contexts finds what it needs on a heap that is alike. -/
theorem Expansion.FindsMaker.alike {L : Script.Likeness Bridge World Pending} {h h' : BridgeHeap}
    (hh : Heap.Alike L R h h') (hm : FindsMaker h) : FindsMaker h' := by
  have hget : ∀ name : String, ((h.table h.globals).getText (utf8 name)).Alike R
      ((h'.table h'.globals).getText (utf8 name)) :=
    fun name => (hh.tables hh.globals).getText hh.faithful _
  have hmaker := hget "setmetatable"
  have hself := hget "_G"
  rw [hm.setmetatable] at hmaker
  rw [hm.self] at hself
  generalize hv : (h'.table h'.globals).getText (utf8 "setmetatable") = v at hmaker
  generalize hu : (h'.table h'.globals).getText (utf8 "_G") = u at hself
  cases hmaker
  cases hself with
  | table hr =>
    obtain rfl := (hh.faithful.table hh.globals hr).1 rfl
    exact ⟨hv, hu⟩

/-! ## Contexts that are given back -/

/-- Whether nothing is known of a table of the second heap. -/
structure Script.Matching.IsFree (R : Matching) (b : Nat) : Prop where
  table : ∀ a, ¬ R.table a b
  aside : ∀ t, ¬ R.aside b t

/-- Places where no table of the second heap is are free. -/
theorem Script.Heap.Alike.isFree {L : Script.Likeness Bridge World Pending} {h h' : BridgeHeap}
    (hh : Heap.Alike L R h h') {b : Nat} (hb : h'.tables.size ≤ b) : R.IsFree b :=
  ⟨fun _ hr => Nat.not_lt.2 hb (hh.tables_lt hr).2, fun _ hr => Nat.not_lt.2 hb (hh.aside hr).1⟩

/-- A context that is as it was made is spare from now on if nothing is known of it. -/
theorem Script.Heap.Alike.withSpare {L : Script.Likeness Bridge World Pending} {h h' : BridgeHeap}
    {c m : Nat} (hh : Heap.Alike L R h h') (hn : h'.IsNewContext c m) (hc : R.IsFree c)
    (hm : R.IsFree m) (hglobals : h.globals = globals) :
    ∃ S, R.Grows S ∧ Heap.Alike L S h h' ∧ S.IsSpare globals c m := by
  have hgrows : R.Grows ((R.withAside c (h'.table c)).withAside m (h'.table m)) :=
    Matching.grows_withAside.trans Matching.grows_withAside
  exact ⟨_, hgrows, (hh.withAside hn.lt hc.table).withAside hn.metatable_lt hm.table,
    .inl (.inr ⟨rfl, hn.context.symm⟩), h'.globals, hglobals ▸ hgrows.table hh.globals,
    .inr ⟨rfl, hn.metatable.symm⟩⟩

theorem World.Pooled.executionError_eq (h : World.Pooled globals R w w') {i j : Nat}
    (hr : R.hosted i j) (cause : RaisedError) :
    Render.executionError w i cause = Render.executionError w' j cause := by
  obtain ⟨-, v, v', hv, hv', hmirrors⟩ := pooled_publishes.view h hr
  simp only [Render.executionError, Render.uriOf, hv, hv', hmirrors.agrees.uri]

section GivingBack

variable (s s' : RenderState) {r r' : Request} {c c' m' : Nat}

/-- Renders end alike if the context of the second one is as it was made and stands for nothing any
    more. -/
theorem turn_giveBack
    (h : State.Alike (pooled globals).likeness R
      { s with heap := s.heap.contextClear c, world := w }
      { s' with heap := s'.heap.contextClear c', world := w' })
    (hview : R.hosted r.view r'.view) (hglobals : s.heap.globals = globals)
    (hn : (s'.heap.contextClear c').IsNewContext c' m') (hc : R.IsFree c') (hm : R.IsFree m')
    (failure : Option RaisedError) :
    Follows Render.host (pooled globals).likeness (s.turn (Render.finish r c s.heap w failure))
      (s'.turn (Render.finish r' c' s'.heap w' failure)) := by
  have hcleared : (s.heap.contextClear c).globals = globals := hglobals
  obtain ⟨S, hg, hheap, hspare⟩ := h.heap.withSpare hn hc hm hcleared
  have hworld : World.Pooled globals R w w' := h.world
  obtain ⟨spares, hspares⟩ := hworld.spares
  have hfree : ∀ b, R.IsFree b → b ∉ tablesOf spares := by
    intro b hb hmem
    obtain ⟨p, hp, rfl | rfl⟩ := mem_tablesOf.1 hmem
    · exact hb.aside _ (hspares.spare p hp).context
    · obtain ⟨g, -, haside⟩ := (hspares.spare p hp).metatable
      exact hb.aside _ haside
  obtain ⟨spares', hkept⟩ := (hspares.imp fun _ _ hp => hp.mono hg).keep hspare hn.ne (hfree c' hc)
    (hfree m' hm) r'.engine
  have hkeeps : World.Pooled globals S
      (w.modifyEngine r.engine fun e => { e with pool := e.pool.keep c })
      (w'.modifyEngine r'.engine fun e => { e with pool := e.pool.keep c' }) := by
    rw [hworld.keep_left]
    refine ⟨?_, spares', hkept⟩
    rw [World.unpooled_withPool w' r'.engine fun p => p.keep c']
    exact hworld.mirrors.mono hg.toWidens hg.hosted_of
  exact turn_finish ⟨hheap, hkeeps, Script.stackAlike_mono hg h.stack, h.level, h.depth⟩
    (hworld.executionError_eq hview) failure

end GivingBack

/-! ## Contexts that are let go -/

/-- Whether a state refers to nothing but what is at some places, directly or through what is on its
    heap. -/
def RenderState.RefersWithin (P : Places) (t : RenderState) : Prop :=
  State.Alike (mirrored 0 fun _ _ => False).likeness P.identity t t

/-- Whether a context is let go: it is as it was made, and nothing refers to it or to its metatable. -/
def IsLetGo (c : Nat) (t : RenderState) : Prop :=
  ∃ m P, t.heap.IsNewContext c m ∧ c ∉ P.tables ∧ m ∉ P.tables ∧ RenderState.RefersWithin P t

/-- Whether contexts can be made, there being room and the functions that are needed, and are let go
    by the renders that end. -/
structure LetsContextsGo (K : List (Frame Pending)) (t : RenderState) : Prop where
  level : t.level ≤ 190
  makes : ∀ r rest, t.stack = .host (.acquiring r) :: rest →
    FindsMaker t.heap ∧ t.depth < Script.maxDepth
  letsGo : ∀ p rest l, K = .host p :: rest → t.stack = rest → p.loan? = some l →
    IsLetGo l.context t

/-- Whether the machine lets contexts go from a state on, and shows no address. -/
structure IsolatesContexts (t : RenderState) : Prop where
  start : LetsContextsGo [] t
  quiet : Quiet Render.host LetsContextsGo t

section LettingGo

variable {s s' : RenderState} {r r' : Request} {c c' : Nat}

/-- Renders end alike if the first one lets its context go. -/
theorem turn_finish_of_isLetGo (h : State.Alike (pooled globals).likeness R s s') (hr : r.Alike R r')
    (ht : R.table c c') (hw : World.Pooled globals R w w') (hglobals : s.heap.globals = globals)
    {failure : Option RaisedError}
    (hgo : IsLetGo c (s.turn (Render.finish r c s.heap w failure))) :
    Follows Render.host (pooled globals).likeness (s.turn (Render.finish r c s.heap w failure))
      (s'.turn (Render.finish r' c' s'.heap w' failure)) := by
  obtain ⟨m, P, hnew, hc, hm, hrefers⟩ := hgo
  have hwithin : RenderState.RefersWithin P
      { s with heap := s.heap.contextClear c, world := w } := by
    have hsame : (w.modifyEngine r.engine fun e => { e with pool := e.pool.keep c }) = w :=
      hw.keep_left r.engine c
    unfold Render.finish at hrefers
    rw [hsame] at hrefers
    cases failure <;> exact ⟨hrefers.heap, hrefers.world, hrefers.stack, rfl, rfl⟩
  have hcleared : (s.heap.contextClear c).IsNewContext c m := by
    cases failure <;> exact hnew
  have hheap := h.heap.contextClear ht
  obtain ⟨m', htm, hnew'⟩ := hcleared.alike hheap ht
  have hplace : globals ∈ P.tables := hglobals ▸ hwithin.heap.globals.2
  have hworld : World.Pooled globals (R.within P) w w' := by
    obtain ⟨spares, hspares⟩ := hw.spares
    exact ⟨hwithin.world.within hw.mirrors nofun, spares,
      hspares.imp fun _ _ hp => hp.within hplace⟩
  have hstates := hwithin.within
    (⟨hheap, hw, h.stack, h.level, h.depth⟩ : State.Alike (pooled globals).likeness R
      { s with heap := s.heap.contextClear c, world := w }
      { s' with heap := s'.heap.contextClear c', world := w' }) hworld
  have hfree : ∀ {a b}, R.table a b → a ∉ P.tables → (R.within P).IsFree b := by
    intro a b hab hnot
    refine ⟨fun x hx => ?_, fun t hb => (hheap.aside hb).2.2 a hab⟩
    obtain rfl : x = a := (hheap.faithful.table hx.1 hab).2 rfl
    exact hnot hx.2
  exact turn_giveBack s s' hstates hr.view hglobals hnew' (hfree ht hc) (hfree htm hm) failure

end LettingGo

/-! ## Contexts that are taken or made -/

/-- Two contexts as they are made stand for each other from now on if nothing is known of either. -/
theorem Script.Heap.Alike.withNewContexts {L : Script.Likeness Bridge World Pending}
    {h h' : BridgeHeap} {c c' m m' : Nat} (hh : Heap.Alike L R h h') (hn : h.IsNewContext c m)
    (hn' : h'.IsNewContext c' m') (hc : ∀ b, ¬ R.table c b) (hm : ∀ b, ¬ R.table m b)
    (hc' : R.IsFree c') (hm' : R.IsFree m') :
    Heap.Alike L ((R.withTable m m').withTable c c') h h' := by
  have hg : (R.withTable m m').Widens ((R.withTable m m').withTable c c') :=
    Matching.grows_withTable.toWidens
  have hmetatables : Heap.Alike L (R.withTable m m') h h' := by
    refine hh.withTable hn.metatable_lt hn'.metatable_lt ?_ hm hm'.table hm'.aside
    rw [hn.metatable, hn'.metatable]
    exact ⟨.nil, .cons ⟨.text _, .table (.inl hh.globals)⟩ .nil, .none⟩
  refine hmetatables.withTable hn.lt hn'.lt ?_ ?_ ?_ hc'.aside
  · rw [hn.context, hn'.context]
    exact ⟨.nil, .nil, .some (hg.table Matching.table_withTable)⟩
  · rintro b (hold | ⟨heq, -⟩)
    · exact hc b hold
    · exact hn.ne heq
  · rintro a (hold | ⟨-, heq⟩)
    · exact hc'.table a hold
    · exact hn'.ne heq

section Beginning

variable {s s' : RenderState} {r r' : Request} {c c' m m' : Nat} {h h' : BridgeHeap} {v v' : View}

/-- Renders go on alike with contexts as they are made of which nothing is known. -/
theorem turn_runIn
    (hs : State.Alike (pooled globals).likeness R { s with heap := h, world := w }
      { s' with heap := h', world := w' })
    (hr : r.Alike R r') (hn : h.IsNewContext c m) (hn' : h'.IsNewContext c' m')
    (hc : ∀ b, ¬ R.table c b) (hm : ∀ b, ¬ R.table m b) (hc' : R.IsFree c') (hm' : R.IsFree m')
    (hglobals : h.globals = globals) (compile : Bool) (hv : v.Mirrors R v') :
    Follows Render.host (pooled globals).likeness
      (s.turn (Render.runIn s.level r c compile v h w))
      (s'.turn (Render.runIn s'.level r' c' compile v' h' w')) := by
  let T : Matching := (R.withTable m m').withTable c c'
  have hgT : R.Grows T := Matching.grows_withTable.trans Matching.grows_withTable
  have ht : T.table c c' := Matching.table_withTable
  have hbridge : Bridge.Alike T ⟨r.engine, r.view, c, r.sink, r.depth⟩
      ⟨r'.engine, r'.view, c', r'.sink, r'.depth⟩ :=
    ⟨hr.engine, hgT.hosted hr.view, ht, hr.sink, hr.depth⟩
  obtain ⟨U, hgU, hheap⟩ := (hs.heap.withNewContexts hn hn' hc hm hc' hm').bindVariables ht
    v.defaults (attributesAlike_mono hgT.toWidens hr.attributes) r.children hbridge
  have hg : R.Grows U := hgT.trans hgU
  have hk := hn.keeps_contextClear v.defaults r.attributes r.children
    ⟨r.engine, r.view, c, r.sink, r.depth⟩
  have hk' := hn'.keeps_contextClear v.defaults r'.attributes r.children
    ⟨r'.engine, r'.view, c', r'.sink, r'.depth⟩
  unfold Render.runIn
  dsimp only
  rw [← hv.agrees.defaults, ← hr.children]
  generalize Render.bindVariables h c v.defaults r.attributes r.children
    ⟨r.engine, r.view, c, r.sink, r.depth⟩ = h₁ at hheap hk ⊢
  generalize Render.bindVariables h' c' v.defaults r'.attributes r.children
    ⟨r'.engine, r'.view, c', r'.sink, r'.depth⟩ = h₁' at hheap hk' ⊢
  have hbound : State.Alike (pooled globals).likeness U { s with heap := h₁, world := w }
      { s' with heap := h₁', world := w' } := hs.setHeap hg hheap
  -- what fails before any code has run gives the contexts back as they were
  refine pooled_publishes.turn_prepare (A := fun _ _ => True) (K := []) hg hbound
    (hr.mono hg.toWidens) (hgU.table ht) (fun {w w'} hw cause _ => ?_) hs.world compile hv trivial
  have hgiven : State.Alike (pooled globals).likeness R
      { s with heap := h₁.contextClear c, world := w }
      { s' with heap := h₁'.contextClear c', world := w' } :=
    ⟨hs.heap.keeps hk hk', hw, hs.stack, hs.level, hs.depth⟩
  exact turn_giveBack { s with heap := h₁ } { s' with heap := h₁' } hgiven hr.view
    (hk.globals.trans hglobals) (hn'.keeps hk') hc' hm' (some cause)

/-- A context that has just been made is as it was made. -/
theorem isNewContext_made (h : BridgeHeap) :
    (withContext (withContextCode h)).IsNewContext h.tables.size (h.tables.size + 1) :=
  isNewContext_withContext (withContextCode h)

theorem keeps_made (h : BridgeHeap) : Heap.Keeps [] h (withContext (withContextCode h)) :=
  (Expansion.keeps_withContextCode h).trans (by simp) (Expansion.keeps_withContext _)

theorem room_of_level_le (hlevel : s.level ≤ 190) : s.level + 1 < Script.maxLevel :=
  Nat.lt_of_le_of_lt (Nat.succ_le_succ hlevel) (by decide)

section Acquiring

variable {e e' : Engine} (hr : r.Alike R r') (he : s.world.engines[r.engine]? = some e)
  (hv : s.world.views[r.view]? = some v) (hlevel : s.level ≤ 190) (hdepth : s.depth < Script.maxDepth)
  (hmaker : FindsMaker s.heap) (hglobals : s.heap.globals = globals)

include hr he hv hlevel hdepth hmaker hglobals

/-- The first render has a context made, and goes on as the second one does with one of which nothing
    is known. -/
theorem follows_acquire
    (hs : State.Alike (pooled globals).likeness R s { s' with heap := h', world := w' })
    (hn' : h'.IsNewContext c' m') (hc' : R.IsFree c') (hm' : R.IsFree m') (hview : v.Mirrors R v') :
    Follows Render.host (pooled globals).likeness
      (s.turn (Render.acquire s.level r e v s.heap s.world))
      (s'.turn (Render.runIn s'.level r' c' e.config.compile v' h' w')) := by
  have hworld : World.Pooled globals R s.world w' := hs.world
  have hidle : e.pool.idle = [] := congrArg Pool.idle (hworld.pool_eq he)
  have hreach := reaches_runIn_made (room_of_level_le hlevel) hdepth
    (Expansion.readChunk_contextSource (Nat.le_trans hlevel (by decide))) hmaker hidle he hv
  have hnew : ∀ k b, s.heap.tables.size ≤ k → ¬ R.table k b := fun k b hk hab =>
    Nat.not_lt.2 hk (hs.heap.tables_lt hab).1
  have hmade : State.Alike (pooled globals).likeness R
      { s with heap := withContext (withContextCode s.heap), world := s.world }
      { s' with heap := h', world := w' } :=
    ⟨hs.heap.keeps (keeps_made s.heap) (.refl [] _), hs.world, hs.stack, hs.level, hs.depth⟩
  exact Follows.of_reaches hreach (.refl _) (turn_runIn hmade hr (isNewContext_made s.heap) hn'
    (fun b => hnew _ b (Nat.le_refl _)) (fun b => hnew _ b (Nat.le_succ _)) hc' hm'
    ((keeps_made s.heap).globals.trans hglobals) _ hview)

/-- Renders begin alike, whether the second one takes a context or has one made. -/
theorem turn_acquire (hs : State.Alike (pooled globals).likeness R s s')
    (he' : s'.world.engines[r'.engine]? = some e') (hv' : s'.world.views[r'.view]? = some v') :
    Follows Render.host (pooled globals).likeness
      (s.turn (Render.acquire s.level r e v s.heap s.world))
      (s'.turn (Render.acquire s'.level r' e' v' s'.heap s'.world)) := by
  have hworld : World.Pooled globals R s.world s'.world := hs.world
  have hcompile : e.config.compile = e'.config.compile := hworld.compile_eq he (hr.engine ▸ he')
  obtain ⟨-, v₀, v₀', hv₀, hv₀', hview⟩ := pooled_publishes.view hworld hr.view
  rw [hv, Option.some.injEq] at hv₀
  rw [hv', Option.some.injEq] at hv₀'
  subst hv₀ hv₀'
  obtain ⟨spares, hspares⟩ := hworld.spares
  have hidle := hspares.idle he'
  cases spares with
  | nil =>
    have hlevel' : s'.level ≤ 190 := hs.level ▸ hlevel
    have hreach := reaches_runIn_made (room_of_level_le hlevel') (hs.depth ▸ hdepth)
      (Expansion.readChunk_contextSource (Nat.le_trans hlevel' (by decide))) (hmaker.alike hs.heap)
      hidle he' hv'
    have hmade : State.Alike (pooled globals).likeness R s
        { s' with heap := withContext (withContextCode s'.heap), world := s'.world } :=
      ⟨hs.heap.keeps (.refl [] _) (keeps_made s'.heap), hs.world, hs.stack, hs.level, hs.depth⟩
    rw [← hcompile] at hreach
    exact Follows.of_reaches (.refl _) hreach (follows_acquire hr he hv hlevel hdepth hmaker hglobals
      hmade (isNewContext_made s'.heap) (hs.heap.isFree (Nat.le_refl _))
      (hs.heap.isFree (Nat.le_succ _)) hview)
  | cons p spares =>
    let B : Matching := R.asideOf fun ref => ref ∉ [p.1, p.2]
    have htaken : State.Alike (pooled globals).likeness B s { s' with
        heap := s'.heap
        world := s'.world.modifyEngine r'.engine fun e₀ =>
          { e₀ with pool := { e'.pool with idle := spares.map Prod.fst } } } := by
      refine ⟨hs.heap.asideOf _, ⟨?_, spares, hspares.take he'⟩,
        Script.stackAlike_mono Matching.widens_asideOf hs.stack, hs.level, hs.depth⟩
      rw [World.unpooled_withPool s'.world r'.engine fun _ => _]
      exact hworld.mirrors.mono Matching.widens_asideOf id
    have hspare := hspares.spare p List.mem_cons_self
    obtain ⟨-, hcontext, hcfree⟩ := hs.heap.aside hspare.context
    obtain ⟨g, hg, haside⟩ := hspare.metatable
    obtain ⟨-, hmetatable, hmfree⟩ := hs.heap.aside haside
    have hself : g = s'.heap.globals :=
      (hs.heap.faithful.table hg hs.heap.globals).1 hglobals.symm
    have hrun : Render.acquire s'.level r' e' v' s'.heap s'.world
        = Render.runIn s'.level r' p.1 e.config.compile v' s'.heap
          (s'.world.modifyEngine r'.engine fun e₀ =>
            { e₀ with pool := { e'.pool with idle := spares.map Prod.fst } }) := by
      simp only [Render.acquire, Pool.take?, hidle, List.map_cons, hcompile]
    have hnew : s'.heap.IsNewContext p.1 p.2 := ⟨hcontext, hself ▸ hmetatable⟩
    rw [hrun]
    exact follows_acquire (hr.mono Matching.widens_asideOf) he hv hlevel hdepth hmaker hglobals htaken
      hnew ⟨hcfree, fun t ht => ht.2 (by simp)⟩
      ⟨hmfree, fun t ht => ht.2 (by simp)⟩ (hview.mono Matching.widens_asideOf)

end Acquiring

end Beginning

/-! ## What is left to engines -/

/-- A render that is to have a context made has read the code for it. -/
theorem acquire_eq_call {s : RenderState} {e : Engine} (r : Request) (v : View)
    (hidle : e.pool.idle = []) (hlevel : s.level ≤ 190) (h : BridgeHeap) (w : World) :
    s.turn (Render.acquire s.level r e v h w)
      = ⟨withContextCode h, w, .host (.acquiring r) :: s.stack,
        .invoke (.function h.functions.size) [] none, s.level + 1, s.depth⟩ := by
  have hread := Expansion.readChunk_contextSource (h := h) (Nat.le_trans hlevel (by decide))
  unfold Render.acquire Pool.take?
  simp only [hidle, hread, RenderState.turn_call (room_of_level_le hlevel)]

/-- Renders end alike if the first one lets go of the context that it has. -/
theorem turn_finish_of_letsContextsGo {s s' : RenderState} {r r' : Request} {c c' : Nat} {p : Pending}
    (h : State.Alike (pooled globals).likeness R s s') (hr : r.Alike R r') (ht : R.table c c')
    (hw : World.Pooled globals R w w') (hloan : p.loan? = some ⟨r.engine, c⟩)
    {failure : Option RaisedError}
    (ha : LetsContextsGo (.host p :: s.stack) (s.turn (Render.finish r c s.heap w failure))
      ∧ (s.turn (Render.finish r c s.heap w failure)).heap.globals = globals) :
    Follows Render.host (pooled globals).likeness (s.turn (Render.finish r c s.heap w failure))
      (s'.turn (Render.finish r' c' s'.heap w' failure)) := by
  obtain ⟨hgo, hglobals⟩ := ha
  have hstack : (s.turn (Render.finish r c s.heap w failure)).stack = s.stack := by
    cases failure <;> rfl
  have hsame : (s.turn (Render.finish r c s.heap w failure)).heap.globals = s.heap.globals := by
    cases failure <;> rfl
  exact turn_finish_of_isLetGo h hr ht hw (hsame.symm.trans hglobals)
    (hgo.letsGo p s.stack _ rfl hstack hloan)

/-- An engine without a pool and one that keeps contexts answer alike if the first one lets all of its
    contexts go. -/
theorem pooled_keeps (globals : Nat) :
    (pooled globals).Keeps fun K t => LetsContextsGo K t ∧ t.heap.globals = globals where
  sinks h := h.mirrors.sinks
  withSinks h _ := h.of_mirrors { h.mirrors with sinks := rfl } rfl
  engines h := h.engines
  views h _ _ hr := by
    obtain ⟨-, v, v', hv, hv', hmirrors⟩ := pooled_publishes.view h hr
    exact ⟨v, v', hv, hv', hmirrors.agrees⟩
  load h := h.load
  acquire {R s s' r r' e e' v v' K} h hr he he' hv hv' ha := by
    obtain ⟨hgo, hglobals⟩ := ha
    have hworld : World.Pooled globals R s.world s'.world := h.world
    have hlevel : s.level ≤ 190 := Nat.le_trans (level_le_turn s _) hgo.level
    have hidle : e.pool.idle = [] := congrArg Pool.idle (hworld.pool_eq he)
    rw [acquire_eq_call r v hidle hlevel] at hgo hglobals
    obtain ⟨hmaker, hdepth⟩ := hgo.makes r s.stack rfl
    exact turn_acquire hr he hv hlevel hdepth ⟨hmaker.setmetatable, hmaker.self⟩ hglobals h he' hv'
  acquired := nofun
  named _ := fun h _ _ _ _ => pooled_publishes.modifyRuntime h _ _ _ _
  compiled _ := fun {R s s' r r' c c' vs vs'} h hr ht hvs previous ha =>
    pooled_publishes.turn_compiled
      (A := fun K t => LetsContextsGo K t ∧ t.heap.globals = globals)
      (K := .host (.preparing r c previous) :: s.stack) h hr ht h.world hvs
      (fun hw cause ha => turn_finish_of_letsContextsGo h hr ht hw rfl ha) ha
  finish {R s s' r r' c c' p} h hr ht hp failure ha := by
    have hloan : p.loan? = some ⟨r.engine, c⟩ := by
      obtain rfl | ⟨previous, rfl⟩ := hp <;> rfl
    exact turn_finish_of_letsContextsGo h hr ht h.world hloan ha

end ScriptedViews

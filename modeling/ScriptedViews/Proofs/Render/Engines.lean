import ScriptedViews.Proofs.Pool.Counted
import ScriptedViews.Proofs.Render.Settled

set_option autoImplicit false

/-! # Engines are made

An engine is made with as many contexts as its pool holds, each of them by running code on the heap
of its runtime. That leaves the world settled, whatever the code does; and if the code finds what it
needs, it does nothing but make a new context. -/

namespace ScriptedViews

open Expansion (FindsMaker newContext_of_findsMaker withContext withContextCode withContexts
  heapOf_modifyRuntime modifyRuntime_modifyRuntime)
open Script (State)

namespace World

variable {w w' : World} {runtime other : Nat}

/-! ## Heaps that grow between calls -/

theorem withoutHeap_putHeap (w : World) (runtime : Nat) (h : BridgeHeap) :
    (w.withoutHeap runtime).putHeap runtime h = w.putHeap runtime h :=
  modifyRuntime_modifyRuntime w runtime _ _

theorem deeds_of_grows {makes : Scene → Nat → Prop} {h : BridgeHeap}
    (hg : (w.heapOf runtime).Grows h) :
    Deeds runtime makes (w.sceneAt runtime) ⟨[], h, w.withoutHeap runtime⟩ :=
  .single (.code hg)

theorem Settled.putHeap (hw : w.Settled) (hruntime : runtime < w.runtimes.size) {h : BridgeHeap}
    (hg : (w.heapOf runtime).Grows h) : (w.putHeap runtime h).Settled := by
  have hd : Deeds runtime (fun _ _ => True) (w.sceneAt runtime) ⟨[], h, w.withoutHeap runtime⟩ :=
    deeds_of_grows hg
  exact withoutHeap_putHeap w runtime h ▸ hw.after hruntime hd

theorem Settled.apart_putHeap (hw : w.Settled) (hruntime : runtime < w.runtimes.size)
    (happart : w.IsApart) {h : BridgeHeap} (hg : (w.heapOf runtime).Grows h) :
    (w.putHeap runtime h).IsApart :=
  withoutHeap_putHeap w runtime h ▸ hw.apart_after hruntime happart (deeds_of_grows hg)

/-- Values that are given from outside are put on the heap, and nothing else changes. -/
theorem importAttributes_same (w : World) (runtime : Nat) (attributes : List (String × Json)) :
    (w.importAttributes runtime attributes).2.engines = w.engines
      ∧ (w.importAttributes runtime attributes).2.views = w.views
      ∧ (w.importAttributes runtime attributes).2.sinks = w.sinks := by
  induction attributes generalizing w with
  | nil => exact ⟨rfl, rfl, rfl⟩
  | cons e attributes ih => exact ih (w.putHeap runtime _)

theorem Settled.importAttributes (hw : w.Settled) (hruntime : runtime < w.runtimes.size)
    (attributes : List (String × Json)) : (w.importAttributes runtime attributes).2.Settled
      ∧ (w.importAttributes runtime attributes).2.runtimes.size = w.runtimes.size
      ∧ (w.IsApart → (w.importAttributes runtime attributes).2.IsApart) := by
  induction attributes generalizing w with
  | nil => exact ⟨hw, rfl, id⟩
  | cons e attributes ih =>
    obtain ⟨name, j⟩ := e
    have hg := Script.Heap.grows_importJson (w.heapOf runtime) j
    have hsize : (w.putHeap runtime ((w.heapOf runtime).importJson j).2).runtimes.size
        = w.runtimes.size := size_modifyRuntime _ _ _
    obtain ⟨hsettled, hsize', happart⟩ := ih (hw.putHeap hruntime hg) (by rwa [hsize])
    exact ⟨hsettled, hsize'.trans hsize,
      fun h => happart (hw.apart_putHeap hruntime h hg)⟩

theorem globals_importAttributes (hruntime : runtime < w.runtimes.size)
    (attributes : List (String × Json)) :
    ((w.importAttributes runtime attributes).2.heapOf runtime).globals
      = (w.heapOf runtime).globals := by
  induction attributes generalizing w with
  | nil => rfl
  | cons e attributes ih =>
    obtain ⟨name, j⟩ := e
    let h₁ := ((w.heapOf runtime).importJson j).2
    have hlt : runtime < (w.putHeap runtime h₁).runtimes.size :=
      (size_modifyRuntime w runtime _).symm ▸ hruntime
    have hrest := ih hlt
    rw [putHeap, heapOf_modifyRuntime hruntime] at hrest
    exact hrest.trans (Script.Heap.keeps_importJson (w.heapOf runtime) j).globals

/-! ## Contexts made from outside -/

theorem does_contextTurn {makes : Scene → Nat → Prop} (h : BridgeHeap) (w : World) :
    Does runtime makes ⟨[], h, w⟩ [] (contextTurn h w) := by
  unfold contextTurn
  split
  · exact .failWith _
  · next f h₁ hr =>
    exact .of_deed (.code (Script.Heap.grows_readChunk hr))
      ⟨.refl, (by rintro p r hp hr; cases hp; cases hr), nofun⟩

/-- A context has been made from outside, or has failed to be. -/
theorem Settled.newContext (hw : w.Settled) (hruntime : runtime < w.runtimes.size) {fuel : Nat}
    {r : Except ScriptError Nat} (h : w.newContext fuel runtime = (some r, w')) :
    w'.Settled ∧ w'.runtimes.size = w.runtimes.size := by
  obtain ⟨o, ho, -⟩ := Option.map_eq_some_iff.1 (congrArg Prod.fst h)
  have hworld : (w.perform fuel runtime contextTurn).2 = w' := congrArg Prod.snd h
  exact hw.perform hruntime (does_contextTurn _ _) (Prod.ext ho hworld)

/-- More steps do not change what has come to an end. -/
theorem newContext_of_le {fuel fuel' : Nat} {r : Except ScriptError Nat}
    (h : w.newContext fuel runtime = (some r, w')) (hle : fuel ≤ fuel') :
    w.newContext fuel' runtime = (some r, w') := by
  obtain ⟨o, ho, -⟩ := Option.map_eq_some_iff.1 (congrArg Prod.fst h)
  have hrun : (w.starting runtime contextTurn).run Render.host fuel'
      = (w.starting runtime contextTurn).run Render.host fuel := State.run_of_le ho hle
  have hperform : w.perform fuel' runtime contextTurn = w.perform fuel runtime contextTurn :=
    congrArg (fun s : RenderState => (s.outcome?, s.world.putHeap runtime s.heap)) hrun
  rw [← h, World.newContext, World.newContext, hperform]

/-- A context that is made from outside is a new one. -/
theorem newContext_eq (hm : FindsMaker (w.heapOf runtime)) {fuel : Nat}
    {r : Except ScriptError Nat} (h : w.newContext fuel runtime = (some r, w')) :
    r = .ok (w.heapOf runtime).tables.size
      ∧ w' = w.putHeap runtime (withContext (withContextCode (w.heapOf runtime))) := by
  obtain ⟨n, hn⟩ := newContext_of_findsMaker hm
  have heq := (newContext_of_le h (Nat.le_max_left fuel n)).symm.trans (hn _ (Nat.le_max_right _ _))
  cases heq
  exact ⟨rfl, rfl⟩

/-- Making one more context makes one from outside, and after that the others. -/
theorem makeMany_succ {count fuel : Nat} {r : Except (Option ScriptError) (List Nat)}
    (h : Pool.makeMany (contextKind fuel runtime) (count + 1) w = (r, w')) (hr : r ≠ .error none) :
    ∃ o w₁, w.newContext fuel runtime = (some o, w₁)
      ∧ ((∃ e, o = .error e ∧ w' = w₁)
        ∨ ∃ c r₂, o = .ok c ∧ Pool.makeMany (contextKind fuel runtime) count w₁ = (r₂, w')
          ∧ r₂ ≠ .error none ∧ r = r₂.map (c :: ·)) := by
  rcases hnew : w.newContext fuel runtime with ⟨_ | e | c, w₁⟩
  · simp only [Pool.makeMany, contextKind, hnew] at h
    cases h
    exact absurd rfl hr
  · simp only [Pool.makeMany, contextKind, hnew] at h
    cases h
    exact ⟨_, _, rfl, .inl ⟨e, rfl, rfl⟩⟩
  · rcases hmany : Pool.makeMany (contextKind fuel runtime) count w₁ with ⟨e | cs, w₂⟩
    · simp only [Pool.makeMany, contextKind, hnew] at h hmany
      rw [hmany] at h
      cases h
      exact ⟨_, _, rfl, .inr ⟨c, _, rfl, hmany, hr, rfl⟩⟩
    · simp only [Pool.makeMany, contextKind, hnew] at h hmany
      rw [hmany] at h
      cases h
      exact ⟨_, _, rfl, .inr ⟨c, _, rfl, hmany, (by intro heq; cases heq), rfl⟩⟩

theorem Settled.makeMany (count : Nat) (hw : w.Settled) (hruntime : runtime < w.runtimes.size)
    {fuel : Nat} {r : Except (Option ScriptError) (List Nat)}
    (h : Pool.makeMany (contextKind fuel runtime) count w = (r, w')) (hr : r ≠ .error none) :
    w'.Settled ∧ w'.runtimes.size = w.runtimes.size := by
  induction count generalizing w w' r with
  | zero =>
    cases h
    exact ⟨hw, rfl⟩
  | succ count ih =>
    obtain ⟨o, w₁, ho, hcases⟩ := makeMany_succ h hr
    obtain ⟨hw₁, hsize₁⟩ := hw.newContext hruntime ho
    obtain ⟨e, -, rfl⟩ | ⟨c, r₂, -, hmany, hr₂, -⟩ := hcases
    · exact ⟨hw₁, hsize₁⟩
    · obtain ⟨hw₂, hsize₂⟩ := ih hw₁ (hsize₁ ▸ hruntime) hmany hr₂
      exact ⟨hw₂, hsize₂.trans hsize₁⟩

/-- Making a context leaves the library where it is. -/
theorem findsMaker_withContext {h : BridgeHeap} (hm : FindsMaker h) :
    FindsMaker (withContext (withContextCode h)) := by
  have htable : (withContext (withContextCode h)).table h.globals = h.table h.globals :=
    (Expansion.keeps_withContext (withContextCode h)).tables _ hm.globals_lt List.not_mem_nil
  exact ⟨(congrArg (Script.Table.getText · _) htable).trans hm.setmetatable,
    (congrArg (Script.Table.getText · _) htable).trans hm.self⟩

theorem size_putHeap (w : World) (runtime : Nat) (h : BridgeHeap) :
    (w.putHeap runtime h).runtimes.size = w.runtimes.size :=
  size_modifyRuntime _ _ _

theorem heapOf_putHeap (hruntime : runtime < w.runtimes.size) (h : BridgeHeap) :
    (w.putHeap runtime h).heapOf runtime = h :=
  heapOf_modifyRuntime hruntime h

theorem putHeap_heapOf (w : World) (runtime : Nat) : w.putHeap runtime (w.heapOf runtime) = w := by
  have hmodify : (w.runtimes.modify runtime fun rt => { rt with heap := w.heapOf runtime })
      = w.runtimes := by
    apply Array.ext_getElem?
    intro i
    rw [Array.getElem?_modify]
    split
    · next hi =>
      subst hi
      rw [heapOf]
      cases hrt : w.runtimes[runtime]? <;> rfl
    · rfl
  rw [putHeap, modifyRuntime, hmodify]

theorem putHeap_putHeap (w : World) (runtime : Nat) (h h' : BridgeHeap) :
    (w.putHeap runtime h).putHeap runtime h' = w.putHeap runtime h' :=
  modifyRuntime_modifyRuntime w runtime _ _

/-- The contexts of a pool are made one after the other, all new. -/
theorem makeMany_eq (count : Nat) (hruntime : runtime < w.runtimes.size)
    (hm : 0 < count → FindsMaker (w.heapOf runtime)) {fuel : Nat}
    {r : Except (Option ScriptError) (List Nat)}
    (h : Pool.makeMany (contextKind fuel runtime) count w = (r, w')) (hr : r ≠ .error none) :
    r = .ok (withContexts count (w.heapOf runtime)).1
      ∧ w' = w.putHeap runtime (withContexts count (w.heapOf runtime)).2 := by
  induction count generalizing w w' r with
  | zero =>
    cases h
    exact ⟨rfl, (putHeap_heapOf _ runtime).symm⟩
  | succ count ih =>
    have hm := hm (Nat.succ_pos count)
    obtain ⟨o, w₁, ho, hcases⟩ := makeMany_succ h hr
    obtain ⟨rfl, rfl⟩ := newContext_eq hm ho
    obtain ⟨e, herror, -⟩ | ⟨c, r₂, hok, hmany, hr₂, rfl⟩ := hcases
    · cases herror
    · cases hok
      have hheap := heapOf_putHeap hruntime (withContext (withContextCode (w.heapOf runtime)))
      obtain ⟨rfl, rfl⟩ := ih ((size_putHeap _ _ _).symm ▸ hruntime)
        (fun _ => by rw [hheap]; exact findsMaker_withContext hm) hmany hr₂
      rw [putHeap_putHeap, hheap]
      exact ⟨rfl, rfl⟩

theorem grows_withContext (h : BridgeHeap) : h.Grows (withContext (withContextCode h)) := by
  have hcode : h.Grows (withContextCode h) :=
    (Script.Heap.grows_newCell h _).trans (Script.Heap.grows_newFunction _ _)
  have htable := Script.Heap.grows_newTable (withContextCode h) (t := {}) .nil
  have hmetatable := Script.Heap.grows_newTable ((withContextCode h).newTable {}).2
    (t := Expansion.contextMetatable h.globals) (List.pairwise_singleton _ _)
  exact hcode.trans (htable.trans (hmetatable.trans
    (Script.Heap.grows_modifyTable _ _ fun _ ht => ht)))

theorem size_withContext (h : BridgeHeap) :
    (withContext (withContextCode h)).tables.size = h.tables.size + 2 := by
  simp [withContext, withContextCode, Script.Heap.newTable, Script.Heap.modifyTable,
    Script.Heap.newFunction, Script.Heap.newCell]

/-- Contexts that are made one after the other are different, and none of them was there before. -/
theorem withContexts_spec (count : Nat) (h : BridgeHeap) :
    h.Grows (withContexts count h).2 ∧ (withContexts count h).1.Nodup
      ∧ ∀ c ∈ (withContexts count h).1,
        h.tables.size ≤ c ∧ c < (withContexts count h).2.tables.size := by
  induction count generalizing h with
  | zero => exact ⟨.refl h, .nil, nofun⟩
  | succ count ih =>
    obtain ⟨hgrows, hnodup, hbetween⟩ := ih (withContext (withContextCode h))
    have hsize := size_withContext h
    have hsize' := hgrows.size_le
    refine ⟨(grows_withContext h).trans hgrows, List.nodup_cons.2 ⟨fun hmem => ?_, hnodup⟩, ?_⟩
    · have := (hbetween _ hmem).1
      omega
    · intro c hc
      show h.tables.size ≤ c ∧ c < (withContexts count (withContext (withContextCode h))).2.tables.size
      rcases List.mem_cons.1 hc with rfl | hc
      · omega
      · have := hbetween c hc
        omega

/-! ## Engines -/

/-- An engine is put into the world. -/
def addEngine (w : World) (e : Engine) : World :=
  { w with engines := w.engines.push e }

theorem Has.addEngine {i : Nat} (h : w.Has i runtime) (e : Engine) :
    (w.addEngine e).Has i runtime := by
  obtain ⟨e₀, he₀, hr⟩ := h
  refine ⟨e₀, ?_, hr⟩
  rw [World.addEngine, Array.getElem?_push, if_neg]
  · exact he₀
  · exact Nat.ne_of_lt (Array.getElem?_eq_some_iff.1 he₀).1

theorem Settled.addEngine (hw : w.Settled) {e : Engine} (hruntime : e.runtime < w.runtimes.size)
    (hpool : e.pool.idle.length = e.pool.capacity) : (w.addEngine e).Settled := by
  have hengine (i : Nat) (e' : Engine) (he' : (w.addEngine e).engines[i]? = some e') :
      e' = e ∨ w.engines[i]? = some e' := by
    rw [World.addEngine, Array.getElem?_push] at he'
    split at he'
    · exact .inl (Option.some.inj he').symm
    · exact .inr he'
  refine ⟨fun i e' he' => ?_, fun i e' he' => ?_, fun other hother => ?_⟩
  · rcases hengine i e' he' with rfl | he'
    · exact hruntime
    · exact hw.runtimes i e' he'
  · rcases hengine i e' he' with rfl | he'
    · exact hpool
    · exact hw.pools i e' he'
  · have hbefore := hw.proper other hother
    exact ⟨nofun, fun ref b hb => (hbefore.bridges ref b hb).addEngine e, hbefore.distinct⟩

theorem idle_addEngine (w : World) (e : Engine) (other : Nat) :
    (w.addEngine e).idle other = w.idle other ++ e.idleOn other := by
  simp [idle, addEngine]

/-- Contexts are apart with new ones for another engine. -/
theorem apart_addEngine (happart : w.IsApart) (hruntime : runtime < w.runtimes.size)
    {h : BridgeHeap} (hg : (w.heapOf runtime).Grows h) {e : Engine} (he : e.runtime = runtime)
    (hnodup : e.pool.idle.Nodup)
    (hbetween : ∀ c ∈ e.pool.idle, (w.heapOf runtime).tables.size ≤ c ∧ c < h.tables.size) :
    ((w.putHeap runtime h).addEngine e).IsApart := by
  intro other hother
  have hother' : other < w.runtimes.size := (size_putHeap w runtime h) ▸ hother
  have hbefore := happart other hother'
  have hcontexts : Scene.contexts other
      ⟨[], ((w.putHeap runtime h).addEngine e).heapOf other, (w.putHeap runtime h).addEngine e⟩
      = Scene.contexts other ⟨[], w.heapOf other, w⟩ ++ e.idleOn other :=
    idle_addEngine _ _ _
  by_cases hne : other = runtime
  · subst hne
    have hheap : ((w.putHeap other h).addEngine e).heapOf other = h := heapOf_putHeap hruntime h
    rw [Engine.idleOn, if_pos he] at hcontexts
    refine ⟨?_, fun c hc => ?_⟩
    · rw [hcontexts]
      refine List.nodup_append.2 ⟨hbefore.nodup, hnodup, fun a ha b hb hab => ?_⟩
      have hlt : a < (w.heapOf other).tables.size := hbefore.lt a ha
      have hle := (hbetween b hb).1
      omega
    · rw [hcontexts, List.mem_append] at hc
      show c < (((w.putHeap other h).addEngine e).heapOf other).tables.size
      rw [hheap]
      rcases hc with hc | hc
      · exact Nat.lt_of_lt_of_le (hbefore.lt c hc) hg.size_le
      · exact (hbetween c hc).2
  · have hheap : ((w.putHeap runtime h).addEngine e).heapOf other = w.heapOf other :=
      heapOf_modifyRuntime_ne hne _
    rw [Engine.idleOn, if_neg (by rw [he]; exact fun heq => hne heq.symm), List.append_nil]
      at hcontexts
    exact hbefore.congr hcontexts (Nat.le_of_eq (by rw [hheap]))

/-! ## Runtimes -/

theorem heapOf_addRuntime (w : World) (rt : Runtime) (other : Nat) :
    (w.addRuntime rt).2.heapOf other
      = if other = w.runtimes.size then rt.heap else w.heapOf other := by
  simp only [heapOf, addRuntime, Array.getElem?_push]
  by_cases hi : other = w.runtimes.size
  · rw [if_pos hi, if_pos hi]
  · rw [if_neg hi, if_neg hi]

theorem size_addRuntime (w : World) (rt : Runtime) :
    (w.addRuntime rt).2.runtimes.size = w.runtimes.size + 1 :=
  Array.size_push rt

/-- A runtime that is new has no bridges. -/
theorem Settled.addRuntime (hw : w.Settled) (language : String) :
    (w.addRuntime { language }).2.Settled := by
  refine ⟨fun i e he => ?_, hw.pools, fun other hother => ?_⟩
  · rw [size_addRuntime]
    exact Nat.lt_succ_of_lt (hw.runtimes i e he)
  · rw [heapOf_addRuntime]
    split
    · exact ⟨nofun, fun ref b hb => by simp [Script.Heap.start] at hb,
        Script.Heap.isDistinct_start⟩
    · next hne =>
      rw [size_addRuntime] at hother
      exact (hw.proper other (by omega)).congr rfl

/-- No engine has a runtime that is new. -/
theorem Settled.apart_addRuntime (hw : w.Settled) (happart : w.IsApart) (language : String) :
    (w.addRuntime { language }).2.IsApart := by
  intro other hother
  rw [heapOf_addRuntime]
  split
  · next hnew =>
    have hnone : w.idle other = [] := by
      rw [idle, List.flatMap_eq_nil_iff]
      intro e he
      obtain ⟨i, hi⟩ := List.mem_iff_getElem?.1 he
      have hlt := hw.runtimes i e (by simpa using hi)
      rw [Engine.idleOn, if_neg (by omega)]
    have hcontexts : Scene.contexts other ⟨[], (Runtime.mk language Script.Heap.start 0 none).heap,
        (w.addRuntime { language }).2⟩ = [] := hnone
    exact ⟨hcontexts ▸ .nil, fun c hc => by rw [hcontexts] at hc; cases hc⟩
  · rw [size_addRuntime] at hother
    exact (happart other (by omega)).congr rfl (Nat.le_refl _)

/-- The runtime for an engine is one of a registry, or new. -/
theorem Settled.runtimeFor (hw : w.Settled) {registry registry' : Registry} {language : String}
    (hregistry : ∀ e ∈ registry, e.2 < w.runtimes.size)
    (h : w.runtimeFor registry language = .ok (runtime, registry', w')) :
    w'.Settled ∧ runtime < w'.runtimes.size ∧ (w.IsApart → w'.IsApart) := by
  unfold World.runtimeFor at h
  dsimp only at h
  split at h
  · next hr =>
    cases h
    obtain ⟨l₁, l₂, hl, -⟩ := List.lookup_eq_some_iff.1 hr
    exact ⟨hw, hregistry (Runtime.languageId language, runtime) (by rw [hl]; simp), id⟩
  · split at h
    · cases h
      exact ⟨hw.addRuntime _, by rw [size_addRuntime]; exact Nat.lt_succ_self _,
        fun happart => hw.apart_addRuntime happart _⟩
    · cases h

/-- How an engine comes to be made: a runtime for it is found, contexts are made, and it is put into
    the world. -/
theorem createEngine_cases {registry registry' : Registry} {s : Setup} {fuel : Nat}
    {r : Except ViewError Nat} (h : w.createEngine fuel registry s = (some r, registry', w')) :
    w' = w ∨ ∃ runtime registry₁ w₁, w.runtimeFor registry s.config.language
        = .ok (runtime, registry₁, w₁)
      ∧ ∃ r₂ w₂, Pool.makeMany (contextKind fuel runtime) s.config.contextPoolCapacity w₁ = (r₂, w₂)
        ∧ r₂ ≠ .error none
        ∧ ((∃ e, r₂ = .error (some e) ∧ w' = w₂)
          ∨ ∃ (contexts : List Nat) (e : Engine), r₂ = .ok contexts ∧ e.runtime = runtime
            ∧ e.cache = [] ∧ e.pool = ⟨s.config.contextPoolCapacity, contexts⟩
            ∧ w' = w₂.addEngine e) := by
  unfold World.createEngine at h
  split at h
  · cases h
    exact .inl rfl
  · split at h
    · cases h
      exact .inl rfl
    · next runtime registry₁ w₁ hruntime =>
      refine .inr ⟨runtime, registry₁, w₁, hruntime, ?_⟩
      unfold Pool.create at h
      rcases hmany : Pool.makeMany (contextKind fuel runtime) s.config.contextPoolCapacity w₁ with
        ⟨(_ | e) | contexts, w₂⟩
      · simp [hmany] at h
      · simp only [hmany, Prod.mk.injEq] at h
        exact ⟨_, w₂, rfl, by simp, .inl ⟨e, rfl, h.2.2.symm⟩⟩
      · simp only [hmany, Prod.mk.injEq] at h
        exact ⟨_, w₂, rfl, nofun, .inr ⟨contexts, _, rfl, rfl, rfl, rfl, h.2.2.symm⟩⟩

/-- An engine has been made, or has failed to be. -/
theorem Settled.createEngine (hw : w.Settled) {registry registry' : Registry} {s : Setup}
    (hregistry : ∀ e ∈ registry, e.2 < w.runtimes.size) {fuel : Nat}
    {r : Except ViewError Nat} (h : w.createEngine fuel registry s = (some r, registry', w')) :
    w'.Settled := by
  obtain rfl | ⟨runtime, registry₁, w₁, hruntime, r₂, w₂, hmany, hr₂, hend⟩ := createEngine_cases h
  · exact hw
  obtain ⟨hw₁, hlt, -⟩ := hw.runtimeFor hregistry hruntime
  obtain ⟨hw₂, hsize⟩ := hw₁.makeMany _ hlt hmany hr₂
  rcases hend with ⟨e, -, rfl⟩ | ⟨contexts, e, rfl, he, -, hpool, rfl⟩
  · exact hw₂
  · refine hw₂.addEngine (by rwa [he, hsize]) ?_
    rw [hpool]
    exact CountedPool.length_of_makeMany _ hmany

/-- Its contexts are new ones if the code that makes them has found what it needs. -/
theorem Settled.apart_createEngine (hw : w.Settled) (happart : w.IsApart)
    {registry registry' : Registry} {s : Setup}
    (hregistry : ∀ e ∈ registry, e.2 < w.runtimes.size)
    (hm : ∀ runtime registry₁ w₁, w.runtimeFor registry s.config.language
      = .ok (runtime, registry₁, w₁) → 0 < s.config.contextPoolCapacity →
        FindsMaker (w₁.heapOf runtime))
    {fuel : Nat} {r : Except ViewError Nat}
    (h : w.createEngine fuel registry s = (some r, registry', w')) : w'.IsApart := by
  obtain rfl | ⟨runtime, registry₁, w₁, hruntime, r₂, w₂, hmany, hr₂, hend⟩ := createEngine_cases h
  · exact happart
  obtain ⟨hw₁, hlt, happart₁⟩ := hw.runtimeFor hregistry hruntime
  obtain ⟨hok, rfl⟩ := makeMany_eq _ hlt (hm runtime registry₁ w₁ hruntime) hmany hr₂
  obtain ⟨hgrows, hnodup, hbetween⟩ :=
    withContexts_spec s.config.contextPoolCapacity (w₁.heapOf runtime)
  rcases hend with ⟨e, rfl, -⟩ | ⟨contexts, e, rfl, he, -, hpool, rfl⟩
  · cases hok
  · cases hok
    exact apart_addEngine (happart₁ happart) hlt hgrows he (by rwa [hpool]) (by rwa [hpool])

end World

end ScriptedViews

import ScriptedViews.Proofs.Loader.Chains
import ScriptedViews.Proofs.Render.Caches
import ScriptedViews.Proofs.Render.Failures

set_option autoImplicit false

/-! # Views that are not there

When an engine says that there is no view at a URI. It says so just if it keeps no view of that URI
and nothing is there for any loader that its own comes to, however chains are put into chains; and
while the loaders answer as they did, it keeps none for a URI where nothing is there. -/

namespace ScriptedViews

open Loader (leaves leavesOf)

namespace World

variable {w w₀ : World} {i : Nat} {e e₀ : Engine} {uri : String} {L : List ViewEvent}

/-- Whether an engine says that there is no view at a URI. -/
def SaysAbsent (w : World) (engine : Nat) (uri : String) : Prop :=
  ∃ what, w.load engine uri = .error (.notFound what)

/-- Whether nothing is there at a URI for any leaf of a loader: none serves it, and none fails in
    another way. -/
def IsAbsent (sources : Sources) (uri : String) (l : Loader) : Prop :=
  ∀ m ∈ leaves l, ∃ what, m.load sources uri = .error (.notFound what)

theorem readView_notFound_iff : (∃ what, w.readView i e uri = .error (.notFound what))
    ↔ IsAbsent w.sources uri e.loader := by
  rw [IsAbsent, ← Loader.isAbsent_iff_leaves]
  constructor
  · rintro ⟨what, h⟩
    obtain ⟨cause, hload, hcause⟩ | ⟨-, htext⟩ := error_of_readView h
    · split at hcause
      · rename_i hno
        cases cause with
        | notFound what => exact ⟨what, hload⟩
        | loadFailed | io => cases hno
      · cases hcause
    · cases htext
  · rintro ⟨what, hload⟩
    refine ⟨uri, ?_⟩
    rw [readView, hload]
    rfl

/-- An engine says that there is no view just if it keeps none and nothing is there. -/
theorem saysAbsent_iff (he : w.engines[i]? = some e) : w.SaysAbsent i uri
    ↔ (e.config.cacheViews = true → e.cache.get? uri = none)
      ∧ IsAbsent w.sources uri e.loader := by
  by_cases hnone : e.config.cacheViews = true → e.cache.get? uri = none
  · rw [SaysAbsent, load_of_none he hnone, and_iff_right hnone, ← readView_notFound_iff]
    cases w.readView i e uri with
    | error error => simp only [Except.map, Except.error.injEq]
    | ok v => exact ⟨nofun, nofun⟩
  · obtain ⟨hon, hkept⟩ := Classical.not_imp.1 hnone
    obtain ⟨view, hget⟩ := Option.ne_none_iff_exists'.1 hkept
    rw [SaysAbsent, load_of_get? he hon hget]
    exact ⟨nofun, fun h => absurd h.1 hnone⟩

/-! ## Whole histories -/

/-- Whether a world is there at some time, after calls from outside or while a render goes on, where
    some things have happened to views. -/
inductive Passes (Q : RenderState → Prop) (w₀ : World) : List ViewEvent → World → Prop
  | between {L : List ViewEvent} {w : World} (h : Calls Q w₀ L w) : Passes Q w₀ L w
  | within {L : List ViewEvent} {w : World} (h : Calls Q w₀ L w) {engine : Nat} {e : Engine}
      (he : w.engines[engine]? = some e) (view sink : Nat) (attributes : List (String × Json))
      (children : Option String) (n : Nat) :
      Passes Q w₀ (RenderState.events (w.rendering engine view sink attributes children) n ++ L)
        ((w.rendering engine view sink attributes children).stepMany Render.host n).world

/-- An engine that has been new loads what it has kept, at any time. -/
theorem Passes.loadsAsKept {P : BridgeHeap → Prop} {Q : RenderState → Prop} (hw : w₀.Reached P)
    (he₀ : w₀.engines[i]? = some e₀) (hnew : e₀.cache = []) (h : w₀.Passes Q L w) :
    ∃ e, w.engines[i]? = some e ∧ e₀.LoadsLike e ∧ w.LoadsAsKept i e (loadsOf i L) := by
  have hstart : Stage.KeepsLoads i e₀ ⟨[], [], w₀⟩ :=
    ⟨e₀, he₀, e₀.loadsLike_refl, fun _ => hnew, fun _ uri => by rw [hnew]; rfl,
      by rw [hnew]; exact .nil, fun uri view hget => by rw [hnew] at hget; cases hget⟩
  have hkeeps {L : List ViewEvent} {w : World} (hcalls : w₀.Calls Q L w) :
      Stage.KeepsLoads i e₀ ⟨L, [], w⟩ :=
    hcalls.keeps (C := fun _ => True) (fun _ _ => trivial) (fun _ => Act.keepsLoads)
      Outside.keepsLoads hw hstart
  have hend {L : List ViewEvent} {R : List Pending} {w : World}
      (hstage : Stage.KeepsLoads i e₀ ⟨L, R, w⟩) :
      ∃ e, w.engines[i]? = some e ∧ e₀.LoadsLike e ∧ w.LoadsAsKept i e (loadsOf i L) := by
    obtain ⟨e, he, hkept⟩ := hstage
    exact ⟨e, he, hkept.like, hkept.loadsAsKept he⟩
  cases h with
  | between hcalls => exact hend (hkeeps hcalls)
  | @within L w hcalls engine e he view sink attributes children n =>
    exact hend (Calls.keeps_rendering (C := fun _ => True) (fun _ => Act.keepsLoads)
      Outside.keepsLoads (hcalls.reached hw).settled he view sink attributes children n
      (fun _ _ => trivial) (hkeeps hcalls))

/-- Whether the leaves of a loader answered as they do now for a URI whenever a view was loaded from
    it. -/
def IsSteady (sources : Sources) (uri : String) (l : Loader) (loads : List Load) : Prop :=
  ∀ load ∈ loads, load.uri = uri → ∀ m ∈ leaves l, m.load load.sources uri = m.load sources uri

/-- While the leaves answer as they did, what an engine keeps is still there. -/
theorem LoadsAsKept.not_isAbsent {loads : List Load} (h : w.LoadsAsKept i e loads)
    (hsteady : IsSteady w.sources uri e.loader loads) {view : Nat}
    (hget : e.cache.get? uri = some view) : ¬ IsAbsent w.sources uri e.loader := by
  obtain ⟨v, -, -, -, newer, sources, older, v₀, rfl, -, hread, -⟩ := h.kept uri view hget
  have hsame := hsteady ⟨uri, view, sources⟩ (List.mem_append_right _ List.mem_cons_self) rfl
  obtain ⟨bytes, hbytes, -⟩ := Expansion.exists_ok_of_bind hread
  have hserved : ∃ data, e.loader.load sources uri = .ok data :=
    ⟨bytes, Expansion.ok_of_mapError hbytes⟩
  obtain ⟨m, hm, data, hdata⟩ := (Loader.isServed_iff_leaves e.loader).1 hserved
  intro habsent
  obtain ⟨what, herror⟩ := habsent m hm
  rw [hsame m hm, herror] at hdata
  cases hdata

theorem saysAbsent_iff_isAbsent {loads : List Load} (he : w.engines[i]? = some e)
    (h : w.LoadsAsKept i e loads) (hsteady : IsSteady w.sources uri e.loader loads) :
    w.SaysAbsent i uri ↔ IsAbsent w.sources uri e.loader := by
  rw [saysAbsent_iff he]
  refine and_iff_right_of_imp fun habsent hon => ?_
  by_contra hkept
  obtain ⟨view, hget⟩ := Option.ne_none_iff_exists'.1 hkept
  exact h.not_isAbsent hsteady hget habsent

end World

/-- A chain answers as the list of its leaves: it serves what the first of them serves, else it
    fails as the first of them that fails otherwise than with absence, else nothing is there; so it
    is the same whether some members are a chain of their own or not, and a chain of leaves that
    have what they load has what it loads. An engine says that there is no view just if it keeps
    none and nothing is there for any leaf of its loader, which is just if nothing is there for any
    of them when they answer as they did when it last loaded from there. -/
theorem Loader.chains_flatten :
    (∀ sources uri members,
      (chain members).load sources uri = answer sources uri (leavesOf members))
    ∧ (∀ sources uri before inner after,
      (chain (before ++ chain inner :: after)).load sources uri
        = (chain (before ++ inner ++ after)).load sources uri)
    ∧ (∀ sources members, (∀ m ∈ leavesOf members, m.IsCandid sources) →
      (chain members).IsCandid sources)
    ∧ (∀ (w : World) (i : Nat) (e : Engine) uri, w.engines[i]? = some e →
      (w.SaysAbsent i uri ↔ (e.config.cacheViews = true → e.cache.get? uri = none)
        ∧ World.IsAbsent w.sources uri e.loader))
    ∧ ∀ (P : BridgeHeap → Prop) (Q : RenderState → Prop) (w₀ w : World) (L : List ViewEvent)
        (i : Nat) (e₀ : Engine) uri, w₀.Reached P → w₀.engines[i]? = some e₀ → e₀.cache = [] →
      w₀.Passes Q L w → World.IsSteady w.sources uri e₀.loader (loadsOf i L) →
        (w.SaysAbsent i uri ↔ World.IsAbsent w.sources uri e₀.loader) := by
  refine ⟨fun _ _ => load_chain, fun sources uri before inner after => ?_,
    fun sources members h => isCandid_of_leaves h, fun w i e uri => World.saysAbsent_iff,
    fun P Q w₀ w L i e₀ uri hw he₀ hnew h hsteady => ?_⟩
  · rw [load_chain, load_chain, leavesOf_chain]
  · obtain ⟨e, he, hlike, hkept⟩ := h.loadsAsKept hw he₀ hnew
    rw [← hlike.loader] at hsteady ⊢
    exact World.saysAbsent_iff_isAbsent he hkept hsteady

namespace World

/-- A loader with chains in a chain, one of which is empty. -/
def nestedLoader : Loader :=
  .chain [.chain [], .chain [.memory 0], .memory 1]

/-- A world where there are views in one of two stores. -/
def nestedStart : World :=
  { sources := { stores := #[[], Expansion.boxedViews] } }

/-- An engine in it. -/
def nested : World :=
  (nestedStart.createEngine 100 []
    { config := { contextPoolCapacity := 0 }, loader := some nestedLoader }).2.2

end World

/-- Nothing is there for either store, so the engine says that there is no view, and the chain has
    the views that it loads. -/
theorem Loader.chains_flatten_nested : World.nested.SaysAbsent 0 "/none.xview"
    ∧ World.nestedLoader.IsCandid World.nestedStart.sources := by
  obtain ⟨-, -, hcandid, -, habsent⟩ := chains_flatten
  have hmade : (World.nestedStart.createEngine 100 []
      { config := { contextPoolCapacity := 0 },
        loader := some World.nestedLoader }).1.isSome = true := by
    decide
  obtain ⟨r, hr⟩ := Option.isSome_iff_exists.1 hmade
  have hw : World.nested.Reached fun _ => True :=
    (World.Reached.start.sources World.nestedStart.sources).createEngine
      (fun e he => absurd he List.not_mem_nil) (fun _ _ _ _ _ => trivial) hr
  have hengine : (World.nested.engines[0]?.map fun e => (e.loader, e.cache))
      = some (World.nestedLoader, []) := by
    rfl
  obtain ⟨e, he, heq⟩ := Option.map_eq_some_iff.1 hengine
  obtain ⟨hloader, hnew⟩ := Prod.mk.inj heq
  have hstores {m : Loader} (hm : m ∈ leaves World.nestedLoader) :
      m = .memory 0 ∨ m = .memory 1 := by
    simpa [World.nestedLoader, leaves, leavesOf] using hm
  refine ⟨?_, hcandid _ _ fun m hm => ?_⟩
  · refine (habsent (fun _ => True) (fun _ => True) _ _ [] 0 e _ hw he hnew (.between .start)
      nofun).2 fun m hm => ⟨"/none.xview", ?_⟩
    obtain rfl | rfl := hstores (hloader ▸ hm) <;> rfl
  · obtain rfl | rfl := hstores hm <;> exact isCandid_memory _ _

end ScriptedViews

import ScriptedViews.Proofs.Render.Alike.Places
import ScriptedViews.Proofs.Render.Context
import ScriptedViews.Proofs.Render.Deeds

set_option autoImplicit false

/-! # Worlds that keep contexts

One engine makes a context for each render and throws it away, another one has contexts in its pool.
Otherwise their worlds mirror each other. What is idle in the second one stands for nothing in the
first one, and is as if it had just been made. -/

namespace ScriptedViews

open Expansion (contextMetatable)
open Script (Matching Places ExceptAlike)

variable {globals : Nat} {R S : Matching} {w w' : World}

/-! ## Spare contexts -/

/-- Whether a context of the second heap is as contexts are made, and stands for nothing, and neither
    does its metatable. -/
structure Script.Matching.IsSpare (globals : Nat) (R : Matching) (c m : Nat) : Prop where
  context : R.aside c { metatable := some m }
  metatable : ∃ g, R.table globals g ∧ R.aside m (contextMetatable g)

namespace Script.Matching.IsSpare

variable {c m : Nat}

theorem mono (hg : R.Grows S) (h : R.IsSpare globals c m) : S.IsSpare globals c m := by
  obtain ⟨g, hr, hm⟩ := h.metatable
  exact ⟨hg.aside h.context, g, hg.table hr, hg.aside hm⟩

theorem within {P : Places} (hglobals : globals ∈ P.tables) (h : R.IsSpare globals c m) :
    (R.within P).IsSpare globals c m := by
  obtain ⟨g, hr, hm⟩ := h.metatable
  exact ⟨h.context, g, ⟨hr, hglobals⟩, hm⟩

theorem asideOf {p : Nat → Prop} (hc : p c) (hm : p m) (h : R.IsSpare globals c m) :
    (R.asideOf p).IsSpare globals c m := by
  obtain ⟨g, hr, haside⟩ := h.metatable
  exact ⟨⟨h.context, hc⟩, g, hr, haside, hm⟩

end Script.Matching.IsSpare

/-- The tables of some contexts and of their metatables. -/
def tablesOf (spares : List (Nat × Nat)) : List Nat :=
  spares.flatMap fun p => [p.1, p.2]

theorem mem_tablesOf {spares : List (Nat × Nat)} {ref : Nat} :
    ref ∈ tablesOf spares ↔ ∃ p ∈ spares, ref = p.1 ∨ ref = p.2 := by
  simp [tablesOf]

/-- Whether the idle contexts of the only engine of a world are some spare ones. -/
structure World.HasSpares (globals : Nat) (R : Matching) (spares : List (Nat × Nat)) (w : World) :
    Prop where
  size : w.engines.size ≤ 1
  idle : ∀ {i : Nat} {e : Engine}, w.engines[i]? = some e → e.pool.idle = spares.map Prod.fst
  spare : ∀ p ∈ spares, R.IsSpare globals p.1 p.2
  nodup : (tablesOf spares).Nodup

namespace World.HasSpares

variable {spares : List (Nat × Nat)}

theorem congr (h : w.HasSpares globals R spares) (hengines : w'.engines = w.engines) :
    w'.HasSpares globals R spares :=
  { h with
    size := hengines ▸ h.size
    idle := hengines ▸ h.idle }

/-- It is known of them by another matching too. -/
theorem imp (h : w.HasSpares globals R spares)
    (hspare : ∀ p ∈ spares, R.IsSpare globals p.1 p.2 → S.IsSpare globals p.1 p.2) :
    w.HasSpares globals S spares :=
  { h with spare := fun p hp => hspare p hp (h.spare p hp) }

theorem load (h : w.HasSpares globals R spares) {i view : Nat} {uri : String}
    (hl : w.load i uri = .ok (view, w')) : w'.HasSpares globals R spares := by
  obtain ⟨hsize, hengines⟩ := World.engines_load hl
  refine { h with size := hsize ▸ h.size, idle := fun {j e'} he' => ?_ }
  have hlt : j < w.engines.size := hsize ▸ (Array.getElem?_eq_some_iff.1 he').1
  obtain ⟨e'', he'', -, hpool⟩ := hengines j _ (Array.getElem?_eq_getElem hlt)
  rw [he', Option.some.injEq] at he''
  rw [he'', hpool]
  exact h.idle (Array.getElem?_eq_getElem hlt)

/-- Engines may change in anything but what is idle. -/
theorem modifyEngine (h : w.HasSpares globals R spares) (i : Nat) {f : Engine → Engine}
    (hf : ∀ e, (f e).pool = e.pool) : (w.modifyEngine i f).HasSpares globals R spares := by
  refine { h with
    size := by rw [World.size_modifyEngine]; exact h.size
    idle := fun {j e'} he' => ?_ }
  rw [World.getElem?_modifyEngine] at he'
  split at he'
  · obtain ⟨e, he, rfl⟩ := Option.map_eq_some_iff.1 he'
    rw [hf]
    exact h.idle he
  · exact h.idle he'

/-- What is idle may become something else in the only engine. -/
theorem withPool (h : w.HasSpares globals R spares) {i : Nat} {e : Engine}
    (he : w.engines[i]? = some e) {f : Pool Nat → Pool Nat} {spares' : List (Nat × Nat)}
    (hidle : (f e.pool).idle = spares'.map Prod.fst)
    (hspare : ∀ p ∈ spares', S.IsSpare globals p.1 p.2) (hnodup : (tablesOf spares').Nodup) :
    (w.modifyEngine i fun e => { e with pool := f e.pool }).HasSpares globals S spares' := by
  have honly : ∀ {j : Nat} {e' : Engine}, w.engines[j]? = some e' → j = i := by
    intro j e' he'
    have hi := (Array.getElem?_eq_some_iff.1 he).1
    have hj := (Array.getElem?_eq_some_iff.1 he').1
    have hsize := h.size
    omega
  refine ⟨by rw [World.size_modifyEngine]; exact h.size, fun {j e'} he' => ?_, hspare, hnodup⟩
  rw [World.getElem?_modifyEngine] at he'
  split at he'
  · rename_i hij
    rw [← hij, he, Option.map_some, Option.some.injEq] at he'
    rw [← he']
    exact hidle
  · rename_i hij
    exact absurd (honly he').symm hij

/-- A spare context is taken. -/
theorem take {p : Nat × Nat} (h : w.HasSpares globals R (p :: spares)) {i : Nat} {e : Engine}
    (he : w.engines[i]? = some e) :
    (w.modifyEngine i fun e₀ =>
      { e₀ with pool := { e.pool with idle := spares.map Prod.fst } }).HasSpares globals
        (R.asideOf fun ref => ref ∉ [p.1, p.2]) spares := by
  have happart : ([p.1, p.2] ++ tablesOf spares).Nodup := h.nodup
  obtain ⟨-, hnodup, hdisjoint⟩ := List.nodup_append.1 happart
  refine h.withPool he (f := fun _ => { e.pool with idle := spares.map Prod.fst }) rfl
    (fun q hq => ?_) hnodup
  exact (h.spare q (List.mem_cons_of_mem _ hq)).asideOf
    (fun hmem => hdisjoint _ hmem _ (mem_tablesOf.2 ⟨q, hq, .inl rfl⟩) rfl)
    fun hmem => hdisjoint _ hmem _ (mem_tablesOf.2 ⟨q, hq, .inr rfl⟩) rfl

/-- A spare context is kept, if there is room. -/
theorem keep (h : w.HasSpares globals R spares) {c m : Nat} (hspare : R.IsSpare globals c m)
    (hne : c ≠ m) (hc : c ∉ tablesOf spares) (hm : m ∉ tablesOf spares) (i : Nat) :
    ∃ spares', (w.modifyEngine i fun e => { e with pool := e.pool.keep c }).HasSpares globals R
      spares' := by
  cases he : w.engines[i]? with
  | none =>
    refine ⟨spares, h.congr (Array.ext_getElem? fun j => ?_)⟩
    rw [World.getElem?_modifyEngine]
    split
    · subst j
      rw [he]
      rfl
    · rfl
  | some e =>
    by_cases hroom : e.pool.idle.length < e.pool.capacity
    · refine ⟨spares ++ [(c, m)], h.withPool he (f := fun p => p.keep c) ?_ ?_ ?_⟩
      · rw [Pool.keep, if_pos hroom, h.idle he, List.map_append]
        rfl
      · intro p hp
        rcases List.mem_append.1 hp with hp | hp
        · exact h.spare p hp
        · rw [List.mem_singleton.1 hp]
          exact hspare
      · have hlast : tablesOf (spares ++ [(c, m)]) = tablesOf spares ++ [c, m] := by
          simp [tablesOf]
        rw [hlast]
        refine List.nodup_append.2 ⟨h.nodup, by simp [hne], ?_⟩
        rintro a ha b hb rfl
        simp only [List.mem_cons, List.not_mem_nil, or_false] at hb
        rcases hb with rfl | rfl
        · exact hc ha
        · exact hm ha
    · refine ⟨spares, h.withPool he (f := fun p => p.keep c) ?_ h.spare h.nodup⟩
      rw [Pool.keep, if_neg hroom, h.idle he]

end World.HasSpares

/-! ## Worlds without pools -/

/-- An engine that keeps no contexts. -/
def Engine.unpooled (e : Engine) : Engine :=
  { e with config := { e.config with contextPoolCapacity := 0 }, pool := ⟨0, []⟩ }

/-- A world with engines that keep no contexts. -/
def World.unpooled (w : World) : World :=
  { w with engines := w.engines.map Engine.unpooled }

namespace World

theorem getElem?_unpooled (w : World) (i : Nat) :
    w.unpooled.engines[i]? = w.engines[i]?.map Engine.unpooled := by
  simp only [unpooled, Array.getElem?_map]

/-- Without pools it does not matter what becomes of the pools. -/
theorem unpooled_withPool (w : World) (i : Nat) (f : Pool Nat → Pool Nat) :
    (w.modifyEngine i fun e => { e with pool := f e.pool }).unpooled = w.unpooled := by
  have hengines : (w.modifyEngine i fun e => { e with pool := f e.pool }).engines.map
      Engine.unpooled = w.engines.map Engine.unpooled := by
    apply Array.ext_getElem?
    intro j
    rw [Array.getElem?_map, Array.getElem?_map, getElem?_modifyEngine]
    split
    · rw [Option.map_map]
      rfl
    · rfl
  exact congrArg (fun engines => { w with engines }) hengines

theorem unpooled_modifyEngine (w : World) (i : Nat) {f : Engine → Engine}
    (hf : ∀ e, (f e).unpooled = f e.unpooled) :
    (w.modifyEngine i f).unpooled = w.unpooled.modifyEngine i f := by
  have hengines : (w.modifyEngine i f).engines.map Engine.unpooled
      = (w.unpooled.modifyEngine i f).engines := by
    apply Array.ext_getElem?
    intro j
    rw [Array.getElem?_map, getElem?_modifyEngine, getElem?_modifyEngine, getElem?_unpooled]
    split
    · rw [Option.map_map, Option.map_map, show Engine.unpooled ∘ f = f ∘ Engine.unpooled from
        funext hf]
    · rfl
  exact congrArg (fun engines => { w with engines }) hengines

/-- Views are loaded in the same way without pools. -/
theorem load_unpooled (w : World) (engine : Nat) (uri : String) :
    w.unpooled.load engine uri = (w.load engine uri).map fun r => (r.1, r.2.unpooled) := by
  unfold load
  rw [getElem?_unpooled]
  cases w.engines[engine]? with
  | none => rfl
  | some e =>
    have hread : w.unpooled.readView engine e.unpooled uri = w.readView engine e uri := rfl
    have hkept : (if e.unpooled.config.cacheViews then e.unpooled.cache.get? uri else none)
        = if e.config.cacheViews then e.cache.get? uri else none := rfl
    simp only [Option.map_some, hread, hkept]
    cases (if e.config.cacheViews then e.cache.get? uri else none) with
    | some view => rfl
    | none =>
      dsimp only
      cases w.readView engine e uri with
      | error error => rfl
      | ok v =>
        dsimp only
        show (if e.config.cacheViews then _ else _) = _
        cases e.config.cacheViews with
        | false => rfl
        | true =>
          exact congrArg (fun w₁ => Except.ok (w.views.size, w₁))
            (unpooled_modifyEngine (w.addView v).2 engine
              (f := fun e => { e with cache := e.cache.insert uri w.views.size })
              fun _ => rfl).symm

end World

/-! ## Worlds that are alike but for their pools -/

/-- Whether two worlds mirror each other but for the contexts that the second one keeps, which are
    spare. -/
structure World.Pooled (globals : Nat) (R : Matching) (w w' : World) : Prop where
  mirrors : World.Mirrors 0 (fun _ _ => False) R w w'.unpooled
  spares : ∃ spares, w'.HasSpares globals R spares

/-- When worlds are alike but for the contexts that the second one keeps. No context is in the making
    in both of them at once. -/
def pooled (globals : Nat) : WorldLikeness where
  world := World.Pooled globals
  making := False
  compiling := True
  mono hg h := by
    obtain ⟨spares, hspares⟩ := h.spares
    exact ⟨h.mirrors.mono hg.toWidens hg.hosted_of,
      spares, hspares.imp fun _ _ hp => hp.mono hg⟩

namespace World.Pooled

/-- The first engine has no contexts, and its pool has no room for one. -/
theorem pool_eq (h : World.Pooled globals R w w') {i : Nat} {e : Engine}
    (he : w.engines[i]? = some e) : e.pool = ⟨0, []⟩ := by
  have hrel := h.mirrors.engines i
  rw [he, getElem?_unpooled] at hrel
  generalize w'.engines[i]? = x' at hrel
  cases x' with
  | none => cases hrel
  | some e' =>
    cases hrel with
    | some hmirrors =>
      have hcapacity : e.pool.capacity = 0 := hmirrors.pool.capacity
      have hidle : List.Forall₂ R.table e.pool.idle [] := hmirrors.pool.idle
      rw [List.forall₂_nil_right_iff] at hidle
      rw [← hcapacity, ← hidle]

/-- So no context is kept in the first world. -/
theorem keep_left (h : World.Pooled globals R w w') (i c : Nat) :
    (w.modifyEngine i fun e => { e with pool := e.pool.keep c }) = w := by
  have hengines : (w.modifyEngine i fun e => { e with pool := e.pool.keep c }).engines
      = w.engines := by
    apply Array.ext_getElem?
    intro j
    rw [getElem?_modifyEngine]
    split
    · cases he : w.engines[j]? with
      | none => rfl
      | some e =>
        have hpool := h.pool_eq he
        have hkeep : e.pool.keep c = e.pool := by
          rw [hpool]
          rfl
        rw [Option.map_some, hkeep]
    · rfl
  exact congrArg (fun engines => { w with engines }) hengines

/-- Nothing but the engines of the second world counts for its spare contexts. -/
theorem of_mirrors (h : World.Pooled globals R w w') {w₁ w₁' : World}
    (hmirrors : World.Mirrors 0 (fun _ _ => False) R w₁ w₁'.unpooled)
    (hengines : w₁'.engines = w'.engines) : World.Pooled globals R w₁ w₁' := by
  obtain ⟨spares, hspares⟩ := h.spares
  exact ⟨hmirrors, spares, hspares.congr hengines⟩

theorem engines (h : World.Pooled globals R w w') (i : Nat) :
    Option.Rel Engine.Agrees w.engines[i]? w'.engines[i]? := by
  have hrel := h.mirrors.engines i
  rw [getElem?_unpooled] at hrel
  generalize w.engines[i]? = x at hrel ⊢
  generalize w'.engines[i]? = x' at hrel ⊢
  cases x' with
  | none => cases hrel with
    | none => exact .none
  | some e' =>
    cases hrel with
    | some hmirrors => exact .some ⟨hmirrors.agrees.isHeld, hmirrors.agrees.maxNestingDepth⟩

theorem compile_eq (h : World.Pooled globals R w w') {i : Nat} {e e' : Engine}
    (he : w.engines[i]? = some e) (he' : w'.engines[i]? = some e') :
    e.config.compile = e'.config.compile := by
  have hrel := h.mirrors.engines i
  rw [he, getElem?_unpooled, he'] at hrel
  cases hrel with
  | some hmirrors => rw [hmirrors.config]; rfl

theorem load (h : World.Pooled globals R w w') (engine : Nat) (uri : String) :
    ExceptAlike (fun r r' => World.Pooled globals (R.withHosted r.1 r'.1) r.2 r'.2)
      (w.load engine uri) (w'.load engine uri) := by
  have hload := h.mirrors.load engine uri
  obtain ⟨spares, hspares⟩ := h.spares
  rw [load_unpooled] at hload
  cases hx' : w'.load engine uri with
  | error e' =>
    rw [hx'] at hload
    generalize w.load engine uri = x at hload ⊢
    cases hload with
    | error e => exact .error _
  | ok r' =>
    rw [hx'] at hload
    generalize w.load engine uri = x at hload ⊢
    cases hload with
    | ok hmirrors =>
      refine .ok ⟨hmirrors, spares, (hspares.load hx').imp fun p _ hp => ?_⟩
      exact ⟨hp.context, hp.metatable⟩

end World.Pooled

/-- Their views are prepared alike. -/
theorem pooled_publishes : (pooled globals).Publishes where
  compiling := trivial
  view h _ _ hr := h.mirrors.view hr
  publish h i _ _ hx := h.of_mirrors (h.mirrors.publish i hx) rfl
  modifyRuntime h i i' f f' := h.of_mirrors (h.mirrors.modifyRuntime i i' f f') rfl

end ScriptedViews

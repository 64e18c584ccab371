import Mathlib.Data.List.Dedup
import ScriptedViews.Proofs.Render.Histories
import ScriptedViews.Proofs.Render.Holding

set_option autoImplicit false

/-! # Views that are loaded again

An engine that keeps views gives the same view for a URI again and again, until it is told to forget
its views, whatever has become of the sources. An engine that does not keep views reads what there
is each time. What it keeps is what has been loaded since, by whomever, and no load that fails
leaves a trace. -/

namespace ScriptedViews

/-- The keys are what there are values for. -/
theorem OrderedMap.mem_keys_iff {α β : Type} [BEq α] [LawfulBEq α] {m : OrderedMap α β} {key : α} :
    key ∈ m.map Prod.fst ↔ m.get? key ≠ none := by
  rw [OrderedMap.get?, Ne, List.lookup_eq_none_iff]
  simp

/-! ## Loads -/

/-- A view that has been loaded from a URI, when there were some sources. -/
structure Load where
  uri : String
  view : Nat
  sources : Sources

/-- What an engine has loaded since it last forgot its views, the last of it first. -/
def loadsOf (engine : Nat) : List ViewEvent → List Load
  | [] => []
  | .loaded i uri view sources :: L =>
    if i = engine then ⟨uri, view, sources⟩ :: loadsOf engine L else loadsOf engine L
  | .cleared i :: L => if i = engine then [] else loadsOf engine L
  | .compiled _ _ :: L => loadsOf engine L

/-- The view that was loaded last from a URI. -/
def lastView? (uri : String) (loads : List Load) : Option Nat :=
  (loads.find? fun l => l.uri = uri).map Load.view

theorem lastView?_cons (uri other : String) (view : Nat) (sources : Sources) (loads : List Load) :
    lastView? other (⟨uri, view, sources⟩ :: loads)
      = if uri = other then some view else lastView? other loads := by
  unfold lastView?
  rw [List.find?_cons]
  by_cases h : uri = other <;> simp [h]

theorem lastView?_eq_none {uri : String} {loads : List Load} :
    lastView? uri loads = none ↔ ∀ l ∈ loads, l.uri ≠ uri := by
  simp [lastView?]

/-- Whether engines load alike. -/
structure Engine.LoadsLike (e e' : Engine) : Prop where
  config : e'.config = e.config
  loader : e'.loader = e.loader
  validator : e'.validator = e.validator

namespace Engine

variable {e e' e'' : Engine}

theorem loadsLike_refl (e : Engine) : e.LoadsLike e :=
  ⟨rfl, rfl, rfl⟩

theorem LoadsLike.trans (h : e.LoadsLike e') (h' : e'.LoadsLike e'') : e.LoadsLike e'' :=
  ⟨h'.config.trans h.config, h'.loader.trans h.loader, h'.validator.trans h.validator⟩

theorem SameBut.loadsLike (h : e.SameBut e') : e.LoadsLike e' :=
  ⟨h.config, h.loader, h.validator⟩

end Engine

namespace World

variable {w w' : World} {i : Nat} {e e' : Engine} {uri : String}

/-- Only the sources count for what is read. -/
theorem readView_congr (hsources : w'.sources = w.sources) (h : e.LoadsLike e') (i : Nat)
    (uri : String) : w'.readView i e' uri = w.readView i e uri := by
  unfold readView validate
  rw [hsources, h.config, h.loader, h.validator]

/-- What an engine keeps it gives. -/
theorem load_of_get? {view : Nat} (he : w.engines[i]? = some e) (hon : e.config.cacheViews = true)
    (hget : e.cache.get? uri = some view) : w.load i uri = .ok (view, w) := by
  unfold load
  simp only [he, hon, if_true, hget]

/-- The world when a view is read that an engine has not kept. -/
def withRead (w : World) (i : Nat) (e : Engine) (uri : String) (v : View) : World :=
  if e.config.cacheViews then
    (w.addView v).2.modifyEngine i fun e => { e with cache := e.cache.insert uri w.views.size }
  else (w.addView v).2

/-- What it has not kept it reads. -/
theorem load_of_none (he : w.engines[i]? = some e)
    (hnone : e.config.cacheViews = true → e.cache.get? uri = none) :
    w.load i uri = (w.readView i e uri).map fun v => (w.views.size, w.withRead i e uri v) := by
  have hkept : (if e.config.cacheViews then e.cache.get? uri else none) = none := by
    split
    · next hon => exact hnone hon
    · rfl
  unfold load
  simp only [he, hkept]
  cases w.readView i e uri with
  | error error => rfl
  | ok v =>
    simp only [Except.map, withRead]
    split <;> rfl

/-- Loading a view changes no other engine. -/
theorem engines_load_ne {j view : Nat} (hl : w.load j uri = .ok (view, w')) (hne : j ≠ i) :
    w'.engines[i]? = w.engines[i]? := by
  obtain ⟨rfl, -⟩ | ⟨e, v, -, -, rfl, rfl⟩ := load_cases hl
  · rfl
  · split
    · rw [getElem?_modifyEngine, if_neg hne]
      rfl
    · rfl

end World

/-! ## What an engine keeps -/

/-- Whether a view is what an engine has read from a URI when it was loaded first. -/
def IsFirstRead (i : Nat) (e : Engine) (loads : List Load) (uri : String) (view : Nat) (v : View) :
    Prop :=
  ∃ newer sources older v₀, loads = newer ++ ⟨uri, view, sources⟩ :: older
    ∧ (∀ l ∈ older, l.uri ≠ uri)
    ∧ ({ sources } : World).readView i e uri = .ok v₀ ∧ v₀.SameBut v

theorem IsFirstRead.cons {i view : Nat} {e : Engine} {loads : List Load} {uri : String} {v : View}
    (h : IsFirstRead i e loads uri view v) (l : Load) :
    IsFirstRead i e (l :: loads) uri view v := by
  obtain ⟨newer, sources, older, v₀, rfl, hread⟩ := h
  exact ⟨l :: newer, sources, older, v₀, rfl, hread⟩

theorem IsFirstRead.trans {i view : Nat} {e : Engine} {loads : List Load} {uri : String}
    {v v' : View} (h : IsFirstRead i e loads uri view v) (hsame : v.SameBut v') :
    IsFirstRead i e loads uri view v' := by
  obtain ⟨newer, sources, older, v₀, hloads, holder, hread, hsame₀⟩ := h
  exact ⟨newer, sources, older, v₀, hloads, holder, hread, hsame₀.trans hsame⟩

/-- Whether an engine, which is like an earlier one, has kept what it has loaded since. -/
structure KeepsLoads (i : Nat) (e₀ e : Engine) (loads : List Load) (w : World) : Prop where
  like : e₀.LoadsLike e
  off : e₀.config.cacheViews = false → e.cache = []
  on : e₀.config.cacheViews = true → ∀ uri, e.cache.get? uri = lastView? uri loads
  nodup : (e.cache.map Prod.fst).Nodup
  entries : ∀ uri view, e.cache.get? uri = some view →
    ∃ v, w.views[view]? = some v ∧ IsFirstRead i e₀ loads uri view v

namespace KeepsLoads

variable {i : Nat} {e₀ e e' : Engine} {loads : List Load} {w w' : World}

theorem congr (h : KeepsLoads i e₀ e loads w) (hlike : e.LoadsLike e') (hcache : e'.cache = e.cache)
    (hviews : ∀ (j : Nat) (v : View), w.views[j]? = some v →
      ∃ v', w'.views[j]? = some v' ∧ v.SameBut v') : KeepsLoads i e₀ e' loads w' where
  like := h.like.trans hlike
  off hoff := hcache.trans (h.off hoff)
  on hon uri := by rw [hcache, h.on hon]
  nodup := hcache ▸ h.nodup
  entries uri view hget := by
    rw [hcache] at hget
    obtain ⟨v, hv, hfirst⟩ := h.entries uri view hget
    obtain ⟨v', hv', hsame⟩ := hviews view v hv
    exact ⟨v', hv', hfirst.trans hsame⟩

/-- A view that is loaded again is the one that is kept. -/
theorem load_again (h : KeepsLoads i e₀ e loads w) (hon : e₀.config.cacheViews = true)
    {uri : String} {view : Nat} (hget : e.cache.get? uri = some view) (sources : Sources) :
    KeepsLoads i e₀ e (⟨uri, view, sources⟩ :: loads) w where
  like := h.like
  off hoff := h.off hoff
  on _ other := by
    rw [lastView?_cons]
    split
    · next heq => exact heq ▸ hget
    · exact h.on hon other
  nodup := h.nodup
  entries other view' hget' := by
    obtain ⟨v, hv, hfirst⟩ := h.entries other view' hget'
    exact ⟨v, hv, hfirst.cons _⟩

/-- A view that is read is kept. -/
theorem load_anew (h : KeepsLoads i e₀ e loads w) (hon : e₀.config.cacheViews = true) {uri : String}
    {v : View} (hnone : e.cache.get? uri = none) (hread : w.readView i e uri = .ok v)
    (hnew : w'.views[w.views.size]? = some v)
    (hold : ∀ (view : Nat) (v : View), w.views[view]? = some v → w'.views[view]? = some v) :
    KeepsLoads i e₀ { e with cache := e.cache.insert uri w.views.size }
      (⟨uri, w.views.size, w.sources⟩ :: loads) w' where
  like := ⟨h.like.config, h.like.loader, h.like.validator⟩
  off hoff := absurd (hon.symm.trans hoff) nofun
  on _ other := by
    rw [lastView?_cons, OrderedMap.get?_insert, h.on hon]
    by_cases heq : uri = other
    · rw [if_pos heq, if_pos (by simp [heq])]
    · rw [if_neg heq, if_neg (by simpa using fun h => heq h.symm)]
  nodup := OrderedMap.nodup_keys_insert h.nodup _ _
  entries other view hget := by
    rw [OrderedMap.get?_insert] at hget
    split at hget
    · next heq =>
      obtain rfl := beq_iff_eq.1 heq
      cases hget
      rw [h.on hon] at hnone
      have hread' := (World.readView_congr rfl h.like i other).symm.trans hread
      exact ⟨v, hnew, [], w.sources, loads, v, rfl, lastView?_eq_none.1 hnone, hread',
        v.sameBut_refl⟩
    · obtain ⟨v', hv', hfirst⟩ := h.entries other view hget
      exact ⟨v', hold view v' hv', hfirst.cons _⟩

/-- An engine that keeps no views keeps none. -/
theorem load_off (h : KeepsLoads i e₀ e loads w) (hoff : e₀.config.cacheViews = false)
    (l : Load) : KeepsLoads i e₀ e (l :: loads) w' where
  like := h.like
  off := h.off
  on hon := absurd (hon.symm.trans hoff) nofun
  nodup := h.nodup
  entries other view hget := by
    rw [h.off hoff] at hget
    cases hget

/-- Whether a view is loaded again, read, or read and not kept, the engine keeps what it should. -/
theorem load (h : KeepsLoads i e₀ e loads w) (he : w.engines[i]? = some e) {uri : String}
    {view : Nat} (hl : w.load i uri = .ok (view, w')) :
    ∃ e', w'.engines[i]? = some e' ∧ KeepsLoads i e₀ e' (⟨uri, view, w.sources⟩ :: loads) w' := by
  by_cases hkept : e₀.config.cacheViews = true ∧ (e.cache.get? uri).isSome
  · obtain ⟨hon, hsome⟩ := hkept
    obtain ⟨kept, hget⟩ := Option.isSome_iff_exists.1 hsome
    rw [World.load_of_get? he (by rw [h.like.config, hon]) hget] at hl
    cases hl
    exact ⟨e, he, h.load_again hon hget _⟩
  have hnone (hon : e₀.config.cacheViews = true) : e.cache.get? uri = none := by
    by_contra hsome
    exact hkept ⟨hon, Option.isSome_iff_ne_none.2 hsome⟩
  rw [World.load_of_none he (fun hon => hnone (h.like.config ▸ hon))] at hl
  cases hread : w.readView i e uri with
  | error error => simp [hread, Except.map] at hl
  | ok v =>
    simp only [hread, Except.map, Except.ok.injEq, Prod.mk.injEq] at hl
    obtain ⟨rfl, rfl⟩ := hl
    have hadd : (w.addView v).2.engines[i]? = some e := he
    cases hcache : e₀.config.cacheViews with
    | false =>
      rw [World.withRead, h.like.config, hcache, if_neg Bool.false_ne_true]
      exact ⟨e, hadd, h.load_off hcache _⟩
    | true =>
      rw [World.withRead, h.like.config, hcache, if_pos rfl]
      refine ⟨_, by rw [World.getElem?_modifyEngine, if_pos rfl, hadd]; rfl,
        h.load_anew hcache (hnone hcache) hread Array.getElem?_push_size fun _ _ hv' =>
          World.views_addView hv' v⟩

end KeepsLoads

/-! ## What is kept throughout -/

/-- Whether an engine has kept what it has loaded since, at a stage. -/
def Stage.KeepsLoads (i : Nat) (e₀ : Engine) (s : Stage) : Prop :=
  ∃ e, s.world.engines[i]? = some e
    ∧ ScriptedViews.KeepsLoads i e₀ e (loadsOf i s.log) s.world

variable {o : Occasion} {s s' : Stage} {i : Nat} {e₀ : Engine}

theorem Act.keepsLoads (ha : Act o s s') (h : s.KeepsLoads i e₀) : s'.KeepsLoads i e₀ := by
  obtain ⟨e, he, hkeeps⟩ := h
  have hviews := ha.views
  cases ha with
  | @loaded L R w w' j view uri hl =>
    unfold Stage.KeepsLoads
    by_cases hij : j = i
    · subst hij
      simp only [loadsOf, if_true]
      exact hkeeps.load he hl
    · simp only [loadsOf, if_neg hij]
      exact ⟨e, (World.engines_load_ne hl hij).trans he, hkeeps.congr e.loadsLike_refl rfl hviews⟩
  | taken | left =>
    unfold Stage.KeepsLoads
    dsimp only
    rw [World.getElem?_modifyEngine, he]
    split
    · exact ⟨_, rfl, hkeeps.congr ⟨rfl, rfl, rfl⟩ rfl hviews⟩
    · exact ⟨e, rfl, hkeeps.congr e.loadsLike_refl rfl hviews⟩
  | _ => exact ⟨e, he, hkeeps.congr e.loadsLike_refl rfl hviews⟩

theorem World.Outside.keepsLoads (ho : World.Outside s s') (h : s.KeepsLoads i e₀) :
    s'.KeepsLoads i e₀ := by
  obtain ⟨e, he, hkeeps⟩ := h
  have hsame {w : World} (j : Nat) (v : View) (hv : w.views[j]? = some v) :
      ∃ v', w.views[j]? = some v' ∧ v.SameBut v' := ⟨v, hv, v.sameBut_refl⟩
  cases ho with
  | released j =>
    unfold Stage.KeepsLoads World.release
    dsimp only
    rw [World.getElem?_modifyEngine, he]
    split
    · exact ⟨_, rfl, hkeeps.congr ⟨rfl, rfl, rfl⟩ rfl hsame⟩
    · exact ⟨e, rfl, hkeeps.congr e.loadsLike_refl rfl hsame⟩
  | @made L R w j uri text v hv =>
    exact ⟨e, he, hkeeps.congr e.loadsLike_refl rfl fun _ v' hv' =>
      ⟨v', World.views_addView hv' v, v'.sameBut_refl⟩⟩
  | cleared j =>
    unfold Stage.KeepsLoads World.clearCache
    dsimp only
    rw [World.getElem?_modifyEngine, he, loadsOf]
    split
    · refine ⟨_, rfl, ⟨hkeeps.like.config, hkeeps.like.loader, hkeeps.like.validator⟩, fun _ => rfl,
        fun _ uri => rfl, .nil, fun uri view hget => ?_⟩
      cases hget
    · exact ⟨e, rfl, hkeeps.congr e.loadsLike_refl rfl hsame⟩
  | _ => exact ⟨e, he, hkeeps.congr e.loadsLike_refl rfl hsame⟩

/-! ## Whole histories -/

/-- What an engine's loads come to when some views have been loaded since it last forgot its views:
    what has been loaded is loaded again as it was, if the engine keeps views, and anything else is
    read from what there is now. Views are kept for the URIs that they have, as they were read when
    those were loaded first, as many as there are such URIs. -/
structure World.LoadsAsKept (w : World) (i : Nat) (e : Engine) (loads : List Load) : Prop where
  again : e.config.cacheViews = true → ∀ uri view, lastView? uri loads = some view →
    w.load i uri = .ok (view, w)
  anew : ∀ uri, (e.config.cacheViews = true → lastView? uri loads = none) →
    w.load i uri = (w.readView i e uri).map fun v => (w.views.size, w.withRead i e uri v)
  kept : ∀ uri view, e.cache.get? uri = some view → ∃ v, w.views[view]? = some v ∧ v.uri = uri
    ∧ v.engine = i ∧ IsFirstRead i e loads uri view v
  count : e.cache.length
    = if e.config.cacheViews then (loads.map Load.uri).dedup.length else 0

variable {w : World} {e : Engine} {loads : List Load}

theorem KeepsLoads.length_cache (h : KeepsLoads i e₀ e loads w) : e.cache.length
    = if e.config.cacheViews then (loads.map Load.uri).dedup.length else 0 := by
  rw [h.like.config]
  cases hcache : e₀.config.cacheViews with
  | false =>
    rw [h.off hcache]
    rfl
  | true =>
    have hmem (uri : String) :
        uri ∈ e.cache.map Prod.fst ↔ uri ∈ (loads.map Load.uri).dedup := by
      rw [OrderedMap.mem_keys_iff, h.on hcache, List.mem_dedup, Ne, lastView?_eq_none]
      simp
    have hperm := (List.perm_ext_iff_of_nodup h.nodup (List.nodup_dedup _)).2 hmem
    rw [if_pos rfl, ← hperm.length_eq, List.length_map]

theorem KeepsLoads.loadsAsKept (h : KeepsLoads i e₀ e loads w) (he : w.engines[i]? = some e) :
    w.LoadsAsKept i e loads where
  again hon uri view hlast := by
    have hon₀ : e₀.config.cacheViews = true := h.like.config ▸ hon
    exact World.load_of_get? he hon ((h.on hon₀ uri).trans hlast)
  anew uri hnone := World.load_of_none he fun hon => by
    rw [h.on (h.like.config ▸ hon), hnone hon]
  kept uri view hget := by
    obtain ⟨v, hv, newer, sources, older, v₀, hloads, holder, hread, hsame⟩ :=
      h.entries uri view hget
    obtain ⟨huri, hengine, -, -⟩ := Expansion.isRead_of_readView hread
    have hread' := (World.readView_congr rfl h.like i uri).trans hread
    exact ⟨v, hv, hsame.uri.trans huri, hsame.engine.trans hengine, newer, sources, older, v₀,
      hloads, holder, hread', hsame⟩
  count := h.length_cache

/-- Code that asks a held engine for a view is answered with a failure if the view cannot be loaded,
    and nothing has changed then. -/
theorem ViewCall.turn_of_error {c : ViewCall} {s : RenderState} {error : ViewError}
    (hheld : (s.world.engines[c.bridge.engine]?.any Engine.isHeld) = true)
    (hl : s.world.load c.bridge.engine c.target = .error error) :
    c.turn s = Render.failView s.heap s.world error := by
  rw [target] at hl
  unfold turn Render.callView
  simp only [hheld, Bool.not_true, Bool.false_eq_true, if_false, hl]

/-- Renders have no sources changed. -/
theorem World.Settled.sources_rendering (hw : w.Settled) {engine : Nat}
    (he : w.engines[engine]? = some e) (view sink : Nat) (attributes : List (String × Json))
    (children : Option String) (n : Nat) :
    ((w.rendering engine view sink attributes children).stepMany Render.host n).world.sources
      = w.sources := by
  have hact {o : Occasion} {a b : Stage} (ha : Act o a b) (h : a.world.sources = w.sources) :
      b.world.sources = w.sources := by
    cases ha with
    | loaded hl => exact (World.load_leaves hl).2.1.trans h
    | _ => exact h
  refine hw.keeps_rendering (I := fun a => a.world.sources = w.sources) he view sink attributes
    children [] ?_ hact n fun _ _ _ _ => hact
  have hgiven (l : List (String × Json)) (w : World) (runtime : Nat) :
      (w.importAttributes runtime l).2.sources = w.sources := by
    induction l generalizing w with
    | nil => rfl
    | cons a l ih => exact ih (w.putHeap runtime _)
  exact hgiven attributes w _

/-- Whatever calls come, an engine that has been new loads what it has kept, at any time of any
    render, too. Code does not change what there is to be loaded, a view that code calls is rendered
    as it is loaded then, and a call for a view that cannot be loaded changes nothing. -/
theorem World.Calls.keepsViews {P : BridgeHeap → Prop} {Q : RenderState → Prop} {w₀ : World}
    {L : List ViewEvent} (hw : w₀.Reached P) (he₀ : w₀.engines[i]? = some e₀) (hnew : e₀.cache = [])
    (h : w₀.Calls Q L w) :
    (∃ e, w.engines[i]? = some e ∧ e₀.LoadsLike e ∧ w.LoadsAsKept i e (loadsOf i L))
    ∧ ∀ (engine : Nat) (e₁ : Engine), w.engines[engine]? = some e₁ →
      ∀ (view sink : Nat) (attributes : List (String × Json)) (children : Option String) (n : Nat),
        let start := w.rendering engine view sink attributes children
        let s : RenderState := start.stepMany Render.host n
        s.world.sources = w.sources
        ∧ (∃ e, s.world.engines[i]? = some e ∧ e₀.LoadsLike e
          ∧ s.world.LoadsAsKept i e (loadsOf i (RenderState.events start n ++ L)))
        ∧ (activeOn (s.step Render.host).stack <:+ activeOn s.stack
          ∨ ∃ r, activeOn (s.step Render.host).stack = r :: activeOn s.stack ∧ s.Calls r)
        ∧ ∀ c error, s.viewCall? = some c →
          (s.world.engines[c.bridge.engine]?.any Engine.isHeld) = true →
          s.world.load c.bridge.engine c.target = .error error →
            s.step Render.host = Script.State.turn { s with stack := c.stack }
              (Render.failView s.heap s.world error) := by
  have hstart : Stage.KeepsLoads i e₀ ⟨[], [], w₀⟩ :=
    ⟨e₀, he₀, e₀.loadsLike_refl, fun _ => hnew, fun _ uri => by rw [hnew]; rfl,
      by rw [hnew]; exact .nil, fun uri view hget => by rw [hnew] at hget; cases hget⟩
  have hkeeps : Stage.KeepsLoads i e₀ ⟨L, [], w⟩ :=
    h.keeps (C := fun _ => True) (fun _ _ => trivial) (fun _ => Act.keepsLoads) Outside.keepsLoads
      hw hstart
  have hend {L : List ViewEvent} {R : List Pending} {w : World}
      (hstage : Stage.KeepsLoads i e₀ ⟨L, R, w⟩) :
      ∃ e, w.engines[i]? = some e ∧ e₀.LoadsLike e ∧ w.LoadsAsKept i e (loadsOf i L) := by
    obtain ⟨e, he, hkept⟩ := hstage
    exact ⟨e, he, hkept.like, hkept.loadsAsKept he⟩
  have hsettled := (h.reached hw).settled
  refine ⟨hend hkeeps, fun engine e₁ he₁ view sink attributes children n => ?_⟩
  refine ⟨hsettled.sources_rendering he₁ view sink attributes children n,
    hend (R := rendersOn
      ((w.rendering engine view sink attributes children).stepMany Render.host n).stack) ?_, ?_, ?_⟩
  · exact keeps_rendering (C := fun _ => True) (fun _ => Act.keepsLoads) Outside.keepsLoads
      hsettled he₁ view sink attributes children n (fun _ _ => trivial) hkeeps
  · exact RenderState.active_step (hsettled.underway he₁ view sink attributes children n).sound
  · intro c error hcall hheld hl
    rw [(RenderState.viewCall?_spec hcall).2, ← ViewCall.turn_of_error hheld hl]
    rfl

namespace World

/-- What happens when the page is loaded and rendered in a world where the sources are taken away
    then. -/
def pageEvents (w : World) (view : Nat) (sources : Sources) : List ViewEvent :=
  RenderState.events (w.rendering 0 view 0 [] none) 500 ++ [.loaded 0 "/page.xview" view sources]

/-- Tell whether the page loads and its render comes to an end, when it has loaded the box. -/
def loadsBox (w : World) : Bool :=
  w.engines[0]?.any (fun e => e.cache.isEmpty && e.config.cacheViews)
    && match w.load 0 "/page.xview" with
      | .ok (view, w') => w'.engines[0]?.isSome
        && ((w'.rendering 0 view 0 [] none).stepMany Render.host 500).outcome?.isSome
        && lastView? "/box.xview" (loadsOf 0 (w'.pageEvents view w.sources)) == some 1
        && ((loadsOf 0 (w'.pageEvents view w.sources)).map Load.uri).dedup.length == 2
      | .error _ => false

/-- The box, which the page has loaded, is loaded again when there are no sources any more. -/
theorem keepsViews_boxed : ∃ (w : World) (e : Engine) (L : List ViewEvent),
    boxed.Calls (fun _ => True) L w ∧ w.sources.stores = #[] ∧ w.load 0 "/box.xview" = .ok (1, w)
      ∧ w.engines[0]? = some e ∧ e.cache.length = 2 := by
  have hcheck : loadsBox boxed = true := by decide +kernel
  have hw := reached_boxed
  generalize boxed = w₀ at *
  unfold loadsBox at hcheck
  rw [Bool.and_eq_true, Option.any_eq_true] at hcheck
  obtain ⟨⟨e₀, he₀, hnew⟩, hcheck⟩ := hcheck
  obtain ⟨hcache, hon⟩ := Bool.and_eq_true_iff.1 hnew
  split at hcheck
  · next view w₁ hl =>
    simp only [Bool.and_eq_true, beq_iff_eq] at hcheck
    obtain ⟨⟨⟨hengine, hends⟩, hbox⟩, hcount⟩ := hcheck
    obtain ⟨e₁, he₁⟩ := Option.isSome_iff_exists.1 hengine
    obtain ⟨o, ho⟩ := Option.isSome_iff_exists.1 hends
    have hrender := render_eq he₁ 500 view 0 [] none
    dsimp only at hrender
    rw [ho] at hrender
    have hcalls := ((Calls.start (Q := fun _ => True).load hl).render he₁ (fun _ => trivial)
      hrender).sources {}
    obtain ⟨⟨e, he, hlike, hloads⟩, -⟩ := World.Calls.keepsViews hw he₀ (List.isEmpty_iff.1 hcache)
      hcalls
    have hon' : e.config.cacheViews = true := hlike.config ▸ hon
    refine ⟨_, e, _, hcalls, rfl, hloads.again hon' _ _ hbox, he, ?_⟩
    rw [hloads.count, if_pos hon']
    exact hcount
  · cases hcheck

end World

end ScriptedViews

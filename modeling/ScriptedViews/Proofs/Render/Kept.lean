import ScriptedViews.Proofs.Document.DeclaredAttributes
import ScriptedViews.Proofs.Render.Reached

set_option autoImplicit false

/-! # Views that engines keep

An engine keeps views of its own only, each for the URI that it comes from, whatever calls come and
whatever their code does. So a view that it loads is never rejected as one of another engine. No view
declares an attribute twice. -/

namespace ScriptedViews

/-! ## Declared attributes -/

namespace OrderedMap

variable {α β : Type} [BEq α] [LawfulBEq α]

omit [LawfulBEq α] in
theorem mem_keys_insert {m : OrderedMap α β} {key k : α} {value : β}
    (h : k ∈ (m.insert key value).map Prod.fst) : k = key ∨ k ∈ m.map Prod.fst := by
  induction m with
  | nil => exact .inl (List.mem_singleton.1 h)
  | cons e m ih =>
    obtain ⟨k', v⟩ := e
    rw [insert] at h
    split at h
    · exact .inr h
    · rcases List.mem_cons.1 h with rfl | h
      · exact .inr List.mem_cons_self
      · exact (ih h).imp_right (List.mem_cons_of_mem k')

theorem nodup_keys_insert {m : OrderedMap α β} (h : (m.map Prod.fst).Nodup) (key : α) (value : β) :
    ((m.insert key value).map Prod.fst).Nodup := by
  induction m with
  | nil => exact List.nodup_cons.2 ⟨List.not_mem_nil, .nil⟩
  | cons e m ih =>
    obtain ⟨k, v⟩ := e
    obtain ⟨hk, hm⟩ := List.nodup_cons.1 h
    rw [insert]
    split
    · exact h
    · next hne =>
      refine List.nodup_cons.2 ⟨fun hmem => ?_, ih hm⟩
      rcases mem_keys_insert hmem with rfl | hmem
      · exact hne (beq_self_eq_true _)
      · exact hk hmem

end OrderedMap

/-- A view that has been made declares each attribute once. -/
theorem nodup_defaults_of_compile {engine : Nat} {uri text : String} {v : View}
    (h : View.compile engine uri text = .ok v) : (v.defaults.map Prod.fst).Nodup := by
  obtain ⟨root, -, h⟩ := Expansion.exists_ok_of_bind h
  obtain ⟨namespaces, hnamespaces, h⟩ := Expansion.exists_ok_of_bind h
  obtain ⟨source, -, h⟩ := Expansion.exists_ok_of_bind h
  cases h
  have hresolve := Expansion.ok_of_mapError hnamespaces
  unfold Element.namespaces at hresolve
  split at hresolve
  · next htable =>
    cases hresolve
    exact Mention.nodup_templateAttributes htable
  · cases hresolve

theorem nodup_defaults_of_readView {w : World} {engine : Nat} {e : Engine} {uri : String} {v : View}
    (h : w.readView engine e uri = .ok v) : (v.defaults.map Prod.fst).Nodup := by
  obtain ⟨bytes, -, h⟩ := Expansion.exists_ok_of_bind h
  obtain ⟨text, -, h⟩ := Expansion.exists_ok_of_bind h
  obtain ⟨_, -, h⟩ := Expansion.exists_ok_of_bind h
  exact nodup_defaults_of_compile h

/-! ## Views of a world -/

/-- Whether the views that engines keep are there, of that engine and from the URI that they are kept
    for, and no view declares an attribute twice. -/
structure World.HasOwnViews (w : World) : Prop where
  kept : ∀ (i : Nat) (e : Engine) (uri : String) (view : Nat), w.engines[i]? = some e →
    e.cache.get? uri = some view → ∃ v, w.views[view]? = some v ∧ v.engine = i ∧ v.uri = uri
  declared : ∀ (view : Nat) (v : View), w.views[view]? = some v →
    (v.defaults.map Prod.fst).Nodup

namespace World.HasOwnViews

variable {w w' : World} {runtime : Nat}

theorem congr (h : w.HasOwnViews) (hengines : w'.engines = w.engines) (hviews : w'.views = w.views) :
    w'.HasOwnViews where
  kept i e uri view he := by
    rw [hviews]
    exact h.kept i e uri view (hengines ▸ he)
  declared view v hv := h.declared view v (hviews ▸ hv)

/-- An engine may keep fewer views. -/
theorem modifyEngine (h : w.HasOwnViews) (i : Nat) {f : Engine → Engine}
    (hf : ∀ e uri view, (f e).cache.get? uri = some view → e.cache.get? uri = some view) :
    (w.modifyEngine i f).HasOwnViews where
  kept j e uri view he hget := by
    rw [getElem?_modifyEngine] at he
    split at he
    · obtain ⟨e, hold, rfl⟩ := Option.map_eq_some_iff.1 he
      exact h.kept j e uri view hold (hf e uri view hget)
    · exact h.kept j e uri view he hget
  declared := h.declared

theorem getElem?_modifyView (w : World) (view other : Nat) (f : View → View) :
    (w.modifyView view f).views[other]? =
      if view = other then w.views[other]?.map f else w.views[other]? :=
  Array.getElem?_modify

/-- Preparing the code of a view changes nothing of that. -/
theorem prepared (h : w.HasOwnViews) (view : Nat) (x : Script.Executable) :
    (w.modifyView view fun v => v.prepared x).HasOwnViews where
  kept i e uri other he hget := by
    obtain ⟨v, hv, hown⟩ := h.kept i e uri other he hget
    rw [getElem?_modifyView, hv]
    split
    · exact ⟨_, rfl, hown⟩
    · exact ⟨v, rfl, hown⟩
  declared other v hv := by
    rw [getElem?_modifyView] at hv
    split at hv
    · obtain ⟨v, hold, rfl⟩ := Option.map_eq_some_iff.1 hv
      exact h.declared other v hold
    · exact h.declared other v hv

theorem addView (h : w.HasOwnViews) {v : View} (hv : (v.defaults.map Prod.fst).Nodup) :
    (w.addView v).2.HasOwnViews where
  kept i e uri view he hget := by
    obtain ⟨v', hv', hown⟩ := h.kept i e uri view he hget
    have hlt := (Array.getElem?_eq_some_iff.1 hv').1
    refine ⟨v', ?_, hown⟩
    rw [World.addView, Array.getElem?_push, if_neg (Nat.ne_of_lt hlt), hv']
  declared view v' hv' := by
    rw [World.addView, Array.getElem?_push] at hv'
    split at hv'
    · cases hv'
      exact hv
    · exact h.declared view v' hv'

/-- A view that is loaded is one of the engine, and what engines keep stays their own. -/
theorem load (h : w.HasOwnViews) {i view : Nat} {uri : String}
    (hl : w.load i uri = .ok (view, w')) :
    w'.HasOwnViews ∧ ∃ v, w'.views[view]? = some v ∧ v.engine = i ∧ v.uri = uri := by
  obtain ⟨rfl, e, he, hget⟩ | ⟨e, v, he, hread, rfl, rfl⟩ := load_cases hl
  · exact ⟨h, h.kept i e uri view he hget⟩
  have hadd := h.addView (nodup_defaults_of_readView hread)
  obtain ⟨huri, hengine, -, -⟩ := Expansion.isRead_of_readView hread
  have hnew : (w.addView v).2.views[w.views.size]? = some v := Array.getElem?_push_size
  split
  · refine ⟨⟨fun j e' uri' view' he' hget => ?_, hadd.declared⟩, v, hnew, hengine, huri⟩
    rw [getElem?_modifyEngine] at he'
    split at he'
    · next hij =>
      obtain ⟨e', hold, rfl⟩ := Option.map_eq_some_iff.1 he'
      rw [OrderedMap.get?_insert] at hget
      split at hget
      · next hkey =>
        cases hget
        exact ⟨v, hnew, hengine.trans hij, huri.trans (beq_iff_eq.1 hkey).symm⟩
      · exact hadd.kept j e' uri' view' hold hget
    · exact hadd.kept j e' uri' view' he' hget
  · exact ⟨hadd, v, hnew, hengine, huri⟩

end World.HasOwnViews

section Deeds

variable {runtime : Nat} {makes : Scene → Nat → Prop} {s s' : Scene}

theorem Deed.hasOwnViews (hd : Deed runtime makes s s') (h : s.world.HasOwnViews) :
    s'.world.HasOwnViews := by
  cases hd with
  | taken | back => exact h.modifyEngine _ fun _ _ _ hget => hget
  | published view x => exact h.prepared view x
  | compiled | named => exact h.congr rfl rfl
  | wrote sinks => exact h.congr rfl rfl
  | loaded hl => exact (h.load hl).1
  | _ => exact h

theorem Deeds.hasOwnViews (hd : Deeds runtime makes s s') (h : s.world.HasOwnViews) :
    s'.world.HasOwnViews := by
  induction hd with
  | refl => exact h
  | tail _ hd ih => exact hd.hasOwnViews ih

end Deeds

namespace World

variable {w w' : World} {runtime : Nat}

/-! ## Calls from outside -/

theorem HasOwnViews.addEngine (h : w.HasOwnViews) {e : Engine} (he : e.cache = []) :
    (w.addEngine e).HasOwnViews where
  kept i e' uri view he' hget := by
    rw [World.addEngine, Array.getElem?_push] at he'
    split at he'
    · cases he'
      rw [he] at hget
      cases hget
    · exact h.kept i e' uri view he' hget
  declared := h.declared

/-- What comes to an end on the heap of a runtime leaves engines with views of their own. -/
theorem HasOwnViews.perform (h : w.HasOwnViews) (hw : w.Settled)
    (hruntime : runtime < w.runtimes.size) {turn : BridgeHeap → World → EngineTurn}
    (hdoes : Does runtime (fun _ _ => True) (w.sceneAt runtime) []
      (turn (w.heapOf runtime) (w.withoutHeap runtime)))
    {fuel : Nat} {o : Except RaisedError (List Script.Value)}
    (hend : w.perform fuel runtime turn = (some o, w')) : w'.HasOwnViews := by
  obtain ⟨n, -, rfl⟩ := exists_of_perform hend
  have hproper := hw.properAt hruntime
  have hunderway := (underway_starting hproper hdoes).stepMany hproper n
    fun _ _ _ _ _ _ _ _ _ => trivial
  exact (Deeds.hasOwnViews hunderway.deeds (h.congr rfl rfl)).congr rfl rfl

theorem HasOwnViews.makeMany (count : Nat) (h : w.HasOwnViews) (hw : w.Settled)
    (hruntime : runtime < w.runtimes.size) {fuel : Nat}
    {r : Except (Option ScriptError) (List Nat)}
    (hmany : Pool.makeMany (contextKind fuel runtime) count w = (r, w')) (hr : r ≠ .error none) :
    w'.HasOwnViews := by
  induction count generalizing w w' r with
  | zero =>
    cases hmany
    exact h
  | succ count ih =>
    obtain ⟨o, w₁, hnew, hcases⟩ := makeMany_succ hmany hr
    obtain ⟨hw₁, hsize⟩ := hw.newContext hruntime hnew
    obtain ⟨o', ho', -⟩ := Option.map_eq_some_iff.1 (congrArg Prod.fst hnew)
    have hworld : (w.perform fuel runtime contextTurn).2 = w₁ := congrArg Prod.snd hnew
    have h₁ := h.perform hw hruntime (does_contextTurn _ _) (Prod.ext ho' hworld)
    obtain ⟨e, -, rfl⟩ | ⟨c, r₂, -, hmany₂, hr₂, -⟩ := hcases
    · exact h₁
    · exact ih h₁ hw₁ (hsize ▸ hruntime) hmany₂ hr₂

/-- An engine that is new keeps no views. -/
theorem HasOwnViews.createEngine (h : w.HasOwnViews) (hw : w.Settled)
    {registry registry' : Registry} {s : Setup}
    (hregistry : ∀ e ∈ registry, e.2 < w.runtimes.size)
    {fuel : Nat} {r : Except ViewError Nat}
    (hc : w.createEngine fuel registry s = (some r, registry', w')) : w'.HasOwnViews := by
  obtain rfl | ⟨runtime, registry₁, w₁, hruntime, r₂, w₂, hmany, hr₂, hend⟩ := createEngine_cases hc
  · exact h
  obtain ⟨hw₁, hlt, -⟩ := hw.runtimeFor hregistry hruntime
  have h₁ : w₁.HasOwnViews := by
    unfold World.runtimeFor at hruntime
    dsimp only at hruntime
    split at hruntime
    · cases hruntime
      exact h
    · split at hruntime
      · cases hruntime
        exact h.congr rfl rfl
      · cases hruntime
  have h₂ := h₁.makeMany _ hw₁ hlt hmany hr₂
  rcases hend with ⟨e, -, rfl⟩ | ⟨contexts, e, -, -, hcache, -, rfl⟩
  · exact h₂
  · exact h₂.addEngine hcache

/-- At any time of a render engines keep views of their own only. -/
theorem HasOwnViews.rendering (h : w.HasOwnViews) (hw : w.Settled) {engine : Nat} {e : Engine}
    (he : w.engines[engine]? = some e) (view sink : Nat) (attributes : List (String × Json))
    (children : Option String) (n : Nat) :
    ((w.rendering engine view sink attributes children).stepMany Render.host n).world.HasOwnViews := by
  obtain ⟨hengines, hviews, -⟩ := w.importAttributes_same (w.runtimeOf engine) attributes
  exact Deeds.hasOwnViews (hw.underway he view sink attributes children n).deeds
    (h.congr hengines hviews)

theorem HasOwnViews.render (h : w.HasOwnViews) (hw : w.Settled) {engine : Nat} {e : Engine}
    (he : w.engines[engine]? = some e) (view sink : Nat) (attributes : List (String × Json))
    (children : Option String) {fuel : Nat} {r : Except ViewError Unit}
    (hr : w.render fuel engine view sink attributes children = (some r, w')) : w'.HasOwnViews := by
  obtain ⟨o, ho⟩ := perform_of_render he view sink attributes children hr
  obtain ⟨hgiven, hlt, -⟩ := hw.given he attributes
  obtain ⟨hengines, hviews, -⟩ := w.importAttributes_same (w.runtimeOf engine) attributes
  exact HasOwnViews.perform (h.congr hengines hviews) hgiven hlt
    (does_rendering he view sink attributes children _) ho

theorem Reached.hasOwnViews {P : BridgeHeap → Prop} (h : w.Reached P) : w.HasOwnViews := by
  induction h with
  | start => exact ⟨fun i e uri view he => by simp at he, fun view v hv => by simp at hv⟩
  | sources h sources ih => exact ih.congr rfl rfl
  | sink h s ih => exact ih.congr rfl rfl
  | engine h hregistry hmaker hend ih => exact ih.createEngine h.settled hregistry hend
  | release h engine ih => exact ih.modifyEngine engine fun _ _ _ hget => hget
  | load h hend ih => exact (ih.load hend).1
  | source h hend ih =>
    obtain ⟨v, hv, rfl⟩ := views_viewFromSource hend
    exact ih.addView (nodup_defaults_of_compile hv)
  | clear h engine ih => exact ih.modifyEngine engine fun _ _ _ hget => by cases hget
  | render h he hmaker hend ih => exact ih.render h.settled he _ _ _ _ hend

end World

end ScriptedViews

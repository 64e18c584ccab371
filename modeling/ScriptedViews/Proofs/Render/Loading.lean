import ScriptedViews.Proofs.Render.Course

set_option autoImplicit false

/-! # Loading plain views

A view that is loaded is the one of the store, whether it has been kept or is read now, and its code
is that of the statements of its nodes. -/

namespace ScriptedViews

namespace OrderedMap

variable {α β : Type} [BEq α] [LawfulBEq α]

theorem get?_insert (m : OrderedMap α β) (key other : α) (value : β) :
    (m.insert key value).get? other = if other == key then some value else m.get? other := by
  induction m with
  | nil =>
    rw [insert, get?, List.lookup_cons]
    cases other == key <;> rfl
  | cons e m ih =>
    obtain ⟨k, v⟩ := e
    rw [insert]
    by_cases hk : k == key
    · rw [if_pos hk, eq_of_beq hk, get?, List.lookup_cons, get?, List.lookup_cons]
      cases other == key <;> rfl
    · rw [get?] at ih ⊢
      rw [if_neg hk, List.lookup_cons, ih, get?, get?, List.lookup_cons]
      cases hother : other == k with
      | true =>
        rw [eq_of_beq hother]
        simp only [if_neg hk]
      | false => rfl

end OrderedMap

/-- Loading a view runs nothing, writes nothing and changes no sources. -/
theorem World.load_leaves {w w' : World} {engine view : Nat} {uri : String}
    (h : w.load engine uri = .ok (view, w')) :
    w'.runtimes = w.runtimes ∧ w'.sources = w.sources ∧ w'.sinks = w.sinks := by
  unfold World.load at h
  split at h
  · cases h
  · split at h
    · cases h
      exact ⟨rfl, rfl, rfl⟩
    · split at h
      · cases h
      · dsimp only at h
        split at h <;> cases h <;> exact ⟨rfl, rfl, rfl⟩

namespace Expansion

open Code (Directive)

/-- What a view is when it has been read. -/
structure IsRead (engine : Nat) (uri : String) (v : View) : Prop where
  uri : v.uri = uri
  engine : v.engine = engine
  executable : v.executable = none
  source : Code.generate v.root v.namespaces v.uri = .ok v.source

theorem exists_ok_of_bind {ε α β : Type} {x : Except ε α} {f : α → Except ε β} {b : β}
    (h : x >>= f = .ok b) : ∃ a, x = .ok a ∧ f a = .ok b := by
  cases x with
  | error e => cases h
  | ok a => exact ⟨a, rfl, h⟩

theorem ok_of_mapError {ε ε' α : Type} {f : ε → ε'} {x : Except ε α} {a : α}
    (h : x.mapError f = .ok a) : x = .ok a := by
  cases x with
  | error e => cases h
  | ok a' => exact congrArg _ (Except.ok.inj h)

theorem isRead_of_compile {engine : Nat} {uri text : String} {v : View}
    (h : View.compile engine uri text = .ok v) : IsRead engine uri v := by
  obtain ⟨root, -, h⟩ := exists_ok_of_bind h
  obtain ⟨namespaces, -, h⟩ := exists_ok_of_bind h
  obtain ⟨source, hsource, h⟩ := exists_ok_of_bind h
  cases h
  exact ⟨rfl, rfl, rfl, ok_of_mapError hsource⟩

theorem isRead_of_readView {w : World} {engine : Nat} {e : Engine} {uri : String} {v : View}
    (h : w.readView engine e uri = .ok v) : IsRead engine uri v := by
  obtain ⟨bytes, -, h⟩ := exists_ok_of_bind h
  obtain ⟨text, -, h⟩ := exists_ok_of_bind h
  obtain ⟨_, -, h⟩ := exists_ok_of_bind h
  exact isRead_of_compile h

/-- The code of a plain view is that of its statements. -/
theorem IsRead.source_eq {engine : Nat} {uri : String} {v : View} (h : IsRead engine uri v)
    (hplain : IsPlain v) : v.source = Directive.sources (directivesOf v) := by
  have hsource := h.source
  rw [Code.generate_eq, Code.nodeTokens_of_isPlainNode _ _ false _ hplain.root, Except.map,
    Except.ok.injEq, ← Code.emit_empty_literal, Directive.emit_map_token] at hsource
  exact hsource.symm

/-! ## Loads -/

variable {views : Store} {engine : Nat} {base : Engine} {h : BridgeHeap} {w : World}

/-- A view that has been read may be put into the world, and may be kept by the engine. -/
theorem Ready.addView {uri : String} {v : View} (hr : Ready views engine base h w)
    (hv : views uri = some v) (hnone : v.executable = none) (keeps : Bool) :
    Ready views engine base h (if keeps then
        (w.addView v).2.modifyEngine engine fun e =>
          { e with cache := e.cache.insert uri w.views.size }
      else (w.addView v).2) := by
  obtain ⟨cache, pool, hengine, hcache⟩ := hr.present
  have hnew : (w.views.push v)[w.views.size]? = some { v with executable := v.executable } :=
    Array.getElem?_push_size
  have hold : ∀ uri' i, cache.get? uri' = some i → ∃ v' x, views uri' = some v'
      ∧ (w.views.push v)[i]? = some { v' with executable := x } := by
    intro uri' i hi
    obtain ⟨v', x, hv', hget⟩ := hcache uri' i hi
    refine ⟨v', x, hv', ?_⟩
    have hlt := (Array.getElem?_eq_some_iff.1 hget).1
    rw [Array.getElem?_push_lt hlt, ← Array.getElem?_eq_getElem hlt, hget]
  have hmade : ∀ (i : Nat) (u : View), (w.views.push v)[i]? = some u →
      (∃ uri v₀ x, views uri = some v₀ ∧ u = { v₀ with executable := x }) ∧ HasOwnCode h u := by
    intro i u hu
    rw [Array.getElem?_push] at hu
    by_cases hi : i = w.views.size
    · rw [if_pos hi, Option.some.injEq] at hu
      subst hu
      exact ⟨⟨uri, v, v.executable, hv, rfl⟩, by rw [HasOwnCode, hnone]; trivial⟩
    · rw [if_neg hi] at hu
      exact hr.made i u hu
  cases keeps with
  | false => exact ⟨⟨cache, pool, hengine, hold⟩, hmade, hr.stored, hr.runs, hr.ground⟩
  | true =>
    simp only [if_true]
    refine ⟨⟨cache.insert uri w.views.size, pool, ?_, fun uri' i hi => ?_⟩, hmade, hr.stored,
      hr.runs, ?_⟩
    · simp only [World.modifyEngine, World.addView, Array.getElem?_modify, if_true, hengine,
        Option.map_some]
    · rw [OrderedMap.get?_insert] at hi
      by_cases heq : uri' == uri
      · rw [if_pos heq, Option.some.injEq] at hi
        rw [eq_of_beq heq, ← hi]
        exact ⟨v, _, hv, hnew⟩
      · rw [if_neg heq] at hi
        exact hold uri' i hi
    · have hidle := idleOf_modifyEngine (w := (w.addView v).2) hengine
        fun e => { e with cache := e.cache.insert uri w.views.size }
      rw [hidle]
      have := hr.ground
      rwa [idleOf, hengine] at this

/-- A load of a view of the store gives the view, and leaves the world ready. -/
theorem Ready.load {uri : String} {v : View} (hr : Ready views engine base h w)
    (hv : views uri = some v) : ∃ i w₁ x, w.load engine uri = .ok (i, w₁)
      ∧ w₁.views[i]? = some { v with executable := x } ∧ w₁.sinks = w.sinks
      ∧ w₁.runtimes = w.runtimes ∧ Ready views engine base h w₁
      ∧ idleOf w₁ engine = idleOf w engine := by
  obtain ⟨cache, pool, hengine, hcache⟩ := hr.present
  have hread : w.readView engine { base with cache, pool } uri = .ok v := hr.stored uri v hv
  cases hkept : (if base.config.cacheViews then cache.get? uri else none) with
  | some i =>
    have hget : cache.get? uri = some i := by
      by_cases hcaches : base.config.cacheViews
      · rwa [if_pos hcaches] at hkept
      · simp [hcaches] at hkept
    obtain ⟨v', x, hv', hview⟩ := hcache uri i hget
    rw [hv, Option.some.injEq] at hv'
    subst hv'
    refine ⟨i, w, x, ?_, hview, rfl, rfl, hr, rfl⟩
    simp only [World.load, hengine, hkept]
  | none =>
    have hnone := (isRead_of_readView hread).executable
    have hready := hr.addView hv hnone base.config.cacheViews
    refine ⟨w.views.size, _, v.executable, ?_, ?_, ?_, ?_, hready, ?_⟩
    · simp only [World.load, hengine, hkept, hread]
      cases base.config.cacheViews <;> rfl
    · cases base.config.cacheViews <;> exact Array.getElem?_push_size
    · cases base.config.cacheViews <;> rfl
    · cases base.config.cacheViews <;> rfl
    · cases base.config.cacheViews with
      | false => rfl
      | true =>
        have hidle := idleOf_modifyEngine (w := (w.addView v).2) hengine
          fun e => { e with cache := e.cache.insert uri w.views.size }
        simp only [if_true]
        rw [hidle, idleOf, hengine]

end Expansion

end ScriptedViews

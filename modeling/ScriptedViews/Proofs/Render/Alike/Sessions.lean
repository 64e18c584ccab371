import ScriptedViews.Proofs.Render.Alike.Operations
import ScriptedViews.Proofs.Render.Alike.Settings

set_option autoImplicit false

/-! # Sessions

What an engine is asked to do in the course of time. Whatever the settings, the same comes of it, as
long as the machine goes about its renders quietly. -/

namespace ScriptedViews

open Script (Value Heap Matching State ExceptAlike)
open Script.State (Quiet)

/-! ## Worlds with their heaps -/

section Worlds

variable {most : Nat} {compile compile' : Bool} {held held' : Held} {R : Matching} {w w' : World}

/-- Heaps that are alike stay so, whatever views are held on to. -/
theorem heapAlike_held {h h' : BridgeHeap}
    (hh : Heap.Alike (settings most compile compile' held).likeness R h h') :
    Heap.Alike (settings most compile compile' held').likeness R h h' :=
  { hh with
    objects := by
      intro a b hr
      obtain ⟨o, o', ho, ho', halike⟩ := hh.objects hr
      refine ⟨o, o', ho, ho', ?_⟩
      cases halike with
      | host hb => exact .host hb
      | failure cause => exact .failure cause }

/-- Views and tables that stand for each other may be held on to. -/
theorem World.Alike.hold (h : World.Alike most compile compile' held R w w')
    (hview : ∀ {i j}, held'.view i j → R.hosted i j ∨ held.view i j)
    (htable : ∀ {a b}, held'.table a b → R.table a b) :
    World.Alike most compile compile' held' R w w' :=
  { h with
    views := fun hr => h.views (hr.elim .inl hview)
    tables := htable }

theorem World.Alike.modifyRuntime (h : World.Alike most compile compile' held R w w')
    (f f' : Runtime → Runtime) :
    World.Alike most compile compile' held R (w.modifyRuntime 0 f) (w'.modifyRuntime 0 f') :=
  { h with
    left := h.left.modifyRuntime 0 f
    right := h.right.modifyRuntime 0 f' }

theorem settings_hosts : (settings most compile compile' held).Hosts where
  runs h := ⟨h.left.runs, h.right.runs⟩
  modifyRuntime h f f' := h.modifyRuntime f f'

theorem World.Tidy.runtimeOf_eq {known : Nat → Script.Closure → Prop} (ht : w.Tidy known most compile)
    (engine : Nat) : w.runtimeOf engine = 0 := by
  unfold World.runtimeOf
  cases he : w.engines[engine]? with
  | none => rfl
  | some e => exact ht.runtime he

namespace World.Paired

variable (hp : World.Paired (settings most compile compile' held) R w w')

include hp

/-- Views that are loaded stand for each other, and may be held on to. -/
theorem load (engine : Nat) (uri : String) :
    ExceptAlike (fun r r' => World.Paired (settings most compile compile'
        { held with view := fun x y => held.view x y ∨ x = r.1 ∧ y = r'.1 }) (R.withHosted r.1 r'.1)
        r.2 r'.2)
      (w.load engine uri) (w'.load engine uri) := by
  have hload := hp.world.load engine uri
  cases hx : w.load engine uri <;> cases hx' : w'.load engine uri <;> rw [hx, hx'] at hload <;>
    cases hload
  · exact .error _
  · rename_i r r' hworld
    have hheap : w.heapOf 0 = r.2.heapOf 0 ∧ w'.heapOf 0 = r'.2.heapOf 0 := by
      simp only [World.heapOf, (World.load_leaves hx).1, (World.load_leaves hx').1, and_self]
    have hheaps := hp.heap.withHosted r.1 r'.1
    rw [hheap.1, hheap.2] at hheaps
    exact .ok ⟨heapAlike_held hheaps, hworld.hold
      (fun hr => hr.elim .inr fun hnew => .inl (.inr hnew)) fun hr => hworld.tables hr⟩

theorem clearCache (engine : Nat) :
    World.Paired (settings most compile compile' held) R (w.clearCache engine) (w'.clearCache engine) := by
  have hget : ∀ (u : World) (i : Nat), (u.clearCache engine).engines[i]?
      = u.engines[i]?.map fun e => { e with cache := if engine = i then [] else e.cache } := by
    intro u i
    simp only [World.clearCache, World.modifyEngine, Array.getElem?_modify]
    split
    · rfl
    · simp
  have hstays : ∀ u : World, u.Stays (u.clearCache engine) := by
    intro u
    refine ⟨fun {_ v} hv => ⟨v.executable, hv⟩, fun i => ?_, rfl, rfl⟩
    rw [hget]
    cases u.engines[i]? with
    | none => exact .none
    | some e => exact .some ⟨_, rfl⟩
  have htidy : ∀ {known : Nat → Script.Closure → Prop} {b : Bool} {u : World},
      u.Tidy known most b → (u.clearCache engine).Tidy known most b := by
    intro known b u hu
    refine ⟨hu.runs, fun he => ?_, fun he => ?_, fun {i e uri k} he hk => ?_,
      fun hv hx => hu.prepared hv hx⟩
    · rw [hget] at he
      obtain ⟨e₀, he₀, rfl⟩ := Option.map_eq_some_iff.1 he
      have hruntime := hu.runtime he₀
      exact hruntime
    · rw [hget] at he
      obtain ⟨e₀, he₀, rfl⟩ := Option.map_eq_some_iff.1 he
      have hcompiles := hu.compiles he₀
      exact hcompiles
    · rw [hget] at he
      obtain ⟨e₀, he₀, rfl⟩ := Option.map_eq_some_iff.1 he
      have hcached : e₀.cache.get? uri = some k := by
        dsimp only at hk
        split at hk
        · cases hk
        · exact hk
      have hkept := hu.kept he₀ hcached
      exact hkept
  exact ⟨hp.heap, hp.world.stays (hstays w) (hstays w') (.refl R) (htidy hp.world.left)
    (htidy hp.world.right)⟩

/-- Two machines start with renders of views that are held on to. -/
theorem follows_start (hmost : compile = true → 0 < most ∧ most ≤ 197) {i j : Nat}
    (hheld : held.view i j) (engine sink : Nat) (attributes : List (String × Json))
    (children : Option String) :
    Script.State.Follows Render.host (settings most compile compile' held).likeness
      (w.renderStart engine i sink attributes children)
      (w'.renderStart engine j sink attributes children) := by
  refine hp.follows_renderStart settings_hosts
    (settings_keeps (fun hc => (hmost hc).2) compile' held) (fun {S u u'} hworld _ _ => ?_)
    (isWithin_turn rfl rfl (fun hc => (hmost hc).1) _ _)
  obtain ⟨v, v', hv, hv', hfits⟩ := hworld.views (.inr hheld)
  exact hworld.withHosted hv hv' hfits

end World.Paired

end Worlds

/-! ## Pairs of worlds -/

variable {most engine : Nat} {compile compile' : Bool}

/-- Whether two worlds with their heaps are alike but for the settings of their engines, some of the
    views that have been loaded standing for each other. -/
def SettingsPair (most : Nat) (compile compile' : Bool) (held : Nat → Nat → Prop) (w w' : World) :
    Prop :=
  ∃ R, World.Paired (settings most compile compile' { view := held }) R w w'

theorem settings_pairing (hmost : compile = true → 0 < most ∧ most ≤ 197) :
    World.Pairing engine (Quiet Render.host (IsWithin compile most))
      (SettingsPair most compile compile') where
  sinks := fun ⟨_, hp⟩ => hp.world.sinks
  addSink := fun ⟨R, hp⟩ sink =>
    ⟨R, hp.addSink (settings_keeps (fun hc => (hmost hc).2) compile' _) sink⟩
  load := fun {held w w'} ⟨R, hp⟩ uri => by
    have hload := hp.load engine uri
    generalize w.load engine uri = x at hload ⊢
    generalize w'.load engine uri = x' at hload ⊢
    cases hload with
    | error e => exact .error e
    | ok hpaired =>
      obtain ⟨v, v', hv, hv', hfits⟩ := hpaired.world.views (.inr (.inr ⟨rfl, rfl⟩))
      refine .ok ⟨⟨_, hpaired⟩, ?_⟩
      rw [hv, hv']
      exact congrArg some hfits.agrees
  clearCache := fun ⟨R, hp⟩ => ⟨R, hp.clearCache engine⟩
  render := fun {_ _ _ _ i j sink attributes children _ _} ⟨_, hp⟩ hheld hq h => by
    have hfollows := hp.follows_start hmost hheld engine sink attributes children
    obtain ⟨n, w₁', S, hpaired, hn⟩ := World.Paired.render settings_hosts
      (settings_keeps (fun hc => (hmost hc).2) compile' _) (hp.world.left.runtimeOf_eq engine)
      (hp.world.right.runtimeOf_eq engine) hq hfollows h
    exact ⟨n, w₁', ⟨S, hpaired⟩, hn⟩
  render_ends := fun {_ _ _ _ i j sink attributes children _ _} ⟨_, hp⟩ hheld hq h =>
    World.Paired.render_ends (settings_keeps (fun hc => (hmost hc).2) compile' _)
      (hp.world.left.runtimeOf_eq engine) (hp.world.right.runtimeOf_eq engine) hq
      (hp.follows_start hmost hheld engine sink attributes children) h

/-! ## Sessions -/

namespace Session

variable {s s' : Session} {o : Operation} {os : List Operation}

/-- Whether the machine goes about an operation quietly. -/
def IsQuiet (compile : Bool) (most engine : Nat) (s : Session) : Operation → Prop
  | .render view attributes children limit => ∀ i, s.loaded[view]? = some i →
    Quiet Render.host (IsWithin compile most) ((s.world.addSink { limit }).2.renderStart engine i
      (s.world.addSink { limit }).1 attributes children)
  | _ => True

/-- Whether the machine goes about one operation after the other quietly. -/
def AreQuiet (compile : Bool) (most engine : Nat) : List Operation → Session → Prop
  | [], _ => True
  | o :: os, s => s.IsQuiet compile most engine o
    ∧ ∀ r s₁, EndsAs (fun fuel => s.perform fuel engine o) (r, s₁) →
      AreQuiet compile most engine os s₁

theorem isQuiet_iff : s.IsQuiet compile most engine o
    ↔ s.Meets (Quiet Render.host (IsWithin compile most)) engine o := by
  cases o <;> exact Iff.rfl

theorem areQuiet_iff : AreQuiet compile most engine os s
    ↔ MeetsAll (Quiet Render.host (IsWithin compile most)) engine os s := by
  induction os generalizing s with
  | nil => exact Iff.rfl
  | cons o os ih =>
    exact and_congr isQuiet_iff
      (forall_congr' fun r => forall_congr' fun s₁ => forall_congr' fun _ => ih)

/-- Sessions that are alike have as many idle contexts. -/
theorem Paired.idleContexts_eq (hp : s.Paired (SettingsPair most compile compile') s') :
    s.idleContexts engine = s'.idleContexts engine := by
  obtain ⟨held, ⟨R, hworlds⟩, -⟩ := hp
  have hengines := hworlds.world.engines engine
  unfold idleContexts
  generalize s.world.engines[engine]? = x at hengines ⊢
  generalize s'.world.engines[engine]? = x' at hengines ⊢
  cases hengines with
  | none => rfl
  | some halike => exact halike.idle.length_eq

end Session

end ScriptedViews

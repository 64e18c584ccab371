import ScriptedViews.Proofs.Render.Alike.Reusing

set_option autoImplicit false

/-! # Contexts that are let go, by computation

Whether nothing refers to a context any more can be seen from the heap: places that lead to it are left
out, then places that lead to those, and so on. If what remains is closed, and all that the machine
refers to is there, the context is let go. -/

namespace ScriptedViews

open Expansion (FindsMaker)
open Script (Value Heap Places State Frame Scope utf8)

variable {P : Places} {h : BridgeHeap} {t : RenderState}

/-! ## Frames -/

/-- Whether what a scope refers to is at some places. -/
def Script.Scope.IsAt (P : Places) (s : Scope) : Prop :=
  Script.varsAt P s.vars ∧ ∀ v ∈ s.varargs, v.IsAt P

instance (P : Places) (s : Scope) : Decidable (s.IsAt P) :=
  inferInstanceAs (Decidable (_ ∧ _))

theorem Script.Scope.IsAt.alike {s : Scope} (hs : s.IsAt P) : s.Alike P.identity false s :=
  ⟨hs.1.alike, .inl rfl, List.forall₂_same.2 fun v hv => (hs.2 v hv).alike, rfl⟩

/-- Whether what a frame refers to is at some places, where it is of the kinds that are on the stack
    while a view of markup calls another one. -/
def Script.Frame.isAt (P : Places) : Frame Pending → Bool
  | .body s _ => s.IsAt P
  | .host (.running r c) => r.view ∈ P.hosted ∧ (∀ a ∈ r.attributes, a.2.IsAt P) ∧ c ∈ P.tables
  | .discard | .activation _ => true
  | _ => false

theorem alike_of_frameIsAt {f : Frame Pending} (hf : f.isAt P = true) :
    f.Alike (mirrored 0 fun _ _ => False).likeness P.identity f := by
  cases f with
  | body s rest => exact .body (of_decide_eq_true hf).alike nofun
  | discard => exact .discard
  | activation site => exact .activation site
  | host p =>
    cases p with
    | running r c =>
      obtain ⟨hview, hattributes, hcontext⟩ := of_decide_eq_true hf
      have hr : r.Alike P.identity r := ⟨rfl, ⟨rfl, hview⟩, rfl, rfl,
        List.forall₂_same.2 fun a ha => ⟨rfl, (hattributes a ha).alike⟩, rfl⟩
      exact .host (.running hr ⟨rfl, hcontext⟩)
    | _ => cases hf
  | _ => cases hf

/-! ## Contexts -/

/-- Whether a context and its metatable are as they are made. -/
def Script.Heap.isNewContext (h : BridgeHeap) (c m : Nat) : Bool :=
  (match h.table c with
    | ⟨⟨[]⟩, [], some m'⟩ => m' == m
    | _ => false)
  && match h.table m with
    | ⟨⟨[]⟩, [(.text key, .table g)], none⟩ => key == utf8 "__index" && g == h.globals
    | _ => false

theorem isNewContext_of_isNewContext {c m : Nat} (hn : h.isNewContext c m = true) :
    h.IsNewContext c m := by
  obtain ⟨hcontext, hmetatable⟩ := Bool.and_eq_true_iff.1 hn
  refine ⟨?_, ?_⟩
  · split at hcontext
    · rename_i m' heq
      rw [heq, beq_iff_eq.1 hcontext]
    · cases hcontext
  · split at hmetatable
    · rename_i key g heq
      obtain ⟨hkey, hg⟩ := Bool.and_eq_true_iff.1 hmetatable
      rw [heq, beq_iff_eq.1 hkey, beq_iff_eq.1 hg]
      rfl
    · cases hmetatable

/-- The places among some that lead to no others. -/
def Script.Heap.narrow (h : BridgeHeap) (P : Places) : Places where
  tables := P.tables.filter fun a => (h.table a).IsAt P
  cells := P.cells.filter fun a => (h.cell a).IsAt P
  functions := P.functions.filter fun a => h.functions[a]?.any fun c => Script.varsAt P c.vars
  objects := P.objects.filter fun a => h.objects[a]?.any fun o => o.IsAt P
  hosted := P.hosted

/-- The places that do not lead to a context or to its metatable in a few steps. -/
def RenderState.placesBut (t : RenderState) (c m : Nat) : Places :=
  let all := t.heap.places t.world.views.size
  Nat.repeat t.heap.narrow 4 { all with tables := all.tables.filter fun a => a ≠ c ∧ a ≠ m }

/-- Whether a context is let go, as far as that is seen. -/
def RenderState.letsGo (t : RenderState) (c : Nat) : Bool :=
  (t.heap.table c).metatable.any fun m =>
    let P := t.placesBut c m
    t.heap.isNewContext c m
      && decide (c ∉ P.tables ∧ m ∉ P.tables ∧ t.heap.IsClosed P ∧ t.world.IsClosed P 0)
      && t.stack.all fun f => f.isAt P

theorem isLetGo_of_letsGo {c : Nat} (hgo : t.letsGo c = true) : IsLetGo c t := by
  obtain ⟨m, -, hgo⟩ := (Option.any_eq_true _ _).1 hgo
  simp only [Bool.and_eq_true, decide_eq_true_eq, List.all_eq_true] at hgo
  obtain ⟨⟨hnew, hc, hm, hheap, hworld⟩, hstack⟩ := hgo
  refine ⟨m, t.placesBut c m, isNewContext_of_isNewContext hnew, hc, hm, hheap.alike,
    hworld.mirrors nofun, ?_, rfl, rfl⟩
  exact List.forall₂_same.2 fun f hf => alike_of_frameIsAt (hstack f hf)

/-! ## Runs -/

/-- Whether the code that makes contexts finds what it needs. -/
def Script.Heap.findsMaker (h : BridgeHeap) : Bool :=
  (match (h.table h.globals).getText (utf8 "setmetatable") with
    | .builtin .setmetatable => true
    | _ => false)
  && match (h.table h.globals).getText (utf8 "_G") with
    | .table ref => ref == h.globals
    | _ => false

theorem findsMaker_of_findsMaker (hm : h.findsMaker = true) : FindsMaker h := by
  obtain ⟨hmaker, hself⟩ := Bool.and_eq_true_iff.1 hm
  refine ⟨?_, ?_⟩
  · split at hmaker
    · assumption
    · cases hmaker
  · split at hself
    · rename_i ref heq
      rw [heq, beq_iff_eq.1 hself]
    · cases hself

/-- Whether contexts can be made and are let go, as far as that is seen. -/
def RenderState.letsContextsGo (K : List (Frame Pending)) (t : RenderState) : Bool :=
  t.level ≤ 190
    && (match t.stack with
      | .host (.acquiring _) :: _ => t.heap.findsMaker && decide (t.depth < Script.maxDepth)
      | _ => true)
    && match K with
      | .host p :: rest =>
        decide (rest.length ≠ t.stack.length) || p.loan?.all fun l => t.letsGo l.context
      | _ => true

theorem letsContextsGo_of_letsContextsGo {K : List (Frame Pending)}
    (hgo : t.letsContextsGo K = true) : LetsContextsGo K t := by
  simp only [RenderState.letsContextsGo, Bool.and_eq_true, decide_eq_true_eq] at hgo
  obtain ⟨⟨hlevel, hmakes⟩, hends⟩ := hgo
  refine ⟨hlevel, fun r rest hstack => ?_, fun p rest l hK hrest hloan => ?_⟩
  · rw [hstack, Bool.and_eq_true, decide_eq_true_eq] at hmakes
    exact ⟨findsMaker_of_findsMaker hmakes.1, hmakes.2⟩
  · subst hK hrest
    dsimp only at hends
    simp only [hloan, ne_eq, not_true_eq_false, decide_false, Bool.false_or, Option.all_some] at hends
    exact isLetGo_of_letsGo hends

/-- Whether contexts are let go and no address is shown within some steps, after which the machine has
    come to an end. -/
def RenderState.isolates (fuel : Nat) (t : RenderState) : Bool :=
  RenderState.letsContextsGo [] t
    && State.endsQuietly Render.host RenderState.letsContextsGo fuel t

theorem isolatesContexts_of_isolates {fuel : Nat} (hi : RenderState.isolates fuel t = true) :
    IsolatesContexts t := by
  obtain ⟨hstart, hruns⟩ := Bool.and_eq_true_iff.1 hi
  exact ⟨letsContextsGo_of_letsContextsGo hstart,
    Script.State.quiet_of_endsQuietly (fun _ _ => letsContextsGo_of_letsContextsGo) hruns⟩

end ScriptedViews

import ScriptedViews.Proofs.Render.Alike.Worlds
import ScriptedViews.Proofs.Script.Alike.Places
import ScriptedViews.Render.Performing

set_option autoImplicit false

/-! # Places that count for renders

What engines refer to is at some places too: the attributes and the contexts of renders, and prepared
code. Engines that are alike stay so if no other places are matched any more.

Places are closed if nothing leads from there to elsewhere. Heaps and worlds that refer to nothing but
what is at closed places are like themselves, by what is there. Whether places are closed can be
computed. -/

namespace ScriptedViews

open Script (Value Heap Matching Places State forall₂_within optionRel_within)

variable {R : Matching} {P : Places}

/-! ## Bridges, requests and frames -/

theorem Bridge.Alike.within {b b' d : Bridge} (hp : b.Alike P.identity d) (h : b.Alike R b') :
    b.Alike (R.within P) b' :=
  ⟨h.engine, h.view, ⟨h.context, hp.context.2⟩, h.sink, h.depth⟩

theorem attributesAlike_within {as as' ds : List (String × Value)}
    (hp : AttributesAlike P.identity as ds) (h : AttributesAlike R as as') :
    AttributesAlike (R.within P) as as' :=
  forall₂_within (fun _ _ _ hp h => ⟨h.1, hp.2.within h.2⟩) hp h

theorem Request.Alike.within {r r' q : Request} (hp : r.Alike P.identity q) (h : r.Alike R r') :
    r.Alike (R.within P) r' :=
  ⟨h.engine, h.view, h.sink, h.depth, attributesAlike_within hp.attributes h.attributes, h.children⟩

theorem Pending.Alike.within {making making' compiling compiling' : Prop} {p p' q : Pending}
    (hp : p.Alike making' compiling' P.identity q) (h : p.Alike making compiling R p') :
    p.Alike making compiling (R.within P) p' := by
  cases h with
  | nothing => exact .nothing
  | acquiring hm h =>
    cases hp with
    | acquiring _ hp => exact .acquiring hm (hp.within h)
  | preparing hc h ht previous previous' =>
    cases hp with
    | preparing _ hp hpt _ _ =>
      exact .preparing hc (hp.within h) (show (R.within P).table _ _ from ⟨ht, hpt.2⟩) _ _
  | running h ht =>
    cases hp with
    | running hp hpt => exact .running (hp.within h) (show (R.within P).table _ _ from ⟨ht, hpt.2⟩)
  | lookingUp sink h =>
    cases hp with
    | lookingUp _ hp => exact .lookingUp sink (hp.within h)
  | printing sink => exact .printing sink

/-! ## Worlds -/

theorem Script.Executable.Alike.within {x x' y : Script.Executable} (hp : x.Alike P.identity y)
    (h : x.Alike R x') : x.Alike (R.within P) x' := by
  cases h with
  | compiled h =>
    cases hp with
    | compiled hp => exact .compiled (hp.within h)
  | interpreted name source => exact .interpreted name source

theorem View.Mirrors.within {v v' u : View} (hp : v.Mirrors P.identity u) (h : v.Mirrors R v') :
    v.Mirrors (R.within P) v' :=
  { h with executable :=
      optionRel_within (fun _ _ _ hp h => hp.within h) hp.executable h.executable }

theorem Engine.Mirrors.within {e e' d : Engine} (hp : e.Mirrors P.identity d)
    (h : e.Mirrors R e') : e.Mirrors (R.within P) e' :=
  { h with pool := { h.pool with
      idle := forall₂_within (fun _ _ _ hp h => ⟨h, hp.2⟩) hp.pool.idle h.pool.idle } }

variable {runtime runtime' : Nat} {held held' : Nat → Nat → Prop} {w w' : World}

theorem World.Mirrors.within (hp : World.Mirrors runtime' held' P.identity w w)
    (h : World.Mirrors runtime held R w w') (hheld : ∀ {a b}, held a b → a ∈ P.tables) :
    World.Mirrors runtime held (R.within P) w w' :=
  { h with
    engines := fun i =>
      optionRel_within (fun _ _ _ hp h => hp.within h) (hp.engines i) (h.engines i)
    views := fun i => optionRel_within (fun _ _ _ hp h => hp.within h) (hp.views i) (h.views i)
    tables := fun hr => ⟨h.tables hr, hheld hr⟩ }

/-- States that are alike are so by what counts for the first of them. -/
theorem Script.State.Alike.within {W : WorldLikeness} {s s' : State Bridge World Pending}
    (hp : State.Alike (mirrored runtime held).likeness P.identity s s)
    (h : State.Alike W.likeness R s s') (hworld : W.world (R.within P) s.world s'.world) :
    State.Alike W.likeness (R.within P) s s' :=
  ⟨Heap.Alike.within (fun hp h => Bridge.Alike.within hp h) hp.heap h.heap, hworld,
    Script.stackAlike_within (fun hp h => Pending.Alike.within hp h) hp.stack h.stack, h.level,
    h.depth⟩

/-! ## What is at closed places -/

section Closed

variable {h : BridgeHeap} {w : World}

/-- Whether what a value refers to is at some places. -/
def Script.Value.IsAt (P : Places) : Value → Prop
  | .table ref => ref ∈ P.tables
  | .function ref => ref ∈ P.functions
  | .object ref => ref ∈ P.objects
  | _ => True

instance (P : Places) : (v : Value) → Decidable (v.IsAt P)
  | .table ref => inferInstanceAs (Decidable (ref ∈ P.tables))
  | .function ref => inferInstanceAs (Decidable (ref ∈ P.functions))
  | .object ref => inferInstanceAs (Decidable (ref ∈ P.objects))
  | .nil | .bool _ | .number _ | .text _ | .builtin _ | .method _ => .isTrue trivial

theorem Script.Value.IsAt.alike {v : Value} (hv : v.IsAt P) : v.Alike P.identity v := by
  cases v with
  | table ref => exact .table ⟨rfl, hv⟩
  | function ref => exact .function ⟨rfl, hv⟩
  | object ref => exact .object ⟨rfl, hv⟩
  | _ => constructor

/-- Whether what a table refers to is at some places. -/
def Script.Table.IsAt (P : Places) (t : Script.Table) : Prop :=
  (∀ v ∈ t.items.toList, v.IsAt P) ∧ (∀ e ∈ t.entries, e.1.IsAt P ∧ e.2.IsAt P)
    ∧ ∀ m ∈ t.metatable.toList, m ∈ P.tables

instance (P : Places) (t : Script.Table) : Decidable (t.IsAt P) :=
  inferInstanceAs (Decidable (_ ∧ _ ∧ _))

theorem Script.Table.IsAt.alike {t : Script.Table} (ht : t.IsAt P) : t.Alike P.identity t := by
  obtain ⟨hitems, hentries, hmetatable⟩ := ht
  refine ⟨List.forall₂_same.2 fun v hv => (hitems v hv).alike,
    List.forall₂_same.2 fun e he => ⟨(hentries e he).1.alike, (hentries e he).2.alike⟩, ?_⟩
  cases hm : t.metatable with
  | none => exact .none
  | some m => exact .some ⟨rfl, hmetatable m (by simp [hm])⟩

/-- Whether variables are at some places. -/
def Script.varsAt (P : Places) (vars : List (Script.Name × Nat)) : Prop :=
  ∀ v ∈ vars, v.2 ∈ P.cells

instance (P : Places) (vars : List (Script.Name × Nat)) : Decidable (Script.varsAt P vars) :=
  inferInstanceAs (Decidable (∀ v ∈ vars, v.2 ∈ P.cells))

theorem Script.varsAt.alike {vars : List (Script.Name × Nat)} (hv : Script.varsAt P vars) :
    Script.VarsAlike P.identity false vars vars := by
  induction vars with
  | nil => exact .nil
  | cons v vars ih =>
    exact .cons v.1 ⟨rfl, hv v List.mem_cons_self⟩ (ih fun u hu => hv u (List.mem_cons_of_mem _ hu))

/-- Whether what an object refers to is at some places. -/
def Script.Object.IsAt (P : Places) : Script.Object Bridge → Prop
  | .host b => b.view ∈ P.hosted ∧ b.context ∈ P.tables
  | .failure _ => True

instance (P : Places) : (o : Script.Object Bridge) → Decidable (o.IsAt P)
  | .host b => inferInstanceAs (Decidable (b.view ∈ P.hosted ∧ b.context ∈ P.tables))
  | .failure _ => .isTrue trivial

/-- Whether what prepared code refers to is at some places. -/
def Script.Executable.IsAt (P : Places) : Script.Executable → Prop
  | .compiled f => f.IsAt P
  | .interpreted _ _ => True

instance (P : Places) : (x : Script.Executable) → Decidable (x.IsAt P)
  | .compiled f => inferInstanceAs (Decidable (f.IsAt P))
  | .interpreted _ _ => .isTrue trivial

/-! ## Closed heaps -/

/-- Whether a heap has what some places are of, what is there leads to no other places, and neither
    does the heap itself. -/
structure Script.Heap.IsClosed (P : Places) (h : BridgeHeap) : Prop where
  globals : h.globals ∈ P.tables
  textMetatable : h.textMetatable ∈ P.tables
  listMetatable : h.listMetatable ∈ P.tables
  tables : ∀ a ∈ P.tables, a < h.tables.size ∧ (h.table a).IsAt P
  cells : ∀ a ∈ P.cells, a < h.cells.size ∧ (h.cell a).IsAt P
  functions : ∀ a ∈ P.functions, ∃ hlt : a < h.functions.size, Script.varsAt P h.functions[a].vars
  objects : ∀ a ∈ P.objects, ∃ hlt : a < h.objects.size, h.objects[a].IsAt P

instance (P : Places) (h : BridgeHeap) : Decidable (h.IsClosed P) :=
  decidable_of_iff (h.globals ∈ P.tables ∧ h.textMetatable ∈ P.tables ∧ h.listMetatable ∈ P.tables
      ∧ (∀ a ∈ P.tables, a < h.tables.size ∧ (h.table a).IsAt P)
      ∧ (∀ a ∈ P.cells, a < h.cells.size ∧ (h.cell a).IsAt P)
      ∧ (∀ a ∈ P.functions, ∃ hlt : a < h.functions.size, Script.varsAt P h.functions[a].vars)
      ∧ ∀ a ∈ P.objects, ∃ hlt : a < h.objects.size, h.objects[a].IsAt P)
    ⟨fun ⟨a, b, c, d, e, f, g⟩ => ⟨a, b, c, d, e, f, g⟩,
      fun ⟨a, b, c, d, e, f, g⟩ => ⟨a, b, c, d, e, f, g⟩⟩

/-- A heap is like itself by what is at closed places. -/
theorem Script.Heap.IsClosed.alike (hh : h.IsClosed P) :
    Heap.Alike (mirrored runtime held).likeness P.identity h h where
  faithful := by
    refine ⟨?_, ?_, ?_, ?_, fun _ hr => hr.elim⟩ <;> rintro a b a' b' ⟨rfl, -⟩ ⟨rfl, -⟩ <;>
      exact Iff.rfl
  globals := ⟨rfl, hh.globals⟩
  textMetatable := ⟨rfl, hh.textMetatable⟩
  listMetatable := ⟨rfl, hh.listMetatable⟩
  tables_lt := by
    rintro a b ⟨rfl, ha⟩
    exact ⟨(hh.tables a ha).1, (hh.tables a ha).1⟩
  tables := by
    rintro a b ⟨rfl, ha⟩
    exact (hh.tables a ha).2.alike
  cells_lt := by
    rintro a b ⟨rfl, ha⟩
    exact ⟨(hh.cells a ha).1, (hh.cells a ha).1⟩
  cells := by
    rintro a b ⟨rfl, ha⟩
    exact (hh.cells a ha).2.alike
  functions := by
    rintro a b ⟨rfl, ha⟩
    obtain ⟨hlt, hvars⟩ := hh.functions a ha
    have hc := Array.getElem?_eq_getElem hlt
    exact ⟨_, _, hc, hc, rfl, ⟨false, hvars.alike, nofun⟩, rfl⟩
  objects := by
    rintro a b ⟨rfl, ha⟩
    obtain ⟨hlt, hobject⟩ := hh.objects a ha
    have ho := Array.getElem?_eq_getElem hlt
    refine ⟨_, _, ho, ho, ?_⟩
    generalize h.objects[a] = o at hobject
    cases o with
    | host b =>
      obtain ⟨hview, hcontext⟩ : b.view ∈ P.hosted ∧ b.context ∈ P.tables := hobject
      exact .host ⟨rfl, ⟨rfl, hview⟩, ⟨rfl, hcontext⟩, rfl, rfl⟩
    | failure cause => exact .failure cause
  environment_lt hr := hr.elim
  environment hr := hr.elim
  knownLeft hr := hr.elim
  knownRight hr := hr.elim
  aside hr := hr.elim

/-! ## Closed worlds -/

/-- Whether a world refers to nothing but what is at closed places, where its engines have one
    runtime. -/
structure World.IsClosed (P : Places) (runtime : Nat) (w : World) : Prop where
  runs : runtime < w.runtimes.size
  idle : ∀ e ∈ w.engines.toList, ∀ c ∈ e.pool.idle, c ∈ P.tables
  kept : ∀ e ∈ w.engines.toList, ∀ p ∈ e.cache, p.2 < w.views.size
  hosted : ∀ i ∈ P.hosted, i < w.views.size
  prepared : ∀ v ∈ w.views.toList, ∀ x ∈ v.executable.toList, x.IsAt P

instance (P : Places) (runtime : Nat) (w : World) : Decidable (w.IsClosed P runtime) :=
  decidable_of_iff (runtime < w.runtimes.size
      ∧ (∀ e ∈ w.engines.toList, ∀ c ∈ e.pool.idle, c ∈ P.tables)
      ∧ (∀ e ∈ w.engines.toList, ∀ p ∈ e.cache, p.2 < w.views.size)
      ∧ (∀ i ∈ P.hosted, i < w.views.size)
      ∧ ∀ v ∈ w.views.toList, ∀ x ∈ v.executable.toList, x.IsAt P)
    ⟨fun ⟨a, b, c, d, e⟩ => ⟨a, b, c, d, e⟩, fun ⟨a, b, c, d, e⟩ => ⟨a, b, c, d, e⟩⟩

/-- A world mirrors itself by what is at closed places, whatever tables there are held on to. -/
theorem World.IsClosed.mirrors (hw : w.IsClosed P runtime)
    (hheld : ∀ {a b}, held a b → a = b ∧ a ∈ P.tables) :
    World.Mirrors runtime held P.identity w w := by
  refine ⟨hw.runs, hw.runs, rfl, rfl, fun i => ?_, fun i => ?_, fun hr => ⟨hr.1, hw.hosted _ hr.2⟩,
    hheld, fun {i e uri k} he hk => ?_⟩
  · cases he : w.engines[i]? with
    | none => exact .none
    | some e =>
      have hmem : e ∈ w.engines.toList := (Array.mem_of_getElem? he).val
      exact .some ⟨rfl, rfl, rfl, rfl, rfl, rfl, rfl,
        List.forall₂_same.2 fun c hc => ⟨rfl, hw.idle e hmem c hc⟩⟩
  · cases hv : w.views[i]? with
    | none => exact .none
    | some v =>
      have hmem : v ∈ w.views.toList := (Array.mem_of_getElem? hv).val
      have hprepared := hw.prepared v hmem
      refine .some ⟨rfl, ?_⟩
      cases hx : v.executable with
      | none => exact .none
      | some x =>
        have hon := hprepared x (by simp [hx])
        cases x with
        | compiled f => exact .some (.compiled (Script.Value.IsAt.alike hon))
        | interpreted name source => exact .some (.interpreted name source)
  · obtain ⟨before, after, hcache, -⟩ := List.lookup_eq_some_iff.1 hk
    exact hw.kept e (Array.mem_of_getElem? he).val (uri, k) (by rw [hcache]; simp)

/-- All places of a heap. -/
def Script.Heap.places (views : Nat) (h : BridgeHeap) : Places where
  tables := List.range h.tables.size
  cells := List.range h.cells.size
  functions := List.range h.functions.size
  objects := List.range h.objects.size
  hosted := List.range views

/-! ## Worlds with a heap -/

/-- Whether two worlds mirror each other, and so do the heaps of a runtime. -/
structure World.Twins (held : Nat → Nat → Prop) (runtime : Nat) (R : Matching) (w w' : World) :
    Prop where
  heap : Heap.Alike (mirrored runtime held).likeness R (w.heapOf runtime) (w'.heapOf runtime)
  world : World.Mirrors runtime held R w w'

/-- A world mirrors itself with the heap of a runtime if nothing there leads elsewhere, whatever tables
    of it are held on to. -/
theorem World.IsClosed.twins (hw : w.IsClosed P runtime) (hh : (w.heapOf runtime).IsClosed P)
    (hheld : ∀ {a b}, held a b → a = b ∧ a ∈ P.tables) :
    w.Twins held runtime P.identity w :=
  ⟨hh.alike, hw.mirrors hheld⟩

end Closed

end ScriptedViews

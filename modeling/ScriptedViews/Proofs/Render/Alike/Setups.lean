import ScriptedViews.Proofs.Render.Alike.Sessions
import ScriptedViews.Proofs.Render.MacroExpansion

set_option autoImplicit false

/-! # Keeping views is of no consequence

An engine that keeps its views and one that reads them again and again start alike: their contexts
have been made by the same code. So the same comes of whatever they are asked to do. -/

namespace ScriptedViews

open Script (Value Bytes Heap Matching State ValuesAlike EntriesAlike Likeness utf8 ascii)
open Script.State (Quiet)
open Expansion (storeOf withContext withContextCode withContexts contextMetatable)

/-! ## Heaps at the start -/

/-- Some tables stand for themselves. -/
def Script.Matching.tables (count : Nat) : Matching where
  table a b := a = b ∧ a < count
  cell _ _ := False
  function _ _ := False
  object _ _ := False
  environment _ _ := False
  hosted _ _ := False
  knownLeft _ _ := False
  knownRight _ _ := False
  aside _ _ := False

/-- Whether a value refers to nothing but some tables. -/
def Script.Value.isWithin (count : Nat) : Value → Bool
  | .table ref => ref < count
  | .function _ => false
  | .object _ => false
  | _ => true

theorem alike_of_isWithin {count : Nat} {v : Value} (h : v.isWithin count = true) :
    v.Alike (.tables count) v := by
  cases v with
  | table ref => exact .table ⟨rfl, of_decide_eq_true h⟩
  | function ref => cases h
  | object ref => cases h
  | _ => constructor

/-- Whether a table refers to nothing but some tables. -/
def Script.Table.isWithin (count : Nat) (t : Script.Table) : Bool :=
  t.items.toList.all (·.isWithin count)
    && t.entries.all (fun e => e.1.isWithin count && e.2.isWithin count)
    && t.metatable.all (· < count)

theorem tableAlike_of_isWithin {count : Nat} {t : Script.Table} (h : t.isWithin count = true) :
    t.Alike (.tables count) t := by
  obtain ⟨items, entries, metatable⟩ := t
  simp only [Script.Table.isWithin, Bool.and_eq_true, List.all_eq_true] at h
  obtain ⟨⟨hitems, hentries⟩, hmetatable⟩ := h
  refine ⟨?_, ?_, ?_⟩
  · exact List.forall₂_same.2 fun v hv => alike_of_isWithin (hitems v hv)
  · exact List.forall₂_same.2 fun e he =>
      ⟨alike_of_isWithin (hentries e he).1, alike_of_isWithin (hentries e he).2⟩
  · cases metatable with
    | none => exact .none
    | some m => exact .some ⟨rfl, by simpa using hmetatable⟩

section Heaps

variable {ω σ φ : Type} {L : Likeness ω σ φ}

/-- The heap that code starts with is like itself. -/
theorem heapAlike_start :
    Heap.Alike L (.tables 6) (Heap.start : Heap ω) Heap.start where
  faithful := by
    refine ⟨?_, nofun, nofun, nofun, nofun⟩
    rintro a b a' b' ⟨rfl, -⟩ ⟨rfl, -⟩
    exact Iff.rfl
  globals := ⟨rfl, show 0 < 6 by decide⟩
  textMetatable := ⟨rfl, show 1 < 6 by decide⟩
  listMetatable := ⟨rfl, show 5 < 6 by decide⟩
  tables_lt := by
    rintro a b ⟨rfl, hlt⟩
    exact ⟨hlt, hlt⟩
  tables := by
    rintro a b ⟨rfl, hlt⟩
    have hall : Script.Heap.libraryTables.toList.all (·.isWithin 6) = true := by decide
    have hmem : (Heap.start : Heap ω).table a ∈ Script.Heap.libraryTables.toList := by
      have hsize : a < Script.Heap.libraryTables.size := hlt
      rw [Heap.table, Heap.start, Array.getD_eq_getD_getElem?, Array.getElem?_eq_getElem hsize]
      exact Array.getElem_mem_toList hsize
    exact tableAlike_of_isWithin (List.all_eq_true.1 hall _ hmem)
  cells_lt := nofun
  cells := nofun
  functions := nofun
  objects := nofun
  environment_lt := nofun
  environment := nofun
  knownLeft := nofun
  knownRight := nofun
  aside := nofun

end Heaps

/-- Contexts are made on both of two heaps. -/
theorem heapAlike_withContexts {L : Likeness Bridge World Pending} {R : Matching}
    {h h' : BridgeHeap} (hh : Heap.Alike L R h h') (count : Nat) :
    ∃ S, R.Grows S ∧ List.Forall₂ S.table (withContexts count h).1 (withContexts count h').1
      ∧ Heap.Alike L S (withContexts count h).2 (withContexts count h').2 := by
  induction count generalizing R h h' with
  | zero => exact ⟨R, .refl R, .nil, hh⟩
  | succ count ih =>
    have hread := hh.readChunk 0 (utf8 "=context") Script.contextSource (.table hh.globals)
    rw [Expansion.readChunk_contextSource (Nat.zero_le _),
      Expansion.readChunk_contextSource (Nat.zero_le _)] at hread
    cases hread with
    | ok hread =>
      obtain ⟨S, hg, -, hcode⟩ := hread
      let h₁ : BridgeHeap := withContextCode h
      let h₁' : BridgeHeap := withContextCode h'
      have hempty := hcode.newTable Script.Table.Alike.empty
      let T := S.withTable h₁.tables.size h₁'.tables.size
      have hmetatable : (contextMetatable h₁.globals).Alike T (contextMetatable h₁'.globals) :=
        ⟨.nil, .cons ⟨.text _, .table (Matching.grows_withTable.table hcode.globals)⟩ .nil, .none⟩
      have hboth := hempty.newTable hmetatable
      let U := T.withTable (h₁.newTable {}).2.tables.size (h₁'.newTable {}).2.tables.size
      have hcontext : U.table h₁.tables.size h₁'.tables.size :=
        Matching.grows_withTable.table Matching.table_withTable
      have hset : ∀ t t' : Script.Table, t.Alike U t' →
          Script.Table.Alike U { t with metatable := some (h₁.tables.size + 1) }
            { t' with metatable := some (h₁'.tables.size + 1) } := by
        intro t t' ht
        refine { ht with metatable := .some (.inr ⟨?_, ?_⟩) } <;> simp [Heap.newTable]
      have hmade := hboth.modifyTable hcontext hset
      obtain ⟨V, hg', hcontexts, hheap⟩ := ih hmade
      exact ⟨V, (hg.trans Matching.grows_withTable).trans (Matching.grows_withTable.trans hg'),
        .cons (hg'.table hcontext) hcontexts, hheap⟩

/-! ## Engines at the start -/

namespace Setup

variable {s s' : Setup} {sources : Sources} {most : Nat} {os : List Operation}

/-- Whether two setups differ in no more than in whether views are kept and in whether their code is
    compiled. -/
structure Agrees (s s' : Setup) : Prop where
  loader : s.loader = s'.loader
  validator : s.validator = s'.validator
  config : { s.config with compile := s'.config.compile, cacheViews := s'.config.cacheViews }
    = s'.config

/-- Whether it makes no difference to the source of any view which of two engines compile it. -/
def Fit (most : Nat) (sources : Sources) (s s' : Setup) : Prop :=
  ∀ loader uri v, s.loader = some loader → storeOf sources s loader uri = some v →
    Fits most v.source s.config.compile s'.config.compile

/-- Whether the machine goes quietly about what an engine is asked to do. -/
def IsQuiet (most : Nat) (sources : Sources) (os : List Operation) (s : Setup) : Prop :=
  ∀ fuel engine registry world,
    World.createEngine fuel { sources } [] s = (some (.ok engine), registry, world) →
    Session.AreQuiet s.config.compile most engine os { world }

/-- The only engine of a world, as it has been set up. -/
def only (sources : Sources) (s : Setup) (loader : Loader) (contexts : List Nat)
    (runtimes : Array Runtime) : World :=
  { sources
    runtimes
    engines := #[{
      config := s.config
      loader
      validator := s.validator
      pool := ⟨s.config.contextPoolCapacity, contexts⟩
      runtime := 0 }] }

/-- A world with an engine that has just been set up is tidy. -/
theorem tidy_only (known : Nat → Script.Closure → Prop) (most : Nat) (s : Setup) (loader : Loader)
    (contexts : List Nat) {runtimes : Array Runtime} (hsize : 0 < runtimes.size) :
    (only sources s loader contexts runtimes).Tidy known most s.config.compile where
  runs := hsize
  runtime {i e} he := by
    cases i with
    | zero => cases he; rfl
    | succ i => simp [only] at he
  compiles {i e} he := by
    cases i with
    | zero => cases he; rfl
    | succ i => simp [only] at he
  kept {i e uri k} he hk := by
    cases i with
    | zero =>
      cases he
      exact absurd (show (none : Option Nat) = some k from hk) nofun
    | succ i => simp [only] at he
  prepared {k v x} hv := by simp [only] at hv

/-- Engines that have been set up alike are alike, with the contexts that have been made for them. -/
theorem paired_only (ha : s.Agrees s') (hf : Fit most sources s s') {loader : Loader}
    (hloader : s.loader = some loader) {contexts contexts' : List Nat}
    {runtimes runtimes' : Array Runtime} (hsize : 0 < runtimes.size) (hsize' : 0 < runtimes'.size)
    (hmade : (contexts, (only sources s loader contexts runtimes).heapOf 0)
      = withContexts s.config.contextPoolCapacity Heap.start)
    (hmade' : (contexts', (only sources s' loader contexts' runtimes').heapOf 0)
      = withContexts s'.config.contextPoolCapacity Heap.start) :
    Session.Paired (SettingsPair most s.config.compile s'.config.compile)
      { world := only sources s loader contexts runtimes }
      { world := only sources s' loader contexts' runtimes' } := by
  let held : Held := {}
  let L := (settings most s.config.compile s'.config.compile held).likeness
  have hcapacity : s.config.contextPoolCapacity = s'.config.contextPoolCapacity := by
    rw [← ha.config]
  obtain ⟨S, hg, hcontexts, hheap⟩ :=
    heapAlike_withContexts (heapAlike_start (L := L)) s.config.contextPoolCapacity
  have hhosted : ∀ {i j}, ¬ S.hosted i j := fun hr => hg.hosted_of hr
  obtain ⟨hlist, hheaps⟩ := Prod.mk.inj hmade
  rw [← hcapacity] at hmade'
  obtain ⟨hlist', hheaps'⟩ := Prod.mk.inj hmade'
  refine ⟨held.view, ⟨S, ?_, ?_⟩, .nil⟩
  · rw [hheaps, hheaps']
    exact hheap
  · refine ⟨rfl, rfl, fun i => ?_, fun hr => ?_, nofun, fun {i e uri v} he hread => ?_,
      tidy_only _ _ _ _ _ hsize, tidy_only _ _ _ _ _ hsize'⟩
    · cases i with
      | zero =>
        refine .some ⟨rfl, ha.validator, ?_, ?_, rfl, rfl, hcapacity, ?_⟩
        · show s.config.validateSchema = s'.config.validateSchema
          rw [← ha.config]
        · show s.config.maxNestingDepth = s'.config.maxNestingDepth
          rw [← ha.config]
        · show List.Forall₂ S.table contexts contexts'
          rw [hlist, hlist']
          exact hcontexts
      | succ i => exact .none
    · exact absurd hr (by simp [held, hhosted])
    · cases i with
      | zero =>
        cases he
        refine hf loader uri v hloader ?_
        rw [storeOf]
        exact (congrArg Except.toOption hread : _)
      | succ i => simp [only] at he

/-- An engine that keeps no contexts is set up at once. -/
theorem createEngine_of_capacity_zero {s : Setup} {loader : Loader} (sources : Sources)
    (hloader : s.loader = some loader) (hcapacity : s.config.contextPoolCapacity = 0)
    (hlanguage : s.config.language = "lua") (fuel : Nat) :
    World.createEngine fuel { sources } [] s
      = (some (.ok 0), [("lua", 0)], only sources s loader [] #[{ language := "lua" }]) := by
  have hid : Runtime.languageId "lua" = "lua" := by decide
  have hsupports : Runtime.supports "lua" = true := by decide
  have hruntime : World.runtimeFor { sources } [] s.config.language
      = .ok (0, [("lua", 0)], { sources, runtimes := #[{ language := "lua" }] }) := by
    simp only [World.runtimeFor, OrderedMap.get?, List.lookup_nil, hlanguage, hid, hsupports, if_true]
    rfl
  simp only [World.createEngine, hloader, hruntime, Pool.create, hcapacity, Pool.makeMany, only]
  rfl

theorem eq_of_createEngine_zero {loader : Loader} (hloader : s.loader = some loader)
    (hcapacity : s.config.contextPoolCapacity = 0) (hlanguage : s.config.language = "lua")
    {fuel engine : Nat} {registry : Registry} {world : World}
    (h : World.createEngine fuel { sources } [] s = (some (.ok engine), registry, world)) :
    engine = 0 ∧ world = only sources s loader [] #[{ language := "lua" }] := by
  rw [createEngine_of_capacity_zero sources hloader hcapacity hlanguage, Prod.mk.injEq, Prod.mk.injEq,
    Option.some.injEq, Except.ok.injEq] at h
  exact ⟨h.1.symm, h.2.2.symm⟩

/-- An engine that cannot be set up fails for the same reason. -/
theorem serve_of_failing (hsame : s.loader = s'.loader)
    (hlanguage : s.config.language = s'.config.language) (h : s.loader = none
    ∨ Runtime.supports (Runtime.languageId s.config.language) = false) :
    s.serve sources os = s'.serve sources os := by
  funext fuel
  unfold serve World.createEngine
  rw [← hsame, ← hlanguage]
  cases hloader : s.loader with
  | none => rfl
  | some loader =>
    have hnot : Runtime.supports (Runtime.languageId s.config.language) = false := by
      simpa [hloader] using h
    have hruntime : World.runtimeFor { sources } [] s.config.language
        = .error (.runtimeNotFound s.config.language) := by
      simp only [World.runtimeFor, OrderedMap.get?, List.lookup_nil, hnot]
      rfl
    simp only [hruntime]

theorem failing_or_starts (s : Setup) :
    (s.loader = none ∨ Runtime.supports (Runtime.languageId s.config.language) = false)
      ∨ ∃ loader, s.loader = some loader
        ∧ Runtime.supports (Runtime.languageId s.config.language) = true := by
  cases hsupported : Runtime.supports (Runtime.languageId s.config.language) with
  | false => exact .inl (.inr rfl)
  | true =>
    cases hloader : s.loader with
    | none => exact .inl (.inl rfl)
    | some loader => exact .inr ⟨loader, rfl, rfl⟩

/-- What comes of a setup is what comes of its engine, whatever is told of it. -/
theorem endsAs_map_serve {β : Type} {n engine : Nat} {registry : Registry} {w : World}
    (hcreate : ∀ fuel, n ≤ fuel →
      World.createEngine fuel { sources } [] s = (some (.ok engine), registry, w))
    (f : Except ViewError (List Outcome × Nat) → β) (r : β) :
    EndsAs (fun fuel => (s.serve sources os fuel).map f) r ↔ ∃ x : List Outcome × Session,
      r = f (.ok (x.1, x.2.idleContexts engine))
        ∧ EndsAs (fun fuel => Session.performAll fuel engine os { world := w }) x := by
  have hserve : ∀ fuel, n ≤ fuel → (s.serve sources os fuel).map f
      = (Session.performAll fuel engine os { world := w }).map
        fun x => f (.ok (x.1, x.2.idleContexts engine)) := by
    intro fuel hfuel
    rw [serve, hcreate fuel hfuel, Option.map_map]
    rfl
  constructor
  · rintro ⟨m, hm⟩
    have hfirst := (hserve _ (Nat.le_max_left n m)).symm.trans (hm _ (Nat.le_max_right n m))
    obtain ⟨x, hx, rfl⟩ := Option.map_eq_some_iff.1 hfirst
    exact ⟨x, rfl, Session.performAll_of_some hx⟩
  · rintro ⟨x, rfl, m, hm⟩
    refine ⟨max n m, fun fuel hfuel => (hserve fuel (by omega)).trans ?_⟩
    exact congrArg (Option.map _) (hm fuel (by omega))

theorem endsAs_serve {n engine : Nat} {registry : Registry} {w : World}
    (hcreate : ∀ fuel, n ≤ fuel →
      World.createEngine fuel { sources } [] s = (some (.ok engine), registry, w))
    (r : Except ViewError (List Outcome × Nat)) :
    EndsAs (s.serve sources os) r ↔ ∃ x : List Outcome × Session,
      r = .ok (x.1, x.2.idleContexts engine)
        ∧ EndsAs (fun fuel => Session.performAll fuel engine os { world := w }) x := by
  simpa only [Option.map_id, id_eq] using endsAs_map_serve hcreate id r

/-- What an engine that keeps no contexts has done within some steps is what comes of its setup. -/
theorem endsAs_serve_of_performAll {loader : Loader} (hloader : s.loader = some loader)
    (hcapacity : s.config.contextPoolCapacity = 0) (hlanguage : s.config.language = "lua")
    {fuel : Nat} {x : List Outcome × Session}
    (h : Session.performAll fuel 0 os { world := only sources s loader [] #[{ language := "lua" }] }
      = some x) :
    EndsAs (s.serve sources os) (.ok (x.1, x.2.idleContexts 0)) :=
  (endsAs_serve (fun fuel (_ : 0 ≤ fuel) =>
    createEngine_of_capacity_zero sources hloader hcapacity hlanguage fuel) _).2
      ⟨x, rfl, Session.performAll_of_some h⟩

/-- The same comes of whatever two engines are asked to do if they differ in no more than in whether
    they keep views and in whether they compile their code. -/
theorem serve_iff (ha : s.Agrees s') (hmost : s.config.compile = true → 0 < most ∧ most ≤ 197)
    (hf : Fit most sources s s') (hq : IsQuiet most sources os s)
    (r : Except ViewError (List Outcome × Nat)) :
    EndsAs (s.serve sources os) r ↔ EndsAs (s'.serve sources os) r := by
  have hlanguage : s.config.language = s'.config.language := by
    rw [← ha.config]
  obtain hfailing | ⟨loader, hloader, hsupported⟩ := s.failing_or_starts
  · rw [serve_of_failing ha.loader hlanguage hfailing]
  · obtain ⟨n, registry, contexts, runtimes, hcreate, hsize, hmade, -⟩ :=
      Expansion.createEngine_eq sources #[] hloader hsupported
    obtain ⟨n', registry', contexts', runtimes', hcreate', hsize', hmade', -⟩ :=
      Expansion.createEngine_eq sources #[] (ha.loader ▸ hloader) (hlanguage ▸ hsupported)
    have hp := paired_only ha hf hloader hsize hsize' hmade hmade'
    have hquiet := Session.areQuiet_iff.1 (hq n 0 registry _ (hcreate n (Nat.le_refl n)))
    rw [endsAs_serve hcreate, endsAs_serve hcreate']
    constructor
    · rintro ⟨⟨rs, t⟩, rfl, hends⟩
      obtain ⟨t', hpaired, hends'⟩ := hp.performAll (settings_pairing hmost) hquiet hends
      exact ⟨(rs, t'), by rw [hpaired.idleContexts_eq], hends'⟩
    · rintro ⟨⟨rs', t'⟩, rfl, hends'⟩
      obtain ⟨t, hpaired, hends⟩ := hp.performAll_back (settings_pairing hmost) hquiet hends'
      exact ⟨(rs', t), by rw [hpaired.idleContexts_eq], hends⟩

end Setup

end ScriptedViews

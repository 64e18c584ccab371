import ScriptedViews.Proofs.Script.Alike.States

set_option autoImplicit false

/-! # Places that count

What a state refers to, directly or through what is on its heap, is at some places. Whatever is
elsewhere is of no consequence, also if another state has something that stands for it: states that
are alike stay so if no other places of the first one are matched any more. -/

namespace ScriptedViews.Script

/-- Some places of a heap, and some of what the host keeps by number. -/
structure Places where
  tables : List Nat
  cells : List Nat
  functions : List Nat
  objects : List Nat
  hosted : List Nat

/-- Some places stand for themselves. -/
def Places.identity (P : Places) : Matching where
  table a b := a = b ∧ a ∈ P.tables
  cell a b := a = b ∧ a ∈ P.cells
  function a b := a = b ∧ a ∈ P.functions
  object a b := a = b ∧ a ∈ P.objects
  environment _ _ := False
  hosted a b := a = b ∧ a ∈ P.hosted
  knownLeft _ _ := False
  knownRight _ _ := False
  aside _ _ := False

namespace Matching

/-- Match some places of the first heap only. -/
def within (R : Matching) (P : Places) : Matching :=
  { R with
    table := fun a b => R.table a b ∧ a ∈ P.tables
    cell := fun a b => R.cell a b ∧ a ∈ P.cells
    function := fun a b => R.function a b ∧ a ∈ P.functions
    object := fun a b => R.object a b ∧ a ∈ P.objects
    environment := fun e e' => R.environment e e' ∧ e.1 ∈ P.cells }

/-- Keep in mind what is in a table of the second heap that stands for nothing. -/
def withAside (R : Matching) (b : Nat) (t : Table) : Matching :=
  { R with aside := fun x u => R.aside x u ∨ x = b ∧ u = t }

/-- Keep only some tables of the second heap in mind. -/
def asideOf (R : Matching) (p : Nat → Prop) : Matching :=
  { R with aside := fun x u => R.aside x u ∧ p x }

variable {R : Matching} {P : Places}

theorem Faithful.within (h : R.Faithful) : (R.within P).Faithful :=
  ⟨fun hr hr' => h.table hr.1 hr'.1, fun hr hr' => h.cell hr.1 hr'.1,
    fun hr hr' => h.function hr.1 hr'.1, fun hr hr' => h.object hr.1 hr'.1,
    fun hr he => h.apart hr.1 he.1⟩

theorem grows_withAside {b : Nat} {t : Table} : R.Grows (R.withAside b t) :=
  { Grows.refl R with aside := .inl }

theorem widens_asideOf {p : Nat → Prop} : R.Widens (R.asideOf p) :=
  { Widens.refl R with }

end Matching

variable {ω σ φ : Type} {L L₀ : Likeness ω σ φ} {R : Matching} {P : Places}

/-! ## Lists and options -/

theorem forall₂_within {α : Type} {r s t : α → α → Prop} (h : ∀ x y z, r x z → s x y → t x y)
    {xs ys zs : List α} (hr : List.Forall₂ r xs zs) (hs : List.Forall₂ s xs ys) :
    List.Forall₂ t xs ys := by
  induction hs generalizing zs with
  | nil => exact .nil
  | cons hs _ ih =>
    cases hr with
    | cons hr hrest => exact .cons (h _ _ _ hr hs) (ih hrest)

theorem optionRel_within {α : Type} {r s t : α → α → Prop} (h : ∀ x y z, r x z → s x y → t x y)
    {x y z : Option α} (hr : Option.Rel r x z) (hs : Option.Rel s x y) : Option.Rel t x y := by
  cases hs with
  | none => exact .none
  | some hs =>
    cases hr with
    | some hr => exact .some (h _ _ _ hr hs)

/-! ## Values and tables -/

theorem Value.Alike.within {v w u : Value} (hp : v.Alike P.identity u) (h : v.Alike R w) :
    v.Alike (R.within P) w := by
  cases h with
  | table hr =>
    cases hp with
    | table hp => exact .table ⟨hr, hp.2⟩
  | function hr =>
    cases hp with
    | function hp => exact .function ⟨hr, hp.2⟩
  | object hr =>
    cases hp with
    | object hp => exact .object ⟨hr, hp.2⟩
  | _ => constructor

theorem ValuesAlike.within {vs ws us : List Value} (hp : ValuesAlike P.identity vs us)
    (h : ValuesAlike R vs ws) : ValuesAlike (R.within P) vs ws :=
  forall₂_within (fun _ _ _ hp h => hp.within h) hp h

theorem EntriesAlike.within {es es' ds : List (Value × Value)} (hp : EntriesAlike P.identity es ds)
    (h : EntriesAlike R es es') : EntriesAlike (R.within P) es es' :=
  forall₂_within (fun _ _ _ hp h => ⟨hp.1.within h.1, hp.2.within h.2⟩) hp h

theorem Table.Alike.within {t t' u : Table} (hp : t.Alike P.identity u) (h : t.Alike R t') :
    t.Alike (R.within P) t' :=
  ⟨hp.items.within h.items, hp.entries.within h.entries,
    optionRel_within (fun _ _ _ hp h => ⟨h, hp.2⟩) hp.metatable h.metatable⟩

/-! ## Scopes, functions and objects -/

/-- The first of some variables is at a place that counts, and so are the others, unless what is
    behind it is an environment that it covers. -/
theorem VarsAlike.cons_identity {framed : Bool} {n : Name} {cell : Nat}
    {vars own : List (Name × Nat)} (hp : VarsAlike P.identity framed ((n, cell) :: vars) own) :
    cell ∈ P.cells ∧ ((∃ framed own, VarsAlike P.identity framed vars own)
      ∨ n = environmentName ∧ ∃ behind, vars = [(environmentName, behind)]) := by
  generalize hall : (n, cell) :: vars = all at hp
  cases hp with
  | nil => cases hall
  | cons _ hr hrest =>
    cases hall
    exact ⟨hr.2, .inl ⟨_, _, hrest⟩⟩
  | covered hr behind _ =>
    cases hall
    exact ⟨hr.2, .inr ⟨rfl, behind, rfl⟩⟩
  | environment he _ => exact he.elim

theorem VarsAlike.within {framed framed' : Bool} {vars vars' own : List (Name × Nat)}
    (hp : VarsAlike P.identity framed' vars own) (h : VarsAlike R framed vars vars') :
    VarsAlike (R.within P) framed vars vars' := by
  induction h generalizing framed' own with
  | nil => exact .nil
  | cons n hr hvars ih =>
    obtain ⟨hcell, hrest⟩ := hp.cons_identity
    have hboth : (R.within P).cell _ _ := ⟨hr, hcell⟩
    obtain ⟨_, _, hrest⟩ | ⟨rfl, behind, rfl⟩ := hrest
    · exact .cons n hboth (ih hrest)
    · cases hvars with
      | cons _ _ hnil =>
        cases hnil
        exact .covered hboth behind _
  | covered hr behind behind' =>
    have hboth : (R.within P).cell _ _ := ⟨hr, hp.cons_identity.1⟩
    exact .covered hboth behind behind'
  | environment he behind =>
    have hboth : (R.within P).environment _ _ := ⟨he, hp.cons_identity.1⟩
    exact .environment hboth behind

theorem Scope.Alike.within {framed framed' : Bool} {s s' u : Scope}
    (hp : s.Alike P.identity framed' u) (h : s.Alike R framed s') :
    s.Alike (R.within P) framed s' :=
  ⟨hp.vars.within h.vars, h.own, hp.varargs.within h.varargs, h.chunk⟩

theorem Closure.Alike.within {c c' d : Closure} (hp : c.Alike P.identity d) (h : c.Alike R c') :
    c.Alike (R.within P) c' := by
  obtain ⟨_, hvars, -⟩ := hp.vars
  obtain ⟨framed, hvars', hleaves⟩ := h.vars
  exact ⟨h.function, ⟨framed, hvars.within hvars', hleaves⟩, h.chunk⟩

theorem Object.Alike.within
    (hobject : ∀ {o o' u}, L₀.object P.identity o u → L.object R o o' → L.object (R.within P) o o')
    {o o' u : Object ω} (hp : o.Alike L₀ P.identity u) (h : o.Alike L R o') :
    o.Alike L (R.within P) o' := by
  cases h with
  | host h =>
    cases hp with
    | host hp => exact .host (hobject hp h)
  | failure cause => exact .failure cause

/-! ## Heaps -/

namespace Heap.Alike

variable {h h' : Heap ω}

/-- Heaps that are alike are so by what counts on the first of them. -/
theorem within
    (hobject : ∀ {o o' u}, L₀.object P.identity o u → L.object R o o' → L.object (R.within P) o o')
    (hp : Heap.Alike L₀ P.identity h h) (hh : Heap.Alike L R h h') :
    Heap.Alike L (R.within P) h h' where
  faithful := hh.faithful.within
  globals := ⟨hh.globals, hp.globals.2⟩
  textMetatable := ⟨hh.textMetatable, hp.textMetatable.2⟩
  listMetatable := ⟨hh.listMetatable, hp.listMetatable.2⟩
  tables_lt hr := hh.tables_lt hr.1
  tables hr := (hp.tables ⟨rfl, hr.2⟩).within (hh.tables hr.1)
  cells_lt hr := hh.cells_lt hr.1
  cells hr := (hp.cells ⟨rfl, hr.2⟩).within (hh.cells hr.1)
  functions hr := by
    obtain ⟨c, c', hc, hc', halike⟩ := hh.functions hr.1
    obtain ⟨d, d', hd, hd', hself⟩ := hp.functions ⟨rfl, hr.2⟩
    rw [hc, Option.some.injEq] at hd hd'
    subst hd hd'
    exact ⟨c, c', hc, hc', hself.within halike⟩
  objects hr := by
    obtain ⟨o, o', ho, ho', halike⟩ := hh.objects hr.1
    obtain ⟨p, p', hp₁, hp₁', hself⟩ := hp.objects ⟨rfl, hr.2⟩
    rw [ho, Option.some.injEq] at hp₁ hp₁'
    subst hp₁ hp₁'
    exact ⟨o, o', ho, ho', hself.within hobject halike⟩
  environment_lt he := hh.environment_lt he.1
  environment he := by
    obtain ⟨hcell, hcell', hr⟩ := hh.environment he.1
    have hself := hp.cells ⟨rfl, he.2⟩
    rw [hcell] at hself
    cases hself with
    | table htable => exact ⟨hcell, hcell', hr, htable.2⟩
  knownLeft hr := hh.knownLeft hr
  knownRight hr := hh.knownRight hr
  aside hr := by
    obtain ⟨hlt, ht, hnot⟩ := hh.aside hr
    exact ⟨hlt, ht, fun a ha => hnot a ha.1⟩

/-- What is in a table of the second heap that stands for nothing can be kept in mind. -/
theorem withAside (hh : Heap.Alike L R h h') {b : Nat} (hb : b < h'.tables.size)
    (hnot : ∀ a, ¬ R.table a b) : Heap.Alike L (R.withAside b (h'.table b)) h h' :=
  hh.grow Matching.grows_withAside.toWidens (hh.faithful_of_same rfl rfl rfl rfl rfl) .inl .inl .inl
    .inl .inl .inl .inl fun hr => by
      rcases hr with hold | ⟨rfl, rfl⟩
      · exact ⟨.inl hold, (hh.aside hold).2.2⟩
      · exact ⟨.inr ⟨hb, rfl⟩, hnot⟩

/-- Tables of the second heap that stand for nothing need not be kept in mind. -/
theorem asideOf (hh : Heap.Alike L R h h') (p : Nat → Prop) :
    Heap.Alike L (R.asideOf p) h h' :=
  hh.grow Matching.widens_asideOf (hh.faithful_of_same rfl rfl rfl rfl rfl) .inl .inl .inl .inl .inl
    .inl .inl fun hr => ⟨.inl hr.1, (hh.aside hr.1).2.2⟩

/-- Two tables that stand for nothing can be matched if they are alike. -/
theorem withTable (hh : Heap.Alike L R h h') {a b : Nat} (ha : a < h.tables.size)
    (hb : b < h'.tables.size) (ht : (h.table a).Alike (R.withTable a b) (h'.table b))
    (hleft : ∀ y, ¬ R.table a y) (hright : ∀ x, ¬ R.table x b) (haside : ∀ t, ¬ R.aside b t) :
    Heap.Alike L (R.withTable a b) h h' := by
  have hnew : ∀ {x y}, R.table x y → x ≠ a ∧ y ≠ b := fun hr =>
    ⟨fun heq => hleft _ (heq ▸ hr), fun heq => hright _ (heq ▸ hr)⟩
  refine hh.grow Matching.grows_withTable.toWidens
    { hh.faithful with table := Matching.iff_of_or_of_ne hh.faithful.table hnew }
    ?_ .inl .inl .inl .inl .inl .inl ?_
  · rintro x y (hold | ⟨rfl, rfl⟩)
    · exact .inl hold
    · exact .inr ⟨ha, hb, ht⟩
  · rintro y u hy
    refine ⟨.inl hy, ?_⟩
    rintro x (hold | ⟨-, rfl⟩)
    · exact (hh.aside hy).2.2 x hold
    · exact haside u hy

end Heap.Alike

/-! ## Frames -/

section Frames

variable {framed framed' : Bool}

theorem Operand.Alike.variable_identity {cell : Nat} {u : Operand}
    (hp : (Operand.variable cell).Alike P.identity u) : cell ∈ P.cells := by
  generalize ho : Operand.variable cell = o at hp
  cases hp with
  | value _ => cases ho
  | cell hr =>
    cases ho
    exact hr.2
  | environment he => exact he.elim
  | read he => exact he.elim

theorem Operand.Alike.within {o o' u : Operand} (hp : o.Alike P.identity u) (h : o.Alike R o') :
    o.Alike (R.within P) o' := by
  cases h with
  | value h =>
    cases hp with
    | value hp => exact .value (hp.within h)
  | cell hr => exact .cell ⟨hr, hp.variable_identity⟩
  | environment he => exact .environment ⟨he, hp.variable_identity⟩
  | read he => exact .read ⟨he, hp.variable_identity⟩

theorem Target.Alike.within {t t' u : Target} (hp : t.Alike P.identity u) (h : t.Alike R t') :
    t.Alike (R.within P) t' := by
  cases h with
  | cell hr =>
    cases hp with
    | cell hp => exact .cell ⟨hr, hp.2⟩
  | field site ho hk =>
    cases hp with
    | field _ hpo hpk => exact .field site (hpo.within ho) (hpk.within hk)

theorem targetsAlike_within {ts ts' us : List Target}
    (hp : List.Forall₂ (Target.Alike P.identity) ts us) (h : List.Forall₂ (Target.Alike R) ts ts') :
    List.Forall₂ (Target.Alike (R.within P)) ts ts' :=
  forall₂_within (fun _ _ _ hp h => hp.within h) hp h

theorem assignedAlike_within {ps ps' us : List (Target × Value)}
    (hp : List.Forall₂ (AssignedAlike P.identity) ps us)
    (h : List.Forall₂ (AssignedAlike R) ps ps') :
    List.Forall₂ (AssignedAlike (R.within P)) ps ps' :=
  forall₂_within (fun _ _ _ hp h => ⟨hp.1.within h.1, hp.2.within h.2⟩) hp h

theorem Construction.Alike.within {c c' d : Construction} (hp : c.Alike P.identity d)
    (h : c.Alike R c') : c.Alike (R.within P) c' :=
  ⟨hp.table.within h.table, h.placed, hp.pending.within h.pending⟩

theorem SortPhase.Alike.within {p p' q : SortPhase} (hp : p.Alike P.identity q) (h : p.Alike R p') :
    p.Alike (R.within P) p' := by
  cases h with
  | left i j h =>
    cases hp with
    | left _ _ hp => exact .left i j (hp.within h)
  | right i j h =>
    cases hp with
    | right _ _ hp => exact .right i j (hp.within h)
  | _ => constructor

theorem Sorting.Alike.within {t t' u : Sorting} (hp : t.Alike P.identity u) (h : t.Alike R t') :
    t.Alike (R.within P) t' :=
  ⟨⟨h.table, hp.table.2⟩, optionRel_within (fun _ _ _ hp h => hp.within h) hp.order h.order,
    h.first, h.last, h.later, hp.phase.within h.phase⟩

theorem Format.Template.Alike.within {t t' u : Format.Template} (hp : t.Alike P.identity u)
    (h : t.Alike R t') : t.Alike (R.within P) t' :=
  ⟨h.callee, hp.values.within h.values, h.next, h.done, h.rest⟩

theorem Frame.Alike.within
    (hframe : ∀ {p p' q}, L₀.frame P.identity p q → L.frame R p p' → L.frame (R.within P) p p')
    {f f' g : Frame φ} (hp : f.Alike L₀ P.identity g) (h : f.Alike L R f') :
    f.Alike L (R.within P) f' := by
  cases h <;> cases hp <;> constructor <;>
    first
    | exact Value.Alike.within (by assumption) (by assumption)
    | exact ValuesAlike.within (by assumption) (by assumption)
    | exact Scope.Alike.within (by assumption) (by assumption)
    | exact Operand.Alike.within (by assumption) (by assumption)
    | exact Construction.Alike.within (by assumption) (by assumption)
    | exact targetsAlike_within (by assumption) (by assumption)
    | exact assignedAlike_within (by assumption) (by assumption)
    | exact Sorting.Alike.within (by assumption) (by assumption)
    | exact Format.Template.Alike.within (by assumption) (by assumption)
    | exact hframe (by assumption) (by assumption)
    | assumption

theorem stackAlike_within
    (hframe : ∀ {p p' q}, L₀.frame P.identity p q → L.frame R p p' → L.frame (R.within P) p p')
    {K K' J : List (Frame φ)} (hp : List.Forall₂ (Frame.Alike L₀ P.identity) K J)
    (h : List.Forall₂ (Frame.Alike L R) K K') :
    List.Forall₂ (Frame.Alike L (R.within P)) K K' :=
  forall₂_within (fun _ _ _ hp h => hp.within hframe h) hp h

end Frames

end ScriptedViews.Script

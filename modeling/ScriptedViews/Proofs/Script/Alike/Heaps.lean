import ScriptedViews.Proofs.Script.Alike.Scopes
import ScriptedViews.Proofs.Script.Alike.Tables
import ScriptedViews.Proofs.Script.Keeping

set_option autoImplicit false

/-! # Heaps that are alike

Heaps are alike by a matching if what stands for each other in them is alike. What is put on both of
them at once is matched from then on, and what is put on one of them alone is of no consequence. -/

namespace ScriptedViews.Script

/-- When objects of the host, its worlds and its frames are the same up to places on the heap. -/
structure Likeness (ω σ φ : Type) where
  object : Matching → ω → ω → Prop
  world : Matching → σ → σ → Prop
  frame : Matching → φ → φ → Prop
  object_mono : ∀ {R S o o'}, R.Widens S → object R o o' → object S o o'
  world_mono : ∀ {R S w w'}, R.Grows S → world R w w' → world S w w'
  frame_mono : ∀ {R S f f'}, R.Widens S → frame R f f' → frame S f f'

/-- Whether two functions do the same with variables that are alike. -/
structure Closure.Alike (R : Matching) (c c' : Closure) : Prop where
  function : c.function = c'.function
  vars : ∃ framed, VarsAlike R framed c.vars c'.vars
    ∧ (framed = true → c.function.leaves environmentName = true)
  chunk : c.chunk = c'.chunk

variable {ω σ φ : Type} {L : Likeness ω σ φ} {R S : Matching} {h h' : Heap ω}

theorem Closure.Alike.mono (hg : R.Widens S) {c c' : Closure} (hc : c.Alike R c') :
    c.Alike S c' := by
  obtain ⟨framed, hvars, hleaves⟩ := hc.vars
  exact ⟨hc.function, ⟨framed, hvars.mono hg, hleaves⟩, hc.chunk⟩

/-- Whether two objects are the same up to places on the heap. -/
inductive Object.Alike (L : Likeness ω σ φ) (R : Matching) : Object ω → Object ω → Prop where
  | host {o o' : ω} (h : L.object R o o') : Alike L R (.host o) (.host o')
  | failure (cause : RaisedError) : Alike L R (.failure cause) (.failure cause)

theorem Object.Alike.mono (hg : R.Widens S) {o o' : Object ω} (ho : o.Alike L R o') :
    o.Alike L S o' := by
  cases ho with
  | host ho => exact .host (L.object_mono hg ho)
  | failure cause => exact .failure cause

/-- Whether what stands for each other in two heaps is alike. -/
structure Heap.Alike (L : Likeness ω σ φ) (R : Matching) (h h' : Heap ω) : Prop where
  faithful : R.Faithful
  globals : R.table h.globals h'.globals
  textMetatable : R.table h.textMetatable h'.textMetatable
  listMetatable : R.table h.listMetatable h'.listMetatable
  tables_lt : ∀ {a b}, R.table a b → a < h.tables.size ∧ b < h'.tables.size
  tables : ∀ {a b}, R.table a b → (h.table a).Alike R (h'.table b)
  cells_lt : ∀ {a b}, R.cell a b → a < h.cells.size ∧ b < h'.cells.size
  cells : ∀ {a b}, R.cell a b → (h.cell a).Alike R (h'.cell b)
  functions : ∀ {a b}, R.function a b → ∃ c c', h.functions[a]? = some c
    ∧ h'.functions[b]? = some c' ∧ c.Alike R c'
  objects : ∀ {a b}, R.object a b → ∃ o o', h.objects[a]? = some o
    ∧ h'.objects[b]? = some o' ∧ o.Alike L R o'
  environment_lt : ∀ {e e'}, R.environment e e' → e.1 < h.cells.size ∧ e'.1 < h'.cells.size
  environment : ∀ {e e'}, R.environment e e' → h.cell e.1 = .table e.2 ∧ h'.cell e'.1 = .table e'.2
    ∧ R.table e.2 e'.2
  knownLeft : ∀ {a c}, R.knownLeft a c → h.functions[a]? = some c
  knownRight : ∀ {a c}, R.knownRight a c → h'.functions[a]? = some c
  aside : ∀ {b t}, R.aside b t → b < h'.tables.size ∧ h'.table b = t ∧ ∀ a, ¬ R.table a b

namespace Heap.Alike

/-! ## Reading -/

theorem metatable? (hh : Heap.Alike L R h h') {v v' : Value} (hv : v.Alike R v') :
    Option.Rel R.table (h.metatable? v) (h'.metatable? v') := by
  cases hv with
  | text bytes => exact .some hh.textMetatable
  | table ht => exact (hh.tables ht).metatable
  | _ => exact .none

theorem metafield (hh : Heap.Alike L R h h') {v v' : Value} (hv : v.Alike R v') (name : String) :
    (h.metafield v name).Alike R (h'.metafield v' name) := by
  have hm := hh.metatable? hv
  unfold Heap.metafield
  cases he : h.metatable? v <;> cases he' : h'.metatable? v' <;> rw [he, he'] at hm <;> cases hm
  · exact .nil
  · rename_i hr
    exact (hh.tables hr).getText hh.faithful _

theorem metafieldOf (hh : Heap.Alike L R h h') {v v' w w' : Value} (hv : v.Alike R v')
    (hw : w.Alike R w') (name : String) :
    (h.metafieldOf v w name).Alike R (h'.metafieldOf v' w' name) := by
  simp only [Heap.metafieldOf, (hh.metafield hv name).isNil_eq]
  split
  · exact hh.metafield hw name
  · exact hh.metafield hv name

/-! ## Writing -/

theorem modifyTable (hh : Heap.Alike L R h h') {a b : Nat} (hr : R.table a b)
    {f f' : Table → Table} (hf : ∀ t t', t.Alike R t' → (f t).Alike R (f' t')) :
    Heap.Alike L R (h.modifyTable a f) (h'.modifyTable b f') :=
  { hh with
    tables_lt := by
      intro x y hxy
      simpa only [Heap.modifyTable, Array.size_modify] using hh.tables_lt hxy
    tables := by
      intro x y hxy
      have hold := hh.tables hxy
      obtain ⟨hx, hy⟩ := hh.tables_lt hxy
      simp only [Heap.table, Heap.modifyTable, Array.getD_eq_getD_getElem?, Array.getElem?_modify,
        Array.getElem?_eq_getElem hx, Array.getElem?_eq_getElem hy] at hold ⊢
      -- the other table is changed exactly if this one is
      by_cases hax : a = x
      · have hby : b = y := (hh.faithful.table hr hxy).1 hax
        simp only [hax, hby, if_true, Option.map_some, Option.getD_some] at hold ⊢
        exact hf _ _ hold
      · have hby : ¬ b = y := fun heq => hax ((hh.faithful.table hr hxy).2 heq)
        simpa only [hax, hby, if_false] using hold
    aside := by
      intro y t hy
      obtain ⟨hlt, ht, hnot⟩ := hh.aside hy
      have hby : ¬ b = y := fun heq => hnot a (heq ▸ hr)
      refine ⟨by simpa only [Heap.modifyTable, Array.size_modify] using hlt, ?_, hnot⟩
      simpa only [Heap.table, Heap.modifyTable, Array.getD_eq_getD_getElem?, Array.getElem?_modify,
        hby, if_false] using ht }

theorem setCell (hh : Heap.Alike L R h h') {a b : Nat} (hr : R.cell a b) {v v' : Value}
    (hv : v.Alike R v') : Heap.Alike L R (h.setCell a v) (h'.setCell b v') :=
  { hh with
    cells_lt := by
      intro x y hxy
      simpa only [Heap.setCell, Array.size_setIfInBounds] using hh.cells_lt hxy
    cells := by
      intro x y hxy
      have hold := hh.cells hxy
      obtain ⟨hx, hy⟩ := hh.cells_lt hxy
      simp only [Heap.cell, Heap.setCell, Array.getD_eq_getD_getElem?,
        Array.getElem?_setIfInBounds] at hold ⊢
      by_cases hax : a = x
      · have hby : b = y := (hh.faithful.cell hr hxy).1 hax
        simpa only [hax, hby, if_true, hx, hy, Option.getD_some] using hv
      · have hby : ¬ b = y := fun heq => hax ((hh.faithful.cell hr hxy).2 heq)
        simpa only [hax, hby, if_false] using hold
    environment_lt := by
      intro e e' he
      simpa only [Heap.setCell, Array.size_setIfInBounds] using hh.environment_lt he
    environment := by
      intro e e' he
      obtain ⟨hne, hne'⟩ := hh.faithful.apart hr he
      have hold := hh.environment he
      simpa only [Heap.cell, Heap.setCell, Array.getD_eq_getD_getElem?,
        Array.getElem?_setIfInBounds, hne, hne', if_false] using hold }

end Heap.Alike

/-! ## Matching more -/

namespace Matching

variable (R) (a b : Nat)

/-- Match two tables too. -/
def withTable : Matching :=
  { R with table := fun x y => R.table x y ∨ x = a ∧ y = b }

/-- Match two variables too. -/
def withCell : Matching :=
  { R with cell := fun x y => R.cell x y ∨ x = a ∧ y = b }

/-- Match two functions too. -/
def withFunction : Matching :=
  { R with function := fun x y => R.function x y ∨ x = a ∧ y = b }

/-- Match two objects too. -/
def withObject : Matching :=
  { R with object := fun x y => R.object x y ∨ x = a ∧ y = b }

/-- Match two cells that hold tables of global variables too. -/
def withEnvironment (e e' : Nat × Nat) : Matching :=
  { R with environment := fun x y => R.environment x y ∨ x = e ∧ y = e' }

/-- Match what the host keeps too. -/
def withHosted : Matching :=
  { R with hosted := fun x y => R.hosted x y ∨ x = a ∧ y = b }

/-- Know a function of the first heap too. -/
def withKnownLeft (c : Closure) : Matching :=
  { R with knownLeft := fun x d => R.knownLeft x d ∨ x = a ∧ d = c }

/-- Know a function of the second heap too. -/
def withKnownRight (c : Closure) : Matching :=
  { R with knownRight := fun x d => R.knownRight x d ∨ x = a ∧ d = c }

variable {R a b}

theorem grows_withTable : R.Grows (R.withTable a b) :=
  { Grows.refl R with table := .inl }

theorem grows_withCell : R.Grows (R.withCell a b) :=
  { Grows.refl R with cell := .inl }

theorem grows_withFunction : R.Grows (R.withFunction a b) :=
  { Grows.refl R with function := .inl }

theorem grows_withObject : R.Grows (R.withObject a b) :=
  { Grows.refl R with object := .inl }

theorem grows_withEnvironment {e e' : Nat × Nat} : R.Grows (R.withEnvironment e e') :=
  { Grows.refl R with environment := .inl }

theorem widens_withHosted : R.Widens (R.withHosted a b) :=
  { Widens.refl R with hosted := .inl }

theorem grows_withKnownLeft {c : Closure} : R.Grows (R.withKnownLeft a c) :=
  { Grows.refl R with knownLeft := .inl }

theorem grows_withKnownRight {c : Closure} : R.Grows (R.withKnownRight a c) :=
  { Grows.refl R with knownRight := .inl }

theorem table_withTable : (R.withTable a b).table a b :=
  .inr ⟨rfl, rfl⟩

theorem cell_withCell : (R.withCell a b).cell a b :=
  .inr ⟨rfl, rfl⟩

theorem function_withFunction : (R.withFunction a b).function a b :=
  .inr ⟨rfl, rfl⟩

theorem object_withObject : (R.withObject a b).object a b :=
  .inr ⟨rfl, rfl⟩

/-- A relation that keeps different places apart still does so with a pair of others. -/
theorem iff_of_or_of_ne {r : Nat → Nat → Prop} {a b : Nat}
    (hr : ∀ {x y x' y'}, r x y → r x' y' → (x = x' ↔ y = y'))
    (hne : ∀ {x y}, r x y → x ≠ a ∧ y ≠ b) {x y x' y' : Nat} (h : r x y ∨ x = a ∧ y = b)
    (h' : r x' y' ∨ x' = a ∧ y' = b) : x = x' ↔ y = y' := by
  rcases h with h | ⟨rfl, rfl⟩ <;> rcases h' with h' | ⟨rfl, rfl⟩
  · exact hr h h'
  · have := hne h
    omega
  · have := hne h'
    omega
  · simp

/-- So it does with a pair of new ones. -/
theorem iff_of_or {r : Nat → Nat → Prop} {a b : Nat}
    (hr : ∀ {x y x' y'}, r x y → r x' y' → (x = x' ↔ y = y'))
    (hlt : ∀ {x y}, r x y → x < a ∧ y < b) {x y x' y' : Nat} (h : r x y ∨ x = a ∧ y = b)
    (h' : r x' y' ∨ x' = a ∧ y' = b) : x = x' ↔ y = y' :=
  iff_of_or_of_ne hr (fun h => (hlt h).imp Nat.ne_of_lt Nat.ne_of_lt) h h'

end Matching

namespace Heap.Alike

theorem functions_lt (hh : Heap.Alike L R h h') {a b : Nat} (hr : R.function a b) :
    a < h.functions.size ∧ b < h'.functions.size := by
  obtain ⟨c, c', hc, hc', -⟩ := hh.functions hr
  exact ⟨(Array.getElem?_eq_some_iff.1 hc).1, (Array.getElem?_eq_some_iff.1 hc').1⟩

theorem objects_lt (hh : Heap.Alike L R h h') {a b : Nat} (hr : R.object a b) :
    a < h.objects.size ∧ b < h'.objects.size := by
  obtain ⟨o, o', ho, ho', -⟩ := hh.objects hr
  exact ⟨(Array.getElem?_eq_some_iff.1 ho).1, (Array.getElem?_eq_some_iff.1 ho').1⟩

/-- More may be matched, as long as it is alike. -/
theorem grow (hh : Heap.Alike L R h h') (hg : R.Widens S) (hf : S.Faithful)
    (htables : ∀ {a b}, S.table a b → R.table a b
      ∨ a < h.tables.size ∧ b < h'.tables.size ∧ (h.table a).Alike S (h'.table b))
    (hcells : ∀ {a b}, S.cell a b → R.cell a b
      ∨ a < h.cells.size ∧ b < h'.cells.size ∧ (h.cell a).Alike S (h'.cell b))
    (hfunctions : ∀ {a b}, S.function a b → R.function a b
      ∨ ∃ c c', h.functions[a]? = some c ∧ h'.functions[b]? = some c' ∧ c.Alike S c')
    (hobjects : ∀ {a b}, S.object a b → R.object a b
      ∨ ∃ o o', h.objects[a]? = some o ∧ h'.objects[b]? = some o' ∧ o.Alike L S o')
    (henvironment : ∀ {e e'}, S.environment e e' → R.environment e e'
      ∨ (e.1 < h.cells.size ∧ e'.1 < h'.cells.size)
        ∧ h.cell e.1 = .table e.2 ∧ h'.cell e'.1 = .table e'.2 ∧ S.table e.2 e'.2)
    (hleft : ∀ {a c}, S.knownLeft a c → R.knownLeft a c ∨ h.functions[a]? = some c)
    (hright : ∀ {a c}, S.knownRight a c → R.knownRight a c ∨ h'.functions[a]? = some c)
    (haside : ∀ {b t}, S.aside b t →
      (R.aside b t ∨ b < h'.tables.size ∧ h'.table b = t) ∧ ∀ a, ¬ S.table a b) :
    Heap.Alike L S h h' where
  faithful := hf
  globals := hg.table hh.globals
  textMetatable := hg.table hh.textMetatable
  listMetatable := hg.table hh.listMetatable
  tables_lt hr := (htables hr).elim hh.tables_lt fun hnew => ⟨hnew.1, hnew.2.1⟩
  tables hr := (htables hr).elim (fun hold => (hh.tables hold).mono hg) fun hnew => hnew.2.2
  cells_lt hr := (hcells hr).elim hh.cells_lt fun hnew => ⟨hnew.1, hnew.2.1⟩
  cells hr := (hcells hr).elim (fun hold => (hh.cells hold).mono hg) fun hnew => hnew.2.2
  functions hr := by
    rcases hfunctions hr with hold | hnew
    · obtain ⟨c, c', hc, hc', halike⟩ := hh.functions hold
      exact ⟨c, c', hc, hc', halike.mono hg⟩
    · exact hnew
  objects hr := by
    rcases hobjects hr with hold | hnew
    · obtain ⟨o, o', ho, ho', halike⟩ := hh.objects hold
      exact ⟨o, o', ho, ho', halike.mono hg⟩
    · exact hnew
  environment_lt hr := (henvironment hr).elim hh.environment_lt fun hnew => hnew.1
  environment hr := by
    rcases henvironment hr with hold | hnew
    · obtain ⟨he, he', ht⟩ := hh.environment hold
      exact ⟨he, he', hg.table ht⟩
    · exact hnew.2
  knownLeft hr := (hleft hr).elim hh.knownLeft id
  knownRight hr := (hright hr).elim hh.knownRight id
  aside hr := by
    obtain ⟨hthere, hnot⟩ := haside hr
    rcases hthere with hold | ⟨hlt, ht⟩
    · obtain ⟨hlt, ht, -⟩ := hh.aside hold
      exact ⟨hlt, ht, hnot⟩
    · exact ⟨hlt, ht, hnot⟩

/-- What is put on either heap alone is of no consequence. -/
theorem keeps (hh : Heap.Alike L R h h') {k k' : Heap ω} (hk : Heap.Keeps [] h k)
    (hk' : Heap.Keeps [] h' k') : Heap.Alike L R k k' where
  faithful := hh.faithful
  globals := by rw [hk.globals, hk'.globals]; exact hh.globals
  textMetatable := by rw [hk.textMetatable, hk'.textMetatable]; exact hh.textMetatable
  listMetatable := by rw [hk.listMetatable, hk'.listMetatable]; exact hh.listMetatable
  tables_lt hr := (hh.tables_lt hr).imp (fun hlt => Nat.lt_of_lt_of_le hlt hk.tablesSize)
    fun hlt => Nat.lt_of_lt_of_le hlt hk'.tablesSize
  tables hr := by
    obtain ⟨hlt, hlt'⟩ := hh.tables_lt hr
    rw [hk.tables _ hlt List.not_mem_nil, hk'.tables _ hlt' List.not_mem_nil]
    exact hh.tables hr
  cells_lt hr := (hh.cells_lt hr).imp (fun hlt => Nat.lt_of_lt_of_le hlt hk.cellsSize)
    fun hlt => Nat.lt_of_lt_of_le hlt hk'.cellsSize
  cells hr := by
    obtain ⟨hlt, hlt'⟩ := hh.cells_lt hr
    rw [hk.cells _ hlt, hk'.cells _ hlt']
    exact hh.cells hr
  functions hr := by
    obtain ⟨c, c', hc, hc', halike⟩ := hh.functions hr
    exact ⟨c, c', hk.functions _ _ hc, hk'.functions _ _ hc', halike⟩
  objects hr := by
    obtain ⟨o, o', ho, ho', halike⟩ := hh.objects hr
    exact ⟨o, o', hk.objects _ _ ho, hk'.objects _ _ ho', halike⟩
  environment_lt hr := (hh.environment_lt hr).imp (fun hlt => Nat.lt_of_lt_of_le hlt hk.cellsSize)
    fun hlt => Nat.lt_of_lt_of_le hlt hk'.cellsSize
  environment hr := by
    obtain ⟨hlt, hlt'⟩ := hh.environment_lt hr
    rw [hk.cells _ hlt, hk'.cells _ hlt']
    exact hh.environment hr
  knownLeft hr := hk.functions _ _ (hh.knownLeft hr)
  knownRight hr := hk'.functions _ _ (hh.knownRight hr)
  aside hr := by
    obtain ⟨hlt, ht, hnot⟩ := hh.aside hr
    exact ⟨Nat.lt_of_lt_of_le hlt hk'.tablesSize, by rw [hk'.tables _ hlt List.not_mem_nil, ht],
      hnot⟩

/-! ## New things that are matched -/

theorem newTable (hh : Heap.Alike L R h h') {t t' : Table} (ht : t.Alike R t') :
    Heap.Alike L (R.withTable h.tables.size h'.tables.size) (h.newTable t).2 (h'.newTable t').2 := by
  have hg : R.Grows (R.withTable h.tables.size h'.tables.size) := Matching.grows_withTable
  refine (hh.keeps (Heap.keeps_newTable [] h t) (Heap.keeps_newTable [] h' t')).grow hg
    { hh.faithful with table := Matching.iff_of_or hh.faithful.table hh.tables_lt }
    ?_ .inl .inl .inl .inl .inl .inl ?_
  · rintro x y (hold | ⟨rfl, rfl⟩)
    · exact .inl hold
    · refine .inr ⟨by simp [Heap.newTable], by simp [Heap.newTable], ?_⟩
      rw [Heap.table_newTable, Heap.table_newTable]
      exact ht.mono hg
  · rintro y u hy
    obtain ⟨hlt, -, hnot⟩ := hh.aside hy
    refine ⟨.inl hy, ?_⟩
    rintro x (hold | ⟨-, rfl⟩)
    · exact hnot x hold
    · omega

/-- Two cells that are in neither heap's matching can be matched. -/
theorem withCell (hh : Heap.Alike L R h h') {a b : Nat} (ha : a < h.cells.size)
    (hb : b < h'.cells.size) (hv : (h.cell a).Alike R (h'.cell b))
    (hnew : ∀ {x y}, R.cell x y → x < a ∧ y < b)
    (hapart : ∀ {e e'}, R.environment e e' → e.1 < a ∧ e'.1 < b) :
    Heap.Alike L (R.withCell a b) h h' := by
  have hg : R.Grows (R.withCell a b) := Matching.grows_withCell
  refine hh.grow hg
    { hh.faithful with
      cell := Matching.iff_of_or hh.faithful.cell hnew
      apart := ?_ }
    .inl ?_ .inl .inl .inl .inl .inl fun hr => ⟨.inl hr, (hh.aside hr).2.2⟩
  · rintro x y e e' (hxy | ⟨rfl, rfl⟩) he
    · exact hh.faithful.apart hxy he
    · have := hapart he
      omega
  · rintro x y (hold | ⟨rfl, rfl⟩)
    · exact .inl hold
    · exact .inr ⟨ha, hb, hv.mono hg⟩

theorem newCell (hh : Heap.Alike L R h h') {v v' : Value} (hv : v.Alike R v') :
    Heap.Alike L (R.withCell h.cells.size h'.cells.size) (h.newCell v).2 (h'.newCell v').2 := by
  refine (hh.keeps (Heap.keeps_newCell [] h v) (Heap.keeps_newCell [] h' v')).withCell ?_ ?_ ?_
    hh.cells_lt hh.environment_lt
  · simp [Heap.newCell]
  · simp [Heap.newCell]
  · rwa [Heap.cell_newCell, Heap.cell_newCell]

/-- Two cells that hold tables that stand for each other, and that nothing else is known of, can be
    matched as tables of global variables. -/
theorem withEnvironment (hh : Heap.Alike L R h h') {e e' : Nat × Nat} (ha : e.1 < h.cells.size)
    (hb : e'.1 < h'.cells.size) (he : h.cell e.1 = .table e.2) (he' : h'.cell e'.1 = .table e'.2)
    (hr : R.table e.2 e'.2) (hnew : ∀ {x y}, R.cell x y → x < e.1 ∧ y < e'.1) :
    Heap.Alike L (R.withEnvironment e e') h h' := by
  refine hh.grow Matching.grows_withEnvironment.toWidens { hh.faithful with apart := ?_ }
    .inl .inl .inl .inl ?_ .inl .inl fun hr => ⟨.inl hr, (hh.aside hr).2.2⟩
  · rintro x y d d' hxy (hd | ⟨rfl, rfl⟩)
    · exact hh.faithful.apart hxy hd
    · have := hnew hxy
      omega
  · rintro d d' (hold | ⟨rfl, rfl⟩)
    · exact .inl hold
    · exact .inr ⟨⟨ha, hb⟩, he, he', hr⟩

theorem newFunction (hh : Heap.Alike L R h h') {c c' : Closure} (hc : c.Alike R c') :
    Heap.Alike L (R.withFunction h.functions.size h'.functions.size) (h.newFunction c).2
      (h'.newFunction c').2 := by
  have hg : R.Grows (R.withFunction h.functions.size h'.functions.size) :=
    Matching.grows_withFunction
  refine (hh.keeps (Heap.keeps_newFunction [] h c) (Heap.keeps_newFunction [] h' c')).grow hg
    { hh.faithful with function := Matching.iff_of_or hh.faithful.function hh.functions_lt }
    .inl .inl ?_ .inl .inl .inl .inl fun hr => ⟨.inl hr, (hh.aside hr).2.2⟩
  rintro x y (hold | ⟨rfl, rfl⟩)
  · exact .inl hold
  · exact .inr ⟨c, c', Heap.functions_newFunction h c, Heap.functions_newFunction h' c', hc.mono hg⟩

theorem newObject (hh : Heap.Alike L R h h') {o o' : Object ω} (ho : o.Alike L R o') :
    Heap.Alike L (R.withObject h.objects.size h'.objects.size) (h.newObject o).2
      (h'.newObject o').2 := by
  have hg : R.Grows (R.withObject h.objects.size h'.objects.size) := Matching.grows_withObject
  refine (hh.keeps (Heap.keeps_newObject [] h o) (Heap.keeps_newObject [] h' o')).grow hg
    { hh.faithful with object := Matching.iff_of_or hh.faithful.object hh.objects_lt }
    .inl .inl .inl ?_ .inl .inl .inl fun hr => ⟨.inl hr, (hh.aside hr).2.2⟩
  rintro x y (hold | ⟨rfl, rfl⟩)
  · exact .inl hold
  · exact .inr ⟨o, o', Heap.objects_newObject h o, Heap.objects_newObject h' o', ho.mono hg⟩

/-! ## What else is kept in mind -/

section

variable (hh : Heap.Alike L R h h')

include hh

theorem faithful_of_same {S : Matching} (ht : S.table = R.table) (hc : S.cell = R.cell)
    (hf : S.function = R.function) (ho : S.object = R.object)
    (he : S.environment = R.environment) : S.Faithful := by
  obtain ⟨table, cell, function, object, apart⟩ := hh.faithful
  exact ⟨ht ▸ table, hc ▸ cell, hf ▸ function, ho ▸ object, hc ▸ he ▸ apart⟩

/-- What the host keeps elsewhere is of no consequence to the heaps. -/
theorem withHosted (a b : Nat) : Heap.Alike L (R.withHosted a b) h h' :=
  hh.grow Matching.widens_withHosted (hh.faithful_of_same rfl rfl rfl rfl rfl) .inl .inl .inl .inl
    .inl .inl .inl fun hr => ⟨.inl hr, (hh.aside hr).2.2⟩

/-- A function on the first heap can be known from now on. -/
theorem withKnownLeft {a : Nat} {c : Closure} (hc : h.functions[a]? = some c) :
    Heap.Alike L (R.withKnownLeft a c) h h' :=
  hh.grow Matching.grows_withKnownLeft.toWidens (hh.faithful_of_same rfl rfl rfl rfl rfl) .inl .inl .inl .inl
    .inl (fun hr => hr.imp_right fun ⟨ha, hd⟩ => ha ▸ hd ▸ hc) .inl
    fun hr => ⟨.inl hr, (hh.aside hr).2.2⟩

/-- A function on the second heap can be known from now on. -/
theorem withKnownRight {a : Nat} {c : Closure} (hc : h'.functions[a]? = some c) :
    Heap.Alike L (R.withKnownRight a c) h h' :=
  hh.grow Matching.grows_withKnownRight.toWidens (hh.faithful_of_same rfl rfl rfl rfl rfl) .inl .inl .inl
    .inl .inl .inl (fun hr => hr.imp_right fun ⟨ha, hd⟩ => ha ▸ hd ▸ hc)
    fun hr => ⟨.inl hr, (hh.aside hr).2.2⟩

end

end Heap.Alike

end ScriptedViews.Script

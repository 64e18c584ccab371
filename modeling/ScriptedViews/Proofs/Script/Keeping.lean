import ScriptedViews.Script.Import

set_option autoImplicit false

/-! # What a heap keeps

Nothing is ever taken off the heap. Besides that, most of what is on it stays as it is: here is what
it means that one heap has come out of another without a change to anything but some free tables. -/

namespace ScriptedViews.Script.Heap

variable {ω : Type}

/-- Whether a heap has come out of another one with only some free tables changed. -/
structure Keeps (free : List Nat) (h h' : Heap ω) : Prop where
  tables : ∀ ref, ref < h.tables.size → ref ∉ free → h'.table ref = h.table ref
  tablesSize : h.tables.size ≤ h'.tables.size
  cells : ∀ ref, ref < h.cells.size → h'.cell ref = h.cell ref
  cellsSize : h.cells.size ≤ h'.cells.size
  functions : ∀ (ref : Nat) (c : Closure), h.functions[ref]? = some c → h'.functions[ref]? = some c
  objects : ∀ (ref : Nat) (o : Object ω), h.objects[ref]? = some o → h'.objects[ref]? = some o
  globals : h'.globals = h.globals
  textMetatable : h'.textMetatable = h.textMetatable
  listMetatable : h'.listMetatable = h.listMetatable

namespace Keeps

theorem refl (free : List Nat) (h : Heap ω) : Keeps free h h :=
  ⟨fun _ _ _ => rfl, Nat.le_refl _, fun _ _ => rfl, Nat.le_refl _, fun _ _ hc => hc,
    fun _ _ ho => ho, rfl, rfl, rfl⟩

/-- What is free later was free before, or is new. -/
theorem trans {free free' : List Nat} {h h' h'' : Heap ω} (hk : Keeps free h h')
    (hfree : ∀ ref ∈ free', ref ∈ free ∨ h.tables.size ≤ ref) (hk' : Keeps free' h' h'') :
    Keeps free h h'' where
  tables ref hlt hnot := by
    have hnot' : ref ∉ free' := by
      intro hmem
      rcases hfree ref hmem with hold | hnew
      · exact hnot hold
      · omega
    rw [hk'.tables ref (Nat.lt_of_lt_of_le hlt hk.tablesSize) hnot', hk.tables ref hlt hnot]
  tablesSize := Nat.le_trans hk.tablesSize hk'.tablesSize
  cells ref hlt := by
    rw [hk'.cells ref (Nat.lt_of_lt_of_le hlt hk.cellsSize), hk.cells ref hlt]
  cellsSize := Nat.le_trans hk.cellsSize hk'.cellsSize
  functions ref c hc := hk'.functions ref c (hk.functions ref c hc)
  objects ref o ho := hk'.objects ref o (hk.objects ref o ho)
  globals := hk'.globals.trans hk.globals
  textMetatable := hk'.textMetatable.trans hk.textMetatable
  listMetatable := hk'.listMetatable.trans hk.listMetatable

/-- More tables may be free. -/
theorem mono {free free' : List Nat} {h h' : Heap ω} (hk : Keeps free h h')
    (hfree : ∀ ref ∈ free, ref ∈ free') : Keeps free' h h' :=
  { hk with tables := fun ref hlt hnot => hk.tables ref hlt fun hmem => hnot (hfree ref hmem) }

end Keeps

/-! ## New things -/

theorem table_push {ts : Array Table} {t : Table} {ref : Nat} (h : ref < ts.size) :
    (ts.push t).getD ref {} = ts.getD ref {} := by
  rw [Array.getD_eq_getD_getElem?, Array.getD_eq_getD_getElem?, Array.getElem?_push_lt h,
    Array.getElem?_eq_getElem h]

theorem keeps_newTable (free : List Nat) (h : Heap ω) (t : Table) : Keeps free h (h.newTable t).2 :=
  { Keeps.refl free h with
    tables := fun _ hlt _ => table_push hlt
    tablesSize := by simp [newTable] }

theorem keeps_newCell (free : List Nat) (h : Heap ω) (v : Value) : Keeps free h (h.newCell v).2 :=
  { Keeps.refl free h with
    cells := by
      intro ref hlt
      simp only [cell, newCell, Array.getD_eq_getD_getElem?, Array.getElem?_push_lt hlt,
        Array.getElem?_eq_getElem hlt]
    cellsSize := by simp [newCell] }

theorem keeps_newFunction (free : List Nat) (h : Heap ω) (c : Closure) :
    Keeps free h (h.newFunction c).2 :=
  { Keeps.refl free h with
    functions := by
      intro ref c' hc
      have hlt : ref < h.functions.size := (Array.getElem?_eq_some_iff.1 hc).1
      simp only [newFunction]
      rw [Array.getElem?_push_lt hlt, ← hc, Array.getElem?_eq_getElem hlt] }

theorem keeps_newObject (free : List Nat) (h : Heap ω) (o : Object ω) :
    Keeps free h (h.newObject o).2 :=
  { Keeps.refl free h with
    objects := by
      intro ref o' ho
      have hlt : ref < h.objects.size := (Array.getElem?_eq_some_iff.1 ho).1
      simp only [newObject]
      rw [Array.getElem?_push_lt hlt, ← ho, Array.getElem?_eq_getElem hlt] }

/-- A free or new table may be changed. -/
theorem keeps_modifyTable {free : List Nat} (h : Heap ω) {ref : Nat} (hfree : ref ∈ free)
    (f : Table → Table) : Keeps free h (h.modifyTable ref f) :=
  { Keeps.refl free h with
    tables := by
      intro ref' hlt hnot
      have hne : ref ≠ ref' := fun heq => hnot (heq ▸ hfree)
      simp only [table, modifyTable, Array.getD_eq_getD_getElem?, Array.getElem?_modify, hne,
        if_false]
    tablesSize := by simp [modifyTable] }

/-! ## What new things are -/

theorem cell_newCell (h : Heap ω) (v : Value) : (h.newCell v).2.cell h.cells.size = v := by
  simp [cell, newCell, Array.getD_eq_getD_getElem?]

theorem functions_newFunction (h : Heap ω) (c : Closure) :
    (h.newFunction c).2.functions[h.functions.size]? = some c := by
  simp [newFunction]

theorem table_newTable (h : Heap ω) (t : Table) : (h.newTable t).2.table h.tables.size = t := by
  simp [table, newTable, Array.getD_eq_getD_getElem?]

theorem objects_newObject (h : Heap ω) (o : Object ω) :
    (h.newObject o).2.objects[h.objects.size]? = some o := by
  simp [newObject]

theorem table_modifyTable_self {h : Heap ω} {ref : Nat} (hlt : ref < h.tables.size)
    (f : Table → Table) : (h.modifyTable ref f).table ref = f (h.table ref) := by
  simp [table, modifyTable, Array.getD_eq_getD_getElem?, Array.getElem?_modify,
    Array.getElem?_eq_getElem hlt]

theorem table_modifyTable_ne {h : Heap ω} {ref ref' : Nat} (hne : ref ≠ ref')
    (f : Table → Table) : (h.modifyTable ref f).table ref' = h.table ref' := by
  simp [table, modifyTable, Array.getD_eq_getD_getElem?, Array.getElem?_modify, hne]

/-! ## Tables that are there -/

/-- What is not on the heap is an empty table. -/
theorem lt_of_getText {h : Heap ω} {ref : Nat} {n : Bytes} (hne : (h.table ref).getText n ≠ .nil) :
    ref < h.tables.size := by
  rcases Nat.lt_or_ge ref h.tables.size with hlt | hge
  · exact hlt
  · rw [table, Array.getD_eq_getD_getElem?, Array.getElem?_eq_none hge] at hne
    exact absurd rfl hne

theorem lt_of_metatable {h : Heap ω} {ref m : Nat} (hm : (h.table ref).metatable = some m) :
    ref < h.tables.size := by
  rcases Nat.lt_or_ge ref h.tables.size with hlt | hge
  · exact hlt
  · rw [table, Array.getD_eq_getD_getElem?, Array.getElem?_eq_none hge] at hm
    simp at hm

theorem lt_of_cell {h : Heap ω} {ref : Nat} {v : Value} (hv : h.cell ref = v) (hne : v ≠ .nil) :
    ref < h.cells.size := by
  rcases Nat.lt_or_ge ref h.cells.size with hlt | hge
  · exact hlt
  · rw [cell, Array.getD_eq_getD_getElem?, Array.getElem?_eq_none hge] at hv
    exact absurd hv.symm hne

/-! ## JSON values -/

mutual

/-- A JSON value is put on the heap as new tables. -/
theorem keeps_importJson (h : Heap ω) (j : Json) : Keeps [] h (h.importJson j).2 := by
  cases j with
  | arr items =>
    rw [importJson]
    exact (keeps_importItems h items).trans (by simp) (keeps_newTable [] _ _)
  | obj fields =>
    rw [importJson]
    exact (keeps_importFields h {} fields).trans (by simp) (keeps_newTable [] _ _)
  | _ => exact .refl _ _

theorem keeps_importItems (h : Heap ω) (js : List Json) : Keeps [] h (h.importItems js).2 := by
  cases js with
  | nil => exact .refl _ _
  | cons j js =>
    rw [importItems]
    exact (keeps_importJson h j).trans (by simp) (keeps_importItems _ js)

theorem keeps_importFields (h : Heap ω) (t : Table) (fields : List (String × Json)) :
    Keeps [] h (h.importFields t fields).2 := by
  cases fields with
  | nil => exact .refl _ _
  | cons field fields =>
    obtain ⟨name, j⟩ := field
    rw [importFields]
    exact (keeps_importJson h j).trans (by simp) (keeps_importFields _ _ fields)

end

end ScriptedViews.Script.Heap

import ScriptedViews.Proofs.Script.Table
import ScriptedViews.Proofs.Text.Utf8
import ScriptedViews.Script.Executable
import ScriptedViews.Script.Import
import ScriptedViews.Script.Library.Basic

set_option autoImplicit false

/-! # Heaps that grow

What code does to a heap by itself: tables are added and changed, and none is ever taken off or comes
to have two entries with the same key. The table of the global variables stays the one it is, objects
stay what they are, and all new ones are failures. -/

namespace ScriptedViews.Script

/-! ## Tables without double entries -/

namespace Table

variable {t : Table} {es : List (Value × Value)}

theorem AreDistinct.filter (h : AreDistinct es) (p : Value × Value → Bool) :
    AreDistinct (es.filter p) :=
  List.Pairwise.filter p h

theorem areDistinct_absorb (fuel : Nat) (h : AreDistinct t.entries) :
    AreDistinct (absorb fuel t).entries := by
  induction fuel generalizing t with
  | zero => exact h
  | succ fuel ih =>
    simp only [absorb]
    split
    · exact h
    · exact ih (h.filter _)

theorem areDistinct_push (h : AreDistinct t.entries) (v : Value) :
    AreDistinct (t.push v).entries := by
  simp only [push]
  split
  · exact h
  · exact areDistinct_absorb _ h

theorem areDistinct_setNormal (h : AreDistinct t.entries) (key v : Value) :
    AreDistinct (t.setNormal key v).entries := by
  unfold setNormal
  split
  · split
    · exact h
    · split
      · split
        · exact h
        · exact areDistinct_push h v
      · exact areDistinct_setEntry h _ v
  · exact areDistinct_setEntry h _ v

theorem areDistinct_set (h : AreDistinct t.entries) (key v : Value) :
    AreDistinct (t.set key v).entries :=
  areDistinct_setNormal h key.normalKey v

theorem areDistinct_setItems (vs : List Value) (start : Nat) (h : AreDistinct t.entries) :
    AreDistinct (setItems start vs t).entries := by
  induction vs generalizing start t with
  | nil => exact h
  | cons v vs ih =>
    rw [setItems]
    split
    · exact ih (start + 1) h
    · exact ih (start + 1) (areDistinct_push h v)

theorem areDistinct_shiftUp (fuel i : Nat) (h : AreDistinct t.entries) :
    AreDistinct (TableLibrary.shiftUp fuel i t).entries := by
  induction fuel generalizing i t with
  | zero => exact h
  | succ fuel ih => exact ih (i - 1) (areDistinct_set h _ _)

theorem areDistinct_shiftDown (fuel i : Nat) (h : AreDistinct t.entries) :
    AreDistinct (TableLibrary.shiftDown fuel i t).entries := by
  induction fuel generalizing i t with
  | zero => exact h
  | succ fuel ih => exact ih (i + 1) (areDistinct_set h _ _)

end Table

open Table (AreDistinct)

namespace Heap

variable {ω : Type} {h h' h'' : Heap ω}

/-- Whether no table has two entries with the same key. -/
def IsDistinct (h : Heap ω) : Prop :=
  ∀ ref, AreDistinct (h.table ref).entries

/-- Whether a heap has come out of another one by what code does by itself. -/
structure Grows (h h' : Heap ω) : Prop where
  size_le : h.tables.size ≤ h'.tables.size
  globals : h'.globals = h.globals
  objects : ∀ (ref : Nat) (o : Object ω), h.objects[ref]? = some o → h'.objects[ref]? = some o
  /-- No object of the host is new. -/
  hosts : ∀ (ref : Nat) (o : ω), h'.objects[ref]? = some (.host o) →
    h.objects[ref]? = some (.host o)
  distinct : h.IsDistinct → h'.IsDistinct

namespace Grows

theorem refl (h : Heap ω) : h.Grows h :=
  ⟨Nat.le_refl _, rfl, fun _ _ ho => ho, fun _ _ ho => ho, id⟩

theorem trans (hg : h.Grows h') (hg' : h'.Grows h'') : h.Grows h'' where
  size_le := Nat.le_trans hg.size_le hg'.size_le
  globals := hg'.globals.trans hg.globals
  objects ref o ho := hg'.objects ref o (hg.objects ref o ho)
  hosts ref o ho := hg.hosts ref o (hg'.hosts ref o ho)
  distinct hd := hg'.distinct (hg.distinct hd)

end Grows

/-! ## New things -/

theorem isDistinct_push (hd : h.IsDistinct) {t : Table} (ht : AreDistinct t.entries) :
    IsDistinct { h with tables := h.tables.push t } := by
  intro ref
  have hold := hd ref
  simp only [table, Array.getD_eq_getD_getElem?, Array.getElem?_push] at hold ⊢
  split
  · exact ht
  · exact hold

theorem grows_newTable (h : Heap ω) {t : Table} (ht : AreDistinct t.entries) :
    h.Grows (h.newTable t).2 :=
  { Grows.refl h with
    size_le := by simp [newTable]
    distinct := fun hd => isDistinct_push hd ht }

theorem grows_modifyTable (h : Heap ω) (ref : Nat) {f : Table → Table}
    (hf : ∀ t : Table, AreDistinct t.entries → AreDistinct (f t).entries) :
    h.Grows (h.modifyTable ref f) :=
  { Grows.refl h with
    size_le := by simp [modifyTable]
    distinct := by
      intro hd i
      have hold := hd i
      simp only [table, modifyTable, Array.getD_eq_getD_getElem?, Array.getElem?_modify] at hold ⊢
      split
      · cases hi : h.tables[i]? with
        | none => simpa [hi] using hold
        | some t =>
          rw [hi] at hold
          exact hf t hold
      · exact hold }

theorem grows_newCell (h : Heap ω) (v : Value) : h.Grows (h.newCell v).2 :=
  ⟨Nat.le_refl _, rfl, fun _ _ ho => ho, fun _ _ ho => ho, id⟩

theorem grows_setCell (h : Heap ω) (cell : Nat) (v : Value) : h.Grows (h.setCell cell v) :=
  ⟨Nat.le_refl _, rfl, fun _ _ ho => ho, fun _ _ ho => ho, id⟩

theorem grows_newFunction (h : Heap ω) (c : Closure) : h.Grows (h.newFunction c).2 :=
  ⟨Nat.le_refl _, rfl, fun _ _ ho => ho, fun _ _ ho => ho, id⟩

theorem getElem?_newObject (h : Heap ω) (o : Object ω) {ref : Nat} {p : Object ω}
    (hp : h.objects[ref]? = some p) : (h.newObject o).2.objects[ref]? = some p := by
  obtain ⟨hlt, -⟩ := Array.getElem?_eq_some_iff.1 hp
  rw [newObject, Array.getElem?_push_lt hlt]
  exact (Array.getElem?_eq_getElem hlt).symm.trans hp

theorem grows_newFailure (h : Heap ω) (cause : RaisedError) :
    h.Grows (h.newObject (.failure cause)).2 where
  size_le := Nat.le_refl _
  globals := rfl
  objects _ _ ho := getElem?_newObject h _ ho
  hosts ref o ho := by
    simp only [newObject, Array.getElem?_push] at ho
    split at ho
    · cases ho
    · exact ho
  distinct := id

theorem grows_readChunk {levels : Nat} {name source : Bytes} {environment f : Value}
    (hr : h.readChunk levels name source environment = .ok (f, h')) : h.Grows h' := by
  unfold readChunk at hr
  split at hr
  · cases hr
  · cases hr
    exact (grows_newCell h _).trans (grows_newFunction _ _)

theorem grows_readSource {levels : Nat} {name : String} {source : Bytes} {environment f : Value}
    (hr : h.readSource levels name source environment = .ok (f, h')) : h.Grows h' := by
  unfold readSource at hr
  dsimp only at hr
  split at hr
  · cases hr
  · split at hr
    · next hc =>
      cases hr
      exact grows_readChunk hc
    · cases hr

theorem grows_callOf {levels context : Nat} {x : Executable} {f : Value} {args : List Value}
    (hr : h.callOf levels x context = .ok (f, args, h')) : h.Grows h' := by
  unfold callOf at hr
  split at hr
  · cases hr
    exact .refl h
  · split at hr
    · next hc =>
      cases hr
      exact grows_readSource hc
    · cases hr

/-! ## Imported values -/

mutual

theorem grows_importJson (h : Heap ω) (j : Json) : h.Grows (h.importJson j).2 := by
  cases j with
  | arr items =>
    rw [importJson]
    exact (grows_importItems h items).trans (grows_newTable _ .nil)
  | obj fields =>
    rw [importJson]
    have hfields := grows_importFields h {} fields
    exact hfields.1.trans (grows_newTable _ (hfields.2 .nil))
  | _ => exact .refl _

theorem grows_importItems (h : Heap ω) (js : List Json) : h.Grows (h.importItems js).2 := by
  cases js with
  | nil => exact .refl _
  | cons j js =>
    rw [importItems]
    exact (grows_importJson h j).trans (grows_importItems _ js)

theorem grows_importFields (h : Heap ω) (t : Table) (fields : List (String × Json)) :
    h.Grows (h.importFields t fields).2
      ∧ (AreDistinct t.entries → AreDistinct (h.importFields t fields).1.entries) := by
  cases fields with
  | nil => exact ⟨.refl _, id⟩
  | cons field fields =>
    obtain ⟨name, j⟩ := field
    rw [importFields]
    have hfields := grows_importFields (h.importJson j).2 (t.setText (utf8 name) (h.importJson j).1)
      fields
    exact ⟨(grows_importJson h j).trans hfields.1,
      fun ht => hfields.2 (Table.areDistinct_setEntry ht _ _)⟩

end

/-! ## The heap at the start -/

theorem areDistinct_ofEntries {es : List (String × Value)} (h : (es.map (·.1)).Nodup) :
    AreDistinct (Table.ofEntries es).entries := by
  refine List.pairwise_map.2 ((List.pairwise_map.1 h).imp fun {a b} hne => ?_)
  rw [Bool.eq_false_iff]
  exact fun hsame => hne (Text.utf8_injective (Value.text.inj (Table.same_text_iff.1 hsame)))

theorem isDistinct_start : (start : Heap ω).IsDistinct := by
  have hlibrary : ∀ t ∈ libraryTables.toList, AreDistinct t.entries := by
    simp only [libraryTables, List.forall_mem_cons]
    refine ⟨?_, ?_, ?_, ?_, ?_, ?_, nofun⟩ <;> exact areDistinct_ofEntries (by decide)
  intro ref
  simp only [table, start, Array.getD_eq_getD_getElem?]
  cases ht : libraryTables[ref]? with
  | none => exact .nil
  | some t => exact hlibrary t (Array.mem_toList_iff.2 (Array.mem_of_getElem? ht))

end Heap

/-! ## The library -/

namespace TableLibrary

variable {ω α : Type} {h : Heap ω} {a : Arguments}

/-- Whether a heap only grows where something gives one. -/
def Growing (h : Heap ω) (r : Except String (List Value × Heap ω)) : Prop :=
  ∀ vs h', r = .ok (vs, h') → h.Grows h'

theorem growing_error (h : Heap ω) (reason : String) : Growing h (.error reason) :=
  fun _ _ hr => by cases hr

theorem growing_ok {h' : Heap ω} (hg : h.Grows h') (vs : List Value) :
    Growing h (.ok (vs, h')) :=
  fun _ _ hr => by
    cases hr
    exact hg

theorem growing_bind {x : Except String α} {f : α → Except String (List Value × Heap ω)}
    (hf : ∀ v, Growing h (f v)) : Growing h (x >>= f) := by
  cases x with
  | error reason => exact growing_error h reason
  | ok v => exact hf v

theorem growing_map (h : Heap ω) (r : Except String (List Value)) :
    Growing h (r.map fun vs => (vs, h)) := by
  cases r with
  | error reason => exact growing_error h reason
  | ok vs => exact growing_ok (.refl h) vs

theorem growing_concat : Growing h (concat h a) := by
  refine growing_bind fun _ => growing_bind fun _ => growing_bind fun _ => growing_bind fun _ => ?_
  split
  · exact growing_ok (.refl h) _
  · exact growing_bind fun _ => growing_ok (.refl h) _

theorem growing_insert : Growing h (insert h a) := by
  refine growing_bind fun ref => ?_
  dsimp only
  split
  · exact growing_ok (Heap.grows_modifyTable h _ fun t ht => Table.areDistinct_set ht _ _) _
  · refine growing_bind fun position => ?_
    split
    · exact growing_ok (Heap.grows_modifyTable h _ fun t ht =>
        Table.areDistinct_set (Table.areDistinct_shiftUp _ _ ht) _ _) _
    · exact growing_error h _
  · exact growing_error h _

theorem growing_remove : Growing h (remove h a) := by
  refine growing_bind fun ref => growing_bind fun position => ?_
  dsimp only
  split
  · exact growing_error h _
  · exact growing_ok (Heap.grows_modifyTable h _ fun t ht =>
      Table.areDistinct_set (Table.areDistinct_shiftDown _ _ ht) _ _) _

theorem growing_unpack : Growing h (unpack h a) := by
  refine growing_bind fun _ => growing_bind fun _ => ?_
  dsimp only
  split
  · exact growing_error h _
  · exact growing_ok (.refl h) _

theorem growing_pack : Growing h (pack h a) :=
  growing_ok (Heap.grows_newTable h
    (Table.areDistinct_setEntry (t := Table.ofList a.values) List.Pairwise.nil _ _)) _

theorem growing_next : Growing h (next h a) := by
  refine growing_bind fun _ => ?_
  split
  · exact growing_error h _
  · exact growing_ok (.refl h) _
  · exact growing_ok (.refl h) _

theorem growing_rawget : Growing h (rawget h a) :=
  growing_bind fun _ => growing_bind fun _ => growing_ok (.refl h) _

theorem growing_rawset : Growing h (rawset h a) := by
  refine growing_bind fun _ => growing_bind fun _ => growing_bind fun _ => ?_
  split
  · exact growing_error h _
  · exact growing_ok (Heap.grows_modifyTable h _ fun t ht => Table.areDistinct_set ht _ _) _

theorem growing_rawlen : Growing h (rawlen h a) := by
  unfold rawlen
  split
  · exact growing_ok (.refl h) _
  · exact growing_ok (.refl h) _
  · exact growing_error h _

theorem growing_rawequal : Growing h (rawequal h a) :=
  growing_bind fun _ => growing_bind fun _ => growing_ok (.refl h) _

theorem growing_getmetatable : Growing h (getmetatable h a) := by
  refine growing_bind fun _ => ?_
  split
  · exact growing_ok (.refl h) _
  · split
    · exact growing_ok (.refl h) _
    · exact growing_ok (.refl h) _

theorem growing_setmetatable : Growing h (setmetatable h a) := by
  have hset : ∀ (ref : Nat) (metatable : Option Nat), Growing h
      (if (h.metafield (.table ref) "__metatable").isNil then
        .ok ([.table ref], h.modifyTable ref fun t => { t with metatable })
      else .error "cannot change a protected metatable") := by
    intro ref metatable
    split
    · exact growing_ok
        (Heap.grows_modifyTable h ref (f := fun t => { t with metatable }) fun _ ht => ht) _
    · exact growing_error h _
  refine growing_bind fun ref => growing_bind fun m => ?_
  dsimp only
  split
  · exact hset ref none
  · exact hset ref (some _)
  · exact growing_bind fun metatable => hset ref metatable

end TableLibrary

open TableLibrary in
theorem Heap.grows_run? {ω : Type} {h h' : Heap ω} {a : Arguments} {vs : List Value}
    (hr : a.run? h = some (.ok (vs, h'))) : h.Grows h' := by
  unfold Arguments.run? at hr
  dsimp only at hr
  split at hr <;> first
    | exact growing_map h _ _ _ (Option.some.inj hr)
    | exact growing_getmetatable _ _ (Option.some.inj hr)
    | exact growing_next _ _ (Option.some.inj hr)
    | exact growing_rawequal _ _ (Option.some.inj hr)
    | exact growing_rawget _ _ (Option.some.inj hr)
    | exact growing_rawlen _ _ (Option.some.inj hr)
    | exact growing_rawset _ _ (Option.some.inj hr)
    | exact growing_setmetatable _ _ (Option.some.inj hr)
    | exact growing_concat _ _ (Option.some.inj hr)
    | exact growing_insert _ _ (Option.some.inj hr)
    | exact growing_pack _ _ (Option.some.inj hr)
    | exact growing_remove _ _ (Option.some.inj hr)
    | exact growing_unpack _ _ (Option.some.inj hr)
    | cases hr

end ScriptedViews.Script

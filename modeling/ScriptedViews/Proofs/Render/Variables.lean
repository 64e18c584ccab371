import ScriptedViews.Proofs.Render.Ready
import ScriptedViews.Proofs.Text.Utf8

set_option autoImplicit false

/-! # The variables of a render

Giving an idle context the variables that a view's code starts with makes it a context in use. A view
that declares neither of the functions that its code calls leaves them to the global variables,
whatever values it is given. -/

namespace ScriptedViews.Expansion

open Script (Value Heap utf8)
open Script.Table (AreDistinct areDistinct_setText getText_setText_self getText_setText_ne
  metatable_setText)
open Code (bridgeName contentName)
open Text (utf8_injective)

/-- Whether a heap has come out of another one by giving a context variables, but for the functions
    of the library that code of plain views calls. -/
structure Binds (context : Nat) (h h' : BridgeHeap) : Prop where
  keeps : Heap.Keeps [context] h h'
  distinct : AreDistinct (h'.table context).entries
  metatable : (h'.table context).metatable = (h.table context).metatable
  load : (h'.table context).getText (utf8 "load") = .nil
  assert : (h'.table context).getText (utf8 "assert") = .nil

variable {context : Nat} {h h' : BridgeHeap}

theorem Binds.lt (hb : Binds context h h') (hlt : context < h.tables.size) :
    context < h'.tables.size :=
  Nat.lt_of_lt_of_le hlt hb.keeps.tablesSize

theorem table_contextSet {name : String} {v : Value} (hlt : context < h.tables.size) :
    (h.contextSet context name v).table context = (h.table context).setText (utf8 name) v :=
  Heap.table_modifyTable_self hlt _

theorem Binds.contextSet (hb : Binds context h h') (hlt : context < h.tables.size) {name : String}
    (hload : name ≠ "load") (hassert : name ≠ "assert") (v : Value) :
    Binds context h (h'.contextSet context name v) where
  keeps := hb.keeps.trans (fun _ hmem => .inl hmem)
    (Heap.keeps_modifyTable h' (List.mem_singleton.2 rfl) _)
  distinct := by
    rw [table_contextSet (hb.lt hlt)]
    exact areDistinct_setText hb.distinct _ _
  metatable := by rw [table_contextSet (hb.lt hlt), metatable_setText, hb.metatable]
  load := by
    rw [table_contextSet (hb.lt hlt), getText_setText_ne hb.distinct, hb.load]
    exact fun heq => hload (utf8_injective heq).symm
  assert := by
    rw [table_contextSet (hb.lt hlt), getText_setText_ne hb.distinct, hb.assert]
    exact fun heq => hassert (utf8_injective heq).symm

/-- An object that is new touches no context. -/
theorem Binds.newObject (hb : Binds context h h') (o : Script.Object Bridge) :
    Binds context h (h'.newObject o).2 :=
  ⟨hb.keeps.trans (fun _ hmem => .inl hmem) (Heap.keeps_newObject [context] h' o), hb.distinct,
    hb.metatable, hb.load, hb.assert⟩

/-! ## Declared attributes -/

theorem Binds.foldl {α : Type} {f : BridgeHeap → α → BridgeHeap} {es : List α}
    (hb : Binds context h h')
    (hf : ∀ h', ∀ e ∈ es, Binds context h h' → Binds context h (f h' e)) :
    Binds context h (es.foldl f h') := by
  induction es generalizing h' with
  | nil => exact hb
  | cons e es ih =>
    exact ih (hf h' e List.mem_cons_self hb) fun h' e he => hf h' e (List.mem_cons_of_mem _ he)

/-- A name that is declared is none that is not. -/
theorem ne_of_contains {defaults : OrderedMap String String} {name other : String}
    (hname : defaults.contains name = true) (hother : defaults.contains other = false) :
    name ≠ other := by
  rintro rfl
  rw [hother] at hname
  cases hname

variable {defaults : OrderedMap String String}

theorem Binds.bindDefaults (hb : Binds context h h') (hlt : context < h.tables.size)
    (hload : defaults.contains "load" = false) (hassert : defaults.contains "assert" = false) :
    Binds context h (Render.bindDefaults h' context defaults) := by
  refine hb.foldl fun h' e he hb => ?_
  have hname : defaults.contains e.1 = true := List.any_eq_true.2 ⟨e, he, beq_self_eq_true e.1⟩
  exact hb.contextSet hlt (ne_of_contains hname hload) (ne_of_contains hname hassert) _

theorem Binds.bindAttributes (hb : Binds context h h') (hlt : context < h.tables.size)
    (hload : defaults.contains "load" = false) (hassert : defaults.contains "assert" = false)
    (attributes : List (String × Value)) :
    Binds context h (Render.bindAttributes h' context defaults attributes) := by
  refine hb.foldl fun h' e he hb => ?_
  by_cases hdeclared : (defaults.contains e.1 && Render.overridesDefault e.2) = true
  · rw [if_pos hdeclared]
    have hname := (Bool.and_eq_true_iff.1 hdeclared).1
    exact hb.contextSet hlt (ne_of_contains hname hload) (ne_of_contains hname hassert) _
  · rw [if_neg hdeclared]
    exact hb

/-! ## All variables -/

/-- The caller's content as a value. -/
def contentValue : Option String → Value
  | some source => .ofString source
  | none => .nil

/-- An idle context with the variables of a view is in use. -/
theorem inUse_bindVariables {idle : List Nat} (hfinds : FindsGlobals h context)
    (hentries : (h.table context).entries = []) (hidle : context ∉ idle)
    (hload : defaults.contains "load" = false) (hassert : defaults.contains "assert" = false)
    (attributes : List (String × Value)) (children : Option String) (b : Bridge) :
    Heap.Keeps [context] h
        (Render.bindVariables h context defaults attributes children b)
      ∧ InUse idle (Render.bindVariables h context defaults attributes children b) context b
        (contentValue children) := by
  have hlt := hfinds.lt
  have hstart : Binds context h h :=
    ⟨.refl _ _, by rw [hentries]; exact .nil, rfl, by rw [Script.Table.getText, hentries]; rfl,
      by rw [Script.Table.getText, hentries]; rfl⟩
  let h₁ := Render.bindAttributes (Render.bindDefaults h context defaults) context defaults
    attributes
  have hb₁ : Binds context h h₁ :=
    (hstart.bindDefaults hlt hload hassert).bindAttributes hlt hload hassert attributes
  let h₂ := h₁.contextSet context Vocabulary.childContentBinding (contentValue children)
  have hb₂ : Binds context h h₂ := hb₁.contextSet hlt (by decide) (by decide) _
  let h₃ := (h₂.newObject (.host b)).2
  have hb₃ : Binds context h h₃ := hb₂.newObject _
  let h₄ := h₃.contextSet context Vocabulary.bridgeBinding (.object h₂.objects.size)
  have hb₄ : Binds context h h₄ := hb₃.contextSet hlt (by decide) (by decide) _
  have htable : h₄.table context
      = (h₂.table context).setText bridgeName (.object h₂.objects.size) :=
    table_contextSet (hb₃.lt hlt)
  have hfree : HaveMetatables h [context] := by
    intro ref href
    rw [List.mem_singleton.1 href]
    exact hfinds.metatable
  refine ⟨hb₄.keeps, hidle, hfinds.keeps hfree hb₄.keeps hb₄.metatable, ?_, ?_, hb₄.load, hb₄.assert⟩
  · refine ⟨h₂.objects.size, ?_, Heap.objects_newObject h₂ (.host b)⟩
    show (h₄.table context).getText bridgeName = _
    rw [htable, getText_setText_self]
  · show (h₄.table context).getText contentName = _
    rw [htable, getText_setText_ne hb₂.distinct (by decide)]
    show ((h₁.contextSet context Vocabulary.childContentBinding _).table context).getText _ = _
    rw [table_contextSet (hb₁.lt hlt)]
    exact getText_setText_self _ _

end ScriptedViews.Expansion

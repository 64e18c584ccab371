import Mathlib.Data.List.Forall2
import Mathlib.Data.Option.Basic
import ScriptedViews.Script.Heap

set_option autoImplicit false

/-! # Values that stand for each other

Two runs of the same code need not put things at the same places of their heaps. A matching tells
which places of one heap stand for which places of another one, and values are alike if they differ
in nothing but such places. -/

namespace ScriptedViews.Script

/-- Which places of a heap stand for which places of another one. -/
structure Matching where
  table : Nat → Nat → Prop
  cell : Nat → Nat → Prop
  function : Nat → Nat → Prop
  object : Nat → Nat → Prop
  /-- Cells that hold the table of the global variables for good, with that table. -/
  environment : Nat × Nat → Nat × Nat → Prop
  /-- What the host keeps by number elsewhere than on the heap. -/
  hosted : Nat → Nat → Prop
  /-- Functions of the first heap that are known, whether or not anything stands for them. -/
  knownLeft : Nat → Closure → Prop
  /-- Functions of the second heap that are known. -/
  knownRight : Nat → Closure → Prop
  /-- Tables of the second heap that stand for nothing, and what is in them. -/
  aside : Nat → Table → Prop

namespace Matching

/-- Whether everything that is matched is matched by another matching too. -/
structure Widens (R S : Matching) : Prop where
  table : ∀ {a b}, R.table a b → S.table a b
  cell : ∀ {a b}, R.cell a b → S.cell a b
  function : ∀ {a b}, R.function a b → S.function a b
  object : ∀ {a b}, R.object a b → S.object a b
  environment : ∀ {a b}, R.environment a b → S.environment a b
  hosted : ∀ {a b}, R.hosted a b → S.hosted a b

/-- Whether more is matched or known of the heaps, and nothing more that the host keeps. -/
structure Grows (R S : Matching) : Prop extends Widens R S where
  hosted_of : ∀ {a b}, S.hosted a b → R.hosted a b
  knownLeft : ∀ {a c}, R.knownLeft a c → S.knownLeft a c
  knownRight : ∀ {a c}, R.knownRight a c → S.knownRight a c
  aside : ∀ {a t}, R.aside a t → S.aside a t

variable {R S T : Matching}

instance : Coe (R.Grows S) (R.Widens S) := ⟨Grows.toWidens⟩

theorem Widens.refl (R : Matching) : R.Widens R :=
  ⟨id, id, id, id, id, id⟩

theorem Widens.trans (h : R.Widens S) (h' : S.Widens T) : R.Widens T :=
  ⟨h'.table ∘ h.table, h'.cell ∘ h.cell, h'.function ∘ h.function, h'.object ∘ h.object,
    h'.environment ∘ h.environment, h'.hosted ∘ h.hosted⟩

theorem Grows.refl (R : Matching) : R.Grows R :=
  ⟨.refl R, id, id, id, id⟩

theorem Grows.trans (h : R.Grows S) (h' : S.Grows T) : R.Grows T :=
  ⟨h.toWidens.trans h'.toWidens, h.hosted_of ∘ h'.hosted_of, h'.knownLeft ∘ h.knownLeft,
    h'.knownRight ∘ h.knownRight, h'.aside ∘ h.aside⟩

/-- Whether different places stand for different places. -/
structure Faithful (R : Matching) : Prop where
  table : ∀ {a b a' b'}, R.table a b → R.table a' b' → (a = a' ↔ b = b')
  cell : ∀ {a b a' b'}, R.cell a b → R.cell a' b' → (a = a' ↔ b = b')
  function : ∀ {a b a' b'}, R.function a b → R.function a' b' → (a = a' ↔ b = b')
  object : ∀ {a b a' b'}, R.object a b → R.object a' b' → (a = a' ↔ b = b')
  /-- The cells that hold tables of global variables are no others. -/
  apart : ∀ {a b e e'}, R.cell a b → R.environment e e' → a ≠ e.1 ∧ b ≠ e'.1

end Matching

variable {R S : Matching}

/-! ## Values -/

/-- Whether two values are the same up to the places that they refer to. -/
inductive Value.Alike (R : Matching) : Value → Value → Prop where
  | nil : Alike R .nil .nil
  | bool (b : Bool) : Alike R (.bool b) (.bool b)
  | number (n : Number) : Alike R (.number n) (.number n)
  | text (bytes : Bytes) : Alike R (.text bytes) (.text bytes)
  | table {a b : Nat} (h : R.table a b) : Alike R (.table a) (.table b)
  | function {a b : Nat} (h : R.function a b) : Alike R (.function a) (.function b)
  | builtin (b : Builtin) : Alike R (.builtin b) (.builtin b)
  | method (name : Bytes) : Alike R (.method name) (.method name)
  | object {a b : Nat} (h : R.object a b) : Alike R (.object a) (.object b)

namespace Value.Alike

variable {v w v' w' : Value}

theorem ofNat (n : Nat) : (Value.ofNat n).Alike R (Value.ofNat n) :=
  .number _

theorem ofString (s : String) : (Value.ofString s).Alike R (Value.ofString s) :=
  .text _

theorem mono (hg : R.Widens S) (h : v.Alike R w) : v.Alike S w := by
  cases h with
  | table h => exact .table (hg.table h)
  | function h => exact .function (hg.function h)
  | object h => exact .object (hg.object h)
  | _ => constructor

theorem isNil_eq (h : v.Alike R w) : v.isNil = w.isNil := by
  cases h <;> rfl

theorem isTrue_eq (h : v.Alike R w) : v.isTrue = w.isTrue := by
  cases h <;> rfl

theorem isFunction_eq (h : v.Alike R w) : v.isFunction = w.isFunction := by
  cases h <;> rfl

theorem typeName_eq (h : v.Alike R w) : v.typeName = w.typeName := by
  cases h <;> rfl

theorem toNumber?_eq (h : v.Alike R w) : v.toNumber? = w.toNumber? := by
  cases h <;> rfl

theorem toText?_eq (h : v.Alike R w) : v.toText? = w.toText? := by
  cases h <;> rfl

theorem normalKey (h : v.Alike R w) : v.normalKey.Alike R w.normalKey := by
  cases h with
  | number n =>
    cases n with
    | int n => exact .number _
    | float x =>
      simp only [Value.normalKey]
      split <;> exact .number _
  | table h => exact .table h
  | function h => exact .function h
  | object h => exact .object h
  | _ => constructor

/-- Whether values are the same does not depend on where things are. -/
theorem same_eq (hf : R.Faithful) (h : v.Alike R w) (h' : v'.Alike R w') :
    v.same v' = w.same w' := by
  cases h with
  | table h =>
    cases h' with
    | table h' => simp [Value.same, hf.table h h']
    | _ => rfl
  | function h =>
    cases h' with
    | function h' => simp [Value.same, hf.function h h']
    | _ => rfl
  | object h =>
    cases h' with
    | object h' => simp [Value.same, hf.object h h']
    | _ => rfl
  | _ => cases h' <;> rfl

end Value.Alike

/-! ## Lists of values -/

/-- Whether values are alike one by one. -/
abbrev ValuesAlike (R : Matching) : List Value → List Value → Prop :=
  List.Forall₂ (Value.Alike R)

namespace ValuesAlike

variable {vs ws : List Value}

theorem mono (hg : R.Widens S) (h : ValuesAlike R vs ws) : ValuesAlike S vs ws :=
  h.imp fun _ _ hv => hv.mono hg

theorem getD (h : ValuesAlike R vs ws) (i : Nat) :
    (vs.getD i .nil).Alike R (ws.getD i .nil) := by
  induction h generalizing i with
  | nil => exact .nil
  | cons hv _ ih =>
    cases i with
    | zero => exact hv
    | succ i => exact ih i

theorem firstValue (h : ValuesAlike R vs ws) :
    (Script.firstValue vs).Alike R (Script.firstValue ws) := by
  cases h with
  | nil => exact .nil
  | cons hv _ => exact hv

theorem tail (h : ValuesAlike R vs ws) : ValuesAlike R vs.tail ws.tail := by
  cases h with
  | nil => exact .nil
  | cons _ h => exact h

theorem single {v w : Value} (h : v.Alike R w) : ValuesAlike R [v] [w] :=
  .cons h .nil

theorem pair {v w v' w' : Value} (h : v.Alike R w) (h' : v'.Alike R w') :
    ValuesAlike R [v, v'] [w, w'] :=
  .cons h (.cons h' .nil)

theorem append {vs' ws' : List Value} (h : ValuesAlike R vs ws) (h' : ValuesAlike R vs' ws') :
    ValuesAlike R (vs ++ vs') (ws ++ ws') :=
  List.rel_append h h'

theorem reverse (h : ValuesAlike R vs ws) : ValuesAlike R vs.reverse ws.reverse :=
  List.rel_reverse h

theorem drop (h : ValuesAlike R vs ws) (n : Nat) : ValuesAlike R (vs.drop n) (ws.drop n) :=
  List.forall₂_drop n h

end ValuesAlike

/-! ## Tables -/

/-- Whether the keys and the values of two entries are alike. -/
def EntryAlike (R : Matching) (e e' : Value × Value) : Prop :=
  e.1.Alike R e'.1 ∧ e.2.Alike R e'.2

/-- Whether entries are alike one by one. -/
abbrev EntriesAlike (R : Matching) : List (Value × Value) → List (Value × Value) → Prop :=
  List.Forall₂ (EntryAlike R)

/-- Whether two tables hold the same in the same order. -/
structure Table.Alike (R : Matching) (t t' : Table) : Prop where
  items : ValuesAlike R t.items.toList t'.items.toList
  entries : EntriesAlike R t.entries t'.entries
  metatable : Option.Rel R.table t.metatable t'.metatable

theorem EntryAlike.mono (hg : R.Widens S) {e e' : Value × Value} (h : EntryAlike R e e') :
    EntryAlike S e e' :=
  ⟨h.1.mono hg, h.2.mono hg⟩

theorem optionRel_mono {α β : Type} {r s : α → β → Prop} (hrs : ∀ a b, r a b → s a b)
    {x : Option α} {y : Option β} (h : Option.Rel r x y) : Option.Rel s x y := by
  cases h with
  | some h => exact .some (hrs _ _ h)
  | none => exact .none

theorem Table.Alike.mono (hg : R.Widens S) {t t' : Table} (h : t.Alike R t') : t.Alike S t' :=
  ⟨h.items.mono hg, h.entries.imp fun _ _ he => he.mono hg, optionRel_mono (fun _ _ => hg.table) h.metatable⟩

theorem Table.Alike.empty : Table.Alike R {} {} :=
  ⟨.nil, .nil, .none⟩

end ScriptedViews.Script

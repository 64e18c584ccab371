import ScriptedViews.Proofs.Script.Alike.Arguments
import ScriptedViews.Proofs.Script.Alike.Heaps

set_option autoImplicit false

/-! # The library on heaps that are alike

A function of the library fails for the same reason on heaps that are alike, or gives values that
are alike and leaves the heaps alike. -/

namespace ScriptedViews.Script

variable {ω σ φ : Type} {L : Likeness ω σ φ} {R : Matching} {h h' : Heap ω}

/-- Whether two results of library functions are alike, with at least what is matched now. -/
def ResultAlike (L : Likeness ω σ φ) (R : Matching) (r r' : List Value × Heap ω) : Prop :=
  ∃ S, R.Grows S ∧ Heap.Alike L S r.2 r'.2 ∧ ValuesAlike S r.1 r'.1

namespace Table.Alike

variable {t t' : Table}

theorem element_eq (hf : R.Faithful) (ht : t.Alike R t') (i : Int) :
    TableLibrary.element t i = TableLibrary.element t' i := by
  simp only [TableLibrary.element, (ht.get hf (.number _)).toText?_eq]

theorem join_eq (hf : R.Faithful) (ht : t.Alike R t') (separator : Bytes) (more : Nat) (i : Int) :
    TableLibrary.join t separator more i = TableLibrary.join t' separator more i := by
  induction more generalizing i with
  | zero => exact ht.element_eq hf i
  | succ more ih => simp only [TableLibrary.join, ht.element_eq hf, ih]

theorem shiftUp (hf : R.Faithful) (ht : t.Alike R t') (fuel i : Nat) :
    (TableLibrary.shiftUp fuel i t).Alike R (TableLibrary.shiftUp fuel i t') := by
  induction fuel generalizing i t t' with
  | zero => exact ht
  | succ fuel ih => exact ih (ht.set hf (.ofNat _) (ht.get hf (.ofNat _))) (i - 1)

theorem shiftDown (hf : R.Faithful) (ht : t.Alike R t') (fuel i : Nat) :
    (TableLibrary.shiftDown fuel i t).Alike R (TableLibrary.shiftDown fuel i t') := by
  induction fuel generalizing i t t' with
  | zero => exact ht
  | succ fuel ih => exact ih (ht.set hf (.ofNat _) (ht.get hf (.ofNat _))) (i + 1)

end Table.Alike

namespace Heap.Alike

variable (hh : Heap.Alike L R h h') {a a' : Arguments} (ha : a.Alike R a')

include hh

theorem result {vs vs' : List Value} (hv : ValuesAlike R vs vs') :
    ResultAlike L R (vs, h) (vs', h') :=
  ⟨R, .refl R, hh, hv⟩

/-- A function that needs no heap leaves it as it is. -/
theorem only {x x' : Except String (List Value)} (hx : ExceptAlike (ValuesAlike R) x x') :
    ExceptAlike (ResultAlike L R) (x.map fun vs => (vs, h)) (x'.map fun vs => (vs, h')) :=
  hx.map fun _ _ hv => hh.result hv

include ha

theorem concat :
    ExceptAlike (ResultAlike L R) (TableLibrary.concat h a) (TableLibrary.concat h' a') := by
  unfold TableLibrary.concat
  refine (ha.table 0).bind fun x y hr => ?_
  have ht := hh.tables hr
  simp only [ha.textOr_eq, ha.intOr_eq, ht.length_eq, ht.join_eq hh.faithful]
  refine (ExceptAlike.refl _).bind ?_
  rintro separator _ rfl
  refine (ExceptAlike.refl _).bind ?_
  rintro first _ rfl
  refine (ExceptAlike.refl _).bind ?_
  rintro last _ rfl
  split
  · exact .ok (hh.result (.single (.text _)))
  · refine (ExceptAlike.refl _).bind ?_
    rintro bytes _ rfl
    exact .ok (hh.result (.single (.text _)))

theorem insert :
    ExceptAlike (ResultAlike L R) (TableLibrary.insert h a) (TableLibrary.insert h' a') := by
  have hf := hh.faithful
  have hvalues := ha.values
  unfold TableLibrary.insert
  refine (ha.table 0).bind fun x y hr => ?_
  simp only [(hh.tables hr).length_eq, ha.int_eq]
  generalize hvs : a.values = vs at hvalues
  generalize hvs' : a'.values = vs' at hvalues
  -- how many arguments there are says what is to be done
  rcases hvalues with _ | ⟨-, _ | ⟨hv, _ | ⟨hw, _ | ⟨-, -⟩⟩⟩⟩
  · exact .error _
  · exact .error _
  · exact .ok (result (hh.modifyTable hr fun t t' ht => ht.set hf (.ofNat _) hv) .nil)
  · refine (ExceptAlike.refl _).bind ?_
    rintro position _ rfl
    split
    · exact .ok (result (hh.modifyTable hr fun t t' ht =>
        (ht.shiftUp hf _ _).set hf (.ofNat _) hw) .nil)
    · exact ha.bad _ 1 _
  · exact .error _

theorem remove :
    ExceptAlike (ResultAlike L R) (TableLibrary.remove h a) (TableLibrary.remove h' a') := by
  have hf := hh.faithful
  unfold TableLibrary.remove
  refine (ha.table 0).bind fun x y hr => ?_
  have ht := hh.tables hr
  simp only [ht.length_eq, ha.intOr_eq, ha.values.length_eq]
  refine (ExceptAlike.refl _).bind ?_
  rintro position _ rfl
  split
  · exact ha.bad _ 1 _
  · refine .ok (result (hh.modifyTable hr fun t t' ht => ?_) (.single (ht.get hf (.number _))))
    refine (ht.shiftDown hf _ _).set hf ?_ .nil
    split
    · exact .ofNat _
    · exact .number _

theorem unpack :
    ExceptAlike (ResultAlike L R) (TableLibrary.unpack h a) (TableLibrary.unpack h' a') := by
  have hget := ha.get 0
  have hrest : ∀ t t' : Table, t.Alike R t' → ExceptAlike (ResultAlike L R)
      (do
        let first ← a.intOr 1 1
        let last ← a.intOr 2 t.length
        let count := (last - first + 1).toNat
        if TableLibrary.maxResults ≤ count then .error "too many results to unpack"
        else return ((List.range count).map fun (i : Nat) =>
          t.get (.int (Int64.ofInt (first + i))), h))
      (do
        let first ← a'.intOr 1 1
        let last ← a'.intOr 2 t'.length
        let count := (last - first + 1).toNat
        if TableLibrary.maxResults ≤ count then .error "too many results to unpack"
        else return ((List.range count).map fun (i : Nat) =>
          t'.get (.int (Int64.ofInt (first + i))), h')) := by
    intro t t' ht
    simp only [ha.intOr_eq, ht.length_eq]
    refine (ExceptAlike.refl _).bind ?_
    rintro first _ rfl
    refine (ExceptAlike.refl _).bind ?_
    rintro last _ rfl
    split
    · exact .error _
    · refine .ok (hh.result ?_)
      refine List.forall₂_map_left_iff.2 (List.forall₂_map_right_iff.2 ?_)
      exact List.forall₂_same.2 fun i _ => ht.get hh.faithful (.number _)
  unfold TableLibrary.unpack
  generalize a.get 0 = v at hget ⊢
  generalize a'.get 0 = v' at hget ⊢
  cases hget with
  | table hr => exact hrest _ _ (hh.tables hr)
  | _ => exact hrest _ _ .empty

theorem pack : ExceptAlike (ResultAlike L R) (TableLibrary.pack h a) (TableLibrary.pack h' a') := by
  have ht : ((Table.ofList a.values).setText (ascii "n") (.ofNat a.values.length)).Alike R
      ((Table.ofList a'.values).setText (ascii "n") (.ofNat a'.values.length)) := by
    rw [ha.values.length_eq]
    exact (Table.Alike.ofList ha.values).setText hh.faithful _ (.ofNat _)
  exact .ok ⟨_, Matching.grows_withTable, hh.newTable ht, .single (.table Matching.table_withTable)⟩

theorem next : ExceptAlike (ResultAlike L R) (TableLibrary.next h a) (TableLibrary.next h' a') := by
  unfold TableLibrary.next
  refine (ha.table 0).bind fun x y hr => ?_
  have hnext := (hh.tables hr).next hh.faithful (ha.get 1)
  cases hn : (h.table x).next (a.get 1) <;> cases hn' : (h'.table y).next (a'.get 1) <;>
    rw [hn, hn'] at hnext <;> cases hnext
  · exact .error _
  · rename_i hpair
    cases hpair with
    | none => exact .ok (hh.result (.single .nil))
    | some he => exact .ok (hh.result (.pair he.1 he.2))

theorem rawget :
    ExceptAlike (ResultAlike L R) (TableLibrary.rawget h a) (TableLibrary.rawget h' a') := by
  unfold TableLibrary.rawget
  refine (ha.table 0).bind fun x y hr => ?_
  refine (ha.any 1).bind fun k k' hk => ?_
  exact .ok (hh.result (.single ((hh.tables hr).get hh.faithful hk)))

theorem rawset :
    ExceptAlike (ResultAlike L R) (TableLibrary.rawset h a) (TableLibrary.rawset h' a') := by
  have hf := hh.faithful
  unfold TableLibrary.rawset
  refine (ha.table 0).bind fun x y hr => ?_
  refine (ha.any 1).bind fun k k' hk => ?_
  refine (ha.any 2).bind fun v v' hv => ?_
  have hbad : TableLibrary.badKey? k = TableLibrary.badKey? k' := by cases hk <;> rfl
  rw [hbad]
  cases TableLibrary.badKey? k' with
  | some reason => exact .error _
  | none =>
    exact .ok (result (hh.modifyTable hr fun t t' ht => ht.set hf hk hv) (.single (.table hr)))

theorem rawlen :
    ExceptAlike (ResultAlike L R) (TableLibrary.rawlen h a) (TableLibrary.rawlen h' a') := by
  have hget := ha.get 0
  have hbad := ha.bad (ResultAlike L R) 0 "table or string expected"
  unfold TableLibrary.rawlen
  generalize a.get 0 = v at hget ⊢
  generalize a'.get 0 = v' at hget ⊢
  cases hget with
  | table hr =>
    dsimp only
    rw [(hh.tables hr).length_eq]
    exact .ok (hh.result (.single (.ofNat _)))
  | text bytes => exact .ok (hh.result (.single (.ofNat _)))
  | _ => exact hbad

theorem rawequal :
    ExceptAlike (ResultAlike L R) (TableLibrary.rawequal h a) (TableLibrary.rawequal h' a') := by
  unfold TableLibrary.rawequal
  refine (ha.any 0).bind fun v v' hv => ?_
  refine (ha.any 1).bind fun w w' hw => ?_
  rw [hv.same_eq hh.faithful hw]
  exact .ok (hh.result (.single (.bool _)))

theorem getmetatable :
    ExceptAlike (ResultAlike L R) (TableLibrary.getmetatable h a)
      (TableLibrary.getmetatable h' a') := by
  unfold TableLibrary.getmetatable
  refine (ha.any 0).bind fun v v' hv => ?_
  have hmetatable := hh.metatable? hv
  have hshown := hh.metafield hv "__metatable"
  have hshow : ∀ {m m' : Nat}, R.table m m' → ExceptAlike (ResultAlike L R)
      (.ok ([if (h.metafield v "__metatable").isNil then .table m
        else h.metafield v "__metatable"], h) : Except String (List Value × Heap ω))
      (.ok ([if (h'.metafield v' "__metatable").isNil then .table m'
        else h'.metafield v' "__metatable"], h')) := by
    intro m m' hr
    rw [hshown.isNil_eq]
    split
    · exact .ok (hh.result (.single (.table hr)))
    · exact .ok (hh.result (.single hshown))
  cases hv with
  | object hr => exact .ok (hh.result (.single (.bool _)))
  | text bytes => exact hshow hh.textMetatable
  | table hr =>
    dsimp only
    generalize h.metatable? (.table _) = m at hmetatable ⊢
    generalize h'.metatable? (.table _) = m' at hmetatable ⊢
    cases hmetatable with
    | none => exact .ok (hh.result (.single .nil))
    | some hr => exact hshow hr
  | _ => exact .ok (hh.result (.single .nil))

theorem setmetatable :
    ExceptAlike (ResultAlike L R) (TableLibrary.setmetatable h a)
      (TableLibrary.setmetatable h' a') := by
  unfold TableLibrary.setmetatable
  refine (ha.table 0).bind fun x y hr => ?_
  have hshown := hh.metafield (.table hr) "__metatable"
  -- a protected metatable stays, whatever it is to be replaced with
  have hrest : ∀ {m m' : Option Nat}, Option.Rel R.table m m' →
      ExceptAlike (ResultAlike L R)
        (if (h.metafield (.table x) "__metatable").isNil then
          .ok ([.table x], h.modifyTable x fun t => { t with metatable := m })
        else .error "cannot change a protected metatable")
        (if (h'.metafield (.table y) "__metatable").isNil then
          .ok ([.table y], h'.modifyTable y fun t => { t with metatable := m' })
        else .error "cannot change a protected metatable") := by
    intro m m' hm
    rw [hshown.isNil_eq]
    split
    · have hset : Heap.Alike L R (h.modifyTable x fun t => { t with metatable := m })
          (h'.modifyTable y fun t => { t with metatable := m' }) :=
        hh.modifyTable hr fun t t' ht => ⟨ht.items, ht.entries, hm⟩
      exact .ok (hset.result (.single (.table hr)))
    · exact .error _
  have hbad : ∀ {m m' : Option Nat → Except String (List Value × Heap ω)},
      ExceptAlike (ResultAlike L R) (a.mistyped 1 "nil or table" >>= m)
        (a'.mistyped 1 "nil or table" >>= m') := by
    intro m m'
    exact (ha.mistyped (fun _ _ => False) 1 _).bind fun _ _ h => h.elim
  refine (ha.any 1).bind fun v v' hv => ?_
  cases hv with
  | nil => exact hrest .none
  | table hm => exact hrest (.some hm)
  | _ => exact hbad

/-- Every function of the library that is none of the machine gives results that are alike. -/
theorem run? :
    Option.Rel (ExceptAlike (ResultAlike L R)) (a.run? h) (a'.run? h') := by
  have hless : ∀ v v' w w' : Value, v.Alike R v' → w.Alike R w' →
      MathLibrary.less v w = MathLibrary.less v' w' := fun _ _ _ _ hv hw => Arguments.Alike.less_eq hv hw
  unfold Arguments.run?
  rw [ha.callee]
  cases a'.callee with
  | getmetatable => exact .some (hh.getmetatable ha)
  | next => exact .some (hh.next ha)
  | print => exact .some (hh.only (.ok .nil))
  | rawequal => exact .some (hh.rawequal ha)
  | rawget => exact .some (hh.rawget ha)
  | rawlen => exact .some (hh.rawlen ha)
  | rawset => exact .some (hh.rawset ha)
  | select => exact .some (hh.only ha.select)
  | setmetatable => exact .some (hh.setmetatable ha)
  | tonumber => exact .some (hh.only ha.tonumber)
  | type => exact .some (hh.only ha.type)
  | stringByte => exact .some (hh.only ha.byte)
  | stringChar => exact .some (hh.only ha.char)
  | stringLen => exact .some (hh.only ha.len)
  | stringLower => exact .some (hh.only (ha.mapBytes _))
  | stringRep => exact .some (hh.only ha.rep)
  | stringReverse => exact .some (hh.only ha.reverse)
  | stringSub => exact .some (hh.only ha.sub)
  | stringUpper => exact .some (hh.only (ha.mapBytes _))
  | tableConcat => exact .some (hh.concat ha)
  | tableInsert => exact .some (hh.insert ha)
  | tablePack => exact .some (hh.pack ha)
  | tableRemove => exact .some (hh.remove ha)
  | tableUnpack => exact .some (hh.unpack ha)
  | mathAbs => exact .some (hh.only ha.abs)
  | mathCeil => exact .some (hh.only (ha.rounded _))
  | mathFloor => exact .some (hh.only (ha.rounded _))
  | mathFmod => exact .some (hh.only ha.fmod)
  | mathMax => exact .some (hh.only (ha.extreme fun v v' w w' hv hw => hless _ _ _ _ hw hv))
  | mathMin => exact .some (hh.only (ha.extreme hless))
  | mathSqrt => exact .some (hh.only ha.sqrt)
  | mathToInteger => exact .some (hh.only ha.toInteger)
  | mathType => exact .some (hh.only ha.kind)
  | _ => exact .none

end Heap.Alike

end ScriptedViews.Script

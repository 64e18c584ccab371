import ScriptedViews.Proofs.Script.Alike.Values
import ScriptedViews.Script.Library.Basic

set_option autoImplicit false

/-! # Arguments that are alike

A function of the library that needs nothing but its arguments fails for the same reason with
arguments that are alike, or gives values that are alike. -/

namespace ScriptedViews.Script

variable {R : Matching}

/-! ## Outcomes -/

/-- Whether two outcomes are the same failure, or related successes. -/
inductive ExceptAlike {ε α β : Type} (Q : α → β → Prop) : Except ε α → Except ε β → Prop where
  | error (e : ε) : ExceptAlike Q (.error e) (.error e)
  | ok {a : α} {b : β} (h : Q a b) : ExceptAlike Q (.ok a) (.ok b)

namespace ExceptAlike

variable {ε α β γ δ : Type} {P : α → β → Prop} {Q : γ → δ → Prop}

theorem bind {x : Except ε α} {y : Except ε β} {f : α → Except ε γ} {g : β → Except ε δ}
    (hx : ExceptAlike P x y) (hf : ∀ a b, P a b → ExceptAlike Q (f a) (g b)) :
    ExceptAlike Q (x >>= f) (y >>= g) := by
  cases hx with
  | error e => exact .error e
  | ok h => exact hf _ _ h

theorem refl (x : Except ε α) : ExceptAlike Eq x x := by
  cases x with
  | error e => exact .error e
  | ok a => exact .ok rfl

theorem of_eq {x y : Except ε α} (h : x = y) : ExceptAlike Eq x y :=
  h ▸ refl x

theorem map {x : Except ε α} {y : Except ε β} {f : α → γ} {g : β → δ} (hx : ExceptAlike P x y)
    (hf : ∀ a b, P a b → Q (f a) (g b)) : ExceptAlike Q (x.map f) (y.map g) := by
  cases hx with
  | error e => exact .error e
  | ok h => exact .ok (hf _ _ h)

end ExceptAlike

/-! ## Arguments -/

/-- Whether the same function is called with arguments that are alike. -/
structure Arguments.Alike (R : Matching) (a a' : Arguments) : Prop where
  callee : a.callee = a'.callee
  values : ValuesAlike R a.values a'.values

namespace Arguments.Alike

variable {a a' : Arguments} (ha : a.Alike R a')

include ha

theorem get (i : Nat) : (a.get i).Alike R (a'.get i) :=
  ha.values.getD i

theorem bad_eq {α : Type} (i : Nat) (reason : String) :
    a.bad (α := α) i reason = a'.bad (α := α) i reason := by
  simp only [Arguments.bad, ha.callee]

theorem mistyped_eq {α : Type} (i : Nat) (expected : String) :
    a.mistyped (α := α) i expected = a'.mistyped (α := α) i expected := by
  simp only [Arguments.mistyped, ha.values.length_eq, (ha.get i).typeName_eq, ha.bad_eq]

theorem bad {α β : Type} (Q : α → β → Prop) (i : Nat) (reason : String) :
    ExceptAlike Q (a.bad (α := α) i reason) (a'.bad (α := β) i reason) := by
  simp only [Arguments.bad, ha.callee]
  exact .error _

theorem mistyped {α β : Type} (Q : α → β → Prop) (i : Nat) (expected : String) :
    ExceptAlike Q (a.mistyped (α := α) i expected) (a'.mistyped (α := β) i expected) := by
  simp only [Arguments.mistyped, ha.values.length_eq, (ha.get i).typeName_eq]
  exact ha.bad Q i _

theorem any (i : Nat) : ExceptAlike (Value.Alike R) (a.any i) (a'.any i) := by
  simp only [Arguments.any, ha.values.length_eq]
  split
  · exact .ok (ha.get i)
  · exact ha.bad _ i _

theorem table (i : Nat) : ExceptAlike R.table (a.table i) (a'.table i) := by
  have hget := ha.get i
  have hbad := ha.mistyped R.table i "table"
  unfold Arguments.table
  generalize a.get i = v at hget
  generalize a'.get i = v' at hget
  cases hget with
  | table hr => exact .ok hr
  | _ => exact hbad

theorem number_eq (i : Nat) : a.number i = a'.number i := by
  simp only [Arguments.number, (ha.get i).toNumber?_eq, ha.mistyped_eq]

theorem int_eq (i : Nat) : a.int i = a'.int i := by
  simp only [Arguments.int, (ha.get i).toNumber?_eq, ha.mistyped_eq, ha.bad_eq]

theorem intOr_eq (i : Nat) (default : Int) : a.intOr i default = a'.intOr i default := by
  simp only [Arguments.intOr, (ha.get i).isNil_eq, ha.int_eq]

theorem text_eq (i : Nat) : a.text i = a'.text i := by
  simp only [Arguments.text, (ha.get i).toText?_eq, ha.mistyped_eq]

theorem textOr_eq (i : Nat) (default : Bytes) : a.textOr i default = a'.textOr i default := by
  simp only [Arguments.textOr, (ha.get i).isNil_eq, ha.text_eq]

end Arguments.Alike

/-! ## Functions that need no heap -/

/-- Whether values fail to refer to anything, so that they are alike by any matching. -/
theorem ValuesAlike.refl_of {vs : List Value} (h : ∀ v ∈ vs, v.Alike R v) : ValuesAlike R vs vs :=
  List.forall₂_same.2 h

namespace Arguments.Alike

variable {a a' : Arguments} (ha : a.Alike R a')

include ha

theorem tonumber :
    ExceptAlike (ValuesAlike R) (BasicLibrary.tonumber a) (BasicLibrary.tonumber a') := by
  unfold BasicLibrary.tonumber
  rw [(ha.get 1).isNil_eq]
  split
  · refine (ha.any 0).bind fun v v' hv => ?_
    rw [hv.toNumber?_eq]
    split
    · exact .ok (.single (.number _))
    · exact .ok (.single .nil)
  · rw [ha.int_eq 1]
    refine (ExceptAlike.refl _).bind ?_
    rintro radix _ rfl
    have hget := ha.get 0
    have hbad := ha.mistyped (ValuesAlike R) 0 "string"
    generalize a.get 0 = v at hget
    generalize a'.get 0 = v' at hget
    cases hget with
    | text bytes =>
      dsimp only
      split
      · split
        · exact .ok (.single (.number _))
        · exact .ok (.single .nil)
      · exact ha.bad _ 1 _
    | _ => exact hbad

theorem select : ExceptAlike (ValuesAlike R) (BasicLibrary.select a) (BasicLibrary.select a') := by
  have hrest := ha.values.drop 1
  have hget := ha.get 0
  -- all but the sign is a position
  have htail : ExceptAlike (ValuesAlike R)
      (do
        let n ← a.int 0
        if 0 < n then return (a.values.drop 1).drop (n.toNat - 1)
        else if n < 0 ∧ -n ≤ (a.values.drop 1).length then
          return (a.values.drop 1).drop ((a.values.drop 1).length - (-n).toNat)
        else a.bad 0 "index out of range")
      (do
        let n ← a'.int 0
        if 0 < n then return (a'.values.drop 1).drop (n.toNat - 1)
        else if n < 0 ∧ -n ≤ (a'.values.drop 1).length then
          return (a'.values.drop 1).drop ((a'.values.drop 1).length - (-n).toNat)
        else a'.bad 0 "index out of range") := by
    rw [ha.int_eq 0]
    refine (ExceptAlike.refl _).bind ?_
    rintro n _ rfl
    rw [hrest.length_eq]
    split
    · exact .ok (hrest.drop _)
    · split
      · exact .ok (hrest.drop _)
      · exact ha.bad _ 0 _
  unfold BasicLibrary.select
  generalize a.get 0 = v at hget ⊢
  generalize a'.get 0 = v' at hget ⊢
  cases hget with
  | text bytes =>
    dsimp only
    split
    · rw [hrest.length_eq]
      exact .ok (.single (.ofNat _))
    · exact htail
  | _ => exact htail

theorem type : ExceptAlike (ValuesAlike R) (BasicLibrary.type a) (BasicLibrary.type a') := by
  refine (ha.any 0).bind fun v v' hv => ?_
  rw [hv.typeName_eq]
  exact .ok (.single (.ofString _))

theorem byte : ExceptAlike (ValuesAlike R) (TextLibrary.byte a) (TextLibrary.byte a') := by
  unfold TextLibrary.byte
  rw [ha.text_eq 0, ha.intOr_eq 1]
  refine (ExceptAlike.refl _).bind ?_
  rintro bytes _ rfl
  refine (ExceptAlike.refl _).bind ?_
  rintro first _ rfl
  rw [ha.intOr_eq 2]
  refine (ExceptAlike.refl _).bind ?_
  rintro last _ rfl
  refine .ok (.refl_of fun v hv => ?_)
  obtain ⟨b, -, rfl⟩ := List.mem_map.1 hv
  exact .ofNat _

theorem char : ExceptAlike (ValuesAlike R) (TextLibrary.char a) (TextLibrary.char a') := by
  have hbyte : TextLibrary.toByte a = TextLibrary.toByte a' := by
    funext i
    simp only [TextLibrary.toByte, ha.int_eq, ha.bad_eq]
  unfold TextLibrary.char
  rw [ha.values.length_eq, hbyte]
  refine (ExceptAlike.refl _).bind ?_
  rintro bytes _ rfl
  exact .ok (.single (.text _))

theorem len : ExceptAlike (ValuesAlike R) (TextLibrary.len a) (TextLibrary.len a') := by
  unfold TextLibrary.len
  rw [ha.text_eq 0]
  refine (ExceptAlike.refl _).bind ?_
  rintro bytes _ rfl
  exact .ok (.single (.ofNat _))

theorem sub : ExceptAlike (ValuesAlike R) (TextLibrary.sub a) (TextLibrary.sub a') := by
  unfold TextLibrary.sub
  rw [ha.text_eq 0, ha.int_eq 1, ha.intOr_eq 2]
  refine (ExceptAlike.refl _).bind ?_
  rintro bytes _ rfl
  refine (ExceptAlike.refl _).bind ?_
  rintro first _ rfl
  refine (ExceptAlike.refl _).bind ?_
  rintro last _ rfl
  exact .ok (.single (.text _))

theorem mapBytes (f : UInt8 → UInt8) :
    ExceptAlike (ValuesAlike R) (TextLibrary.mapBytes f a) (TextLibrary.mapBytes f a') := by
  unfold TextLibrary.mapBytes
  rw [ha.text_eq 0]
  refine (ExceptAlike.refl _).bind ?_
  rintro bytes _ rfl
  exact .ok (.single (.text _))

theorem reverse : ExceptAlike (ValuesAlike R) (TextLibrary.reverse a) (TextLibrary.reverse a') := by
  unfold TextLibrary.reverse
  rw [ha.text_eq 0]
  refine (ExceptAlike.refl _).bind ?_
  rintro bytes _ rfl
  exact .ok (.single (.text _))

theorem rep : ExceptAlike (ValuesAlike R) (TextLibrary.rep a) (TextLibrary.rep a') := by
  unfold TextLibrary.rep
  rw [ha.text_eq 0, ha.int_eq 1, ha.textOr_eq 2]
  refine (ExceptAlike.refl _).bind ?_
  rintro bytes _ rfl
  refine (ExceptAlike.refl _).bind ?_
  rintro count _ rfl
  refine (ExceptAlike.refl _).bind ?_
  rintro separator _ rfl
  dsimp only
  split
  · exact .error _
  · split
    · exact .ok (.single (.text _))
    · exact .ok (.single (.text _))

theorem rounded (f : Float → Float) :
    ExceptAlike (ValuesAlike R) (MathLibrary.rounded f a) (MathLibrary.rounded f a') := by
  have hget := ha.get 0
  have hrest : ExceptAlike (ValuesAlike R)
      (do return [MathLibrary.integral (f (← a.number 0).toFloat)])
      (do return [MathLibrary.integral (f (← a'.number 0).toFloat)]) := by
    rw [ha.number_eq 0]
    refine (ExceptAlike.refl _).bind ?_
    rintro n _ rfl
    refine .ok (.single ?_)
    unfold MathLibrary.integral
    split <;> exact .number _
  unfold MathLibrary.rounded
  generalize a.get 0 = v at hget ⊢
  generalize a'.get 0 = v' at hget ⊢
  cases hget with
  | number n =>
    cases n with
    | int n => exact .ok (.single (.number _))
    | float x => exact hrest
  | _ => exact hrest

theorem abs : ExceptAlike (ValuesAlike R) (MathLibrary.abs a) (MathLibrary.abs a') := by
  unfold MathLibrary.abs
  rw [ha.number_eq 0]
  refine (ExceptAlike.refl _).bind ?_
  rintro n _ rfl
  cases n <;> exact .ok (.single (.number _))

theorem fmod : ExceptAlike (ValuesAlike R) (MathLibrary.fmod a) (MathLibrary.fmod a') := by
  unfold MathLibrary.fmod
  rw [ha.number_eq 0, ha.number_eq 1]
  refine (ExceptAlike.refl _).bind ?_
  rintro n _ rfl
  refine (ExceptAlike.refl _).bind ?_
  rintro m _ rfl
  cases n <;> cases m
  · dsimp only
    split
    · exact ha.bad _ 1 _
    · exact .ok (.single (.number _))
  all_goals exact .ok (.single (.number _))

theorem sqrt : ExceptAlike (ValuesAlike R) (MathLibrary.sqrt a) (MathLibrary.sqrt a') := by
  unfold MathLibrary.sqrt
  rw [ha.number_eq 0]
  refine (ExceptAlike.refl _).bind ?_
  rintro n _ rfl
  exact .ok (.single (.number _))

theorem toInteger :
    ExceptAlike (ValuesAlike R) (MathLibrary.toInteger a) (MathLibrary.toInteger a') := by
  refine (ha.any 0).bind fun v v' hv => ?_
  simp only [Value.toInt?, hv.toNumber?_eq]
  cases v'.toNumber?.bind Number.toInt? with
  | some n => exact .ok (.single (.number _))
  | none => exact .ok (.single .nil)

theorem kind : ExceptAlike (ValuesAlike R) (MathLibrary.type a) (MathLibrary.type a') := by
  refine (ha.any 0).bind fun v v' hv => ?_
  cases hv with
  | number n => cases n <;> exact .ok (.single (.ofString _))
  | _ => exact .ok (.single .nil)

omit ha in
theorem less_eq {v v' w w' : Value} (hv : v.Alike R v') (hw : w.Alike R w') :
    MathLibrary.less v w = MathLibrary.less v' w' := by
  cases hv <;> cases hw <;> rfl

omit ha in
theorem best {better : Value → Value → Except String Bool}
    (hbetter : ∀ v v' w w', v.Alike R v' → w.Alike R w' → better v w = better v' w')
    {v v' : Value} (hv : v.Alike R v') {vs vs' : List Value} (hvs : ValuesAlike R vs vs') :
    ExceptAlike (ValuesAlike R) (MathLibrary.best better v vs)
      (MathLibrary.best better v' vs') := by
  induction hvs generalizing v v' with
  | nil => exact .ok (.single hv)
  | @cons w w' vs vs' hw _ ih =>
    simp only [MathLibrary.best, hbetter _ _ _ _ hw hv]
    refine (ExceptAlike.refl _).bind ?_
    rintro b _ rfl
    cases b
    · exact ih hv
    · exact ih hw

theorem extreme {better : Value → Value → Except String Bool}
    (hbetter : ∀ v v' w w', v.Alike R v' → w.Alike R w' → better v w = better v' w') :
    ExceptAlike (ValuesAlike R) (MathLibrary.extreme better a)
      (MathLibrary.extreme better a') := by
  have hvalues := ha.values
  have hbad := ha.mistyped (ValuesAlike R) 0 "number"
  unfold MathLibrary.extreme
  generalize a.values = vs at hvalues ⊢
  generalize a'.values = vs' at hvalues ⊢
  cases hvalues with
  | nil => exact hbad
  | cons hv hvs => exact best hbetter hv hvs

end Arguments.Alike

end ScriptedViews.Script

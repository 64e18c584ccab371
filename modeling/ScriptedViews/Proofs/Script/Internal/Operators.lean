import ScriptedViews.Proofs.Script.Internal.States

set_option autoImplicit false

/-! # Operators and fields without the host

Applying an operator and reading or writing a field is code that goes on by itself, also where a
metatable is asked. -/

namespace ScriptedViews.Script.State.IsOrderly

variable {ω σ φ : Type} {host : Host ω σ φ} {s : State ω σ φ} (h : s.IsOrderly)

include h

/-! ## Operators -/

theorem badOperand (what : String) (v : Value) (site : Option Site) :
    Internal s (s.badOperand what v site) :=
  h.raiseText site _

/-- A function is called for its first value. -/
theorem callSingle (v : Value) (vs : List Value) (site : Option Site) :
    Internal s (s.callFrom .single v vs site) :=
  h.callFrom rfl (.of_plain _ rfl rfl rfl) v vs site

theorem arithmetic (op : ArithmeticOp) (a b : Value) (site : Option Site) :
    Internal s (s.arithmetic op a b site) := by
  unfold State.arithmetic
  split
  · split
    · exact h.giveOne _
    · exact h.raiseText site _
  · dsimp only
    split
    · exact h.badOperand _ _ site
    · exact h.callSingle _ _ site

theorem concatenate (a b : Value) (site : Option Site) : Internal s (s.concatenate a b site) := by
  unfold State.concatenate
  split
  · exact h.giveOne _
  · dsimp only
    split
    · exact h.badOperand _ _ site
    · exact h.callSingle _ _ site

theorem equality (negated : Bool) (a b : Value) (site : Option Site) :
    Internal s (s.equality negated a b site) := by
  unfold State.equality
  dsimp only
  split
  · split
    · exact h.giveOne _
    · exact h.callFrom rfl (.of_plain _ rfl rfl rfl) _ _ site
  · exact h.giveOne _

theorem order (event : String) (numbers : Number → Number → Bool) (texts : Bytes → Bytes → Bool)
    (a b : Value) (site : Option Site) : Internal s (s.order event numbers texts a b site) := by
  unfold State.order
  split
  · exact h.giveOne _
  · exact h.giveOne _
  · split
    · exact h.raiseText site _
    · exact h.callFrom rfl (.of_plain _ rfl rfl rfl) _ _ site

theorem before (a b : Value) (site : Option Site) : Internal s (s.before a b site) :=
  h.order _ _ _ a b site

theorem notAfter (a b : Value) (site : Option Site) : Internal s (s.notAfter a b site) :=
  h.order _ _ _ a b site

theorem operate (op : BinaryOp) (a b : Value) (site : Option Site) :
    Internal s (s.operate op a b site) := by
  cases op with
  | arithmetic op => exact h.arithmetic op a b site
  | concat => exact h.concatenate a b site
  | equal => exact h.equality false a b site
  | notEqual => exact h.equality true a b site
  | less => exact h.before a b site
  | atMost => exact h.notAfter a b site
  | greater => exact h.before b a site
  | atLeast => exact h.notAfter b a site

theorem lengthOf (v : Value) (site : Option Site) : Internal s (s.lengthOf v site) := by
  unfold State.lengthOf
  split
  · exact h.giveOne _
  · split
    · exact h.giveOne _
    · exact h.badOperand _ _ site
    · exact h.callSingle _ _ site

theorem operateOn (op : UnaryOp) (v : Value) (site : Option Site) :
    Internal s (s.operateOn op v site) := by
  cases op with
  | not => exact h.giveOne _
  | length => exact h.lengthOf v site
  | negate =>
    unfold State.operateOn
    dsimp only
    split
    · exact h.giveOne _
    · split
      · exact h.badOperand _ _ site
      · exact h.callSingle _ _ site
  | bitNot =>
    unfold State.operateOn
    dsimp only
    split
    · split
      · exact h.giveOne _
      · exact h.raiseText site _
    · split
      · exact h.badOperand _ _ site
      · exact h.callSingle _ _ site

/-! ## Fields -/

theorem passIndex (handler object key : Value) (site : Option Site) (hops : Nat) :
    Internal s (s.passIndex handler object key site hops) := by
  unfold State.passIndex
  split
  · exact h.callSingle _ _ site
  · split
    · exact h.raiseText site _
    · exact h.go (.of_plain _ rfl rfl) rfl

theorem index (object key : Value) (site : Option Site) (hops : Nat) :
    Internal s (s.index host object key site hops) := by
  unfold State.index
  split
  · split
    · split
      · exact h.giveOne _
      · exact h.passIndex _ _ _ site hops
    · exact h.giveOne _
  · split
    · exact h.giveOne _
    · exact h.badOperand _ _ site
  · split
    · exact h.badOperand _ _ site
    · exact h.passIndex _ _ _ site hops

theorem passStore (hb : InBody s.stack) (handler object key value : Value) (site : Option Site)
    (hops : Nat) : Internal s (s.passStore handler object key value site hops) := by
  unfold State.passStore
  split
  · exact h.callFrom rfl (.of_inBody hb rfl) _ _ site
  · split
    · exact h.raiseText site _
    · exact h.go (.of_inBody hb rfl) rfl

theorem storeRaw (hb : InBody s.stack) (ref : Nat) (key value : Value) (site : Option Site) :
    Internal s (s.storeRaw ref key value site) := by
  unfold State.storeRaw
  split
  · exact h.raiseText site _
  · exact h.goWith (Heap.grows_modifyTable _ _ fun t ht => Table.areDistinct_set ht _ _)
      (.of_inBody hb rfl) rfl

theorem store (hb : InBody s.stack) (object key value : Value) (site : Option Site)
    (hops : Nat) : Internal s (s.store object key value site hops) := by
  unfold State.store
  split
  · split
    · split
      · exact h.storeRaw hb _ _ _ site
      · exact h.passStore hb _ _ _ _ site hops
    · exact h.storeRaw hb _ _ _ site
  · split
    · exact h.badOperand _ _ site
    · exact h.passStore hb _ _ _ _ site hops

end ScriptedViews.Script.State.IsOrderly

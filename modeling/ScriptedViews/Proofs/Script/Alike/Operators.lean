import ScriptedViews.Proofs.Script.Alike.Moves

set_option autoImplicit false

/-! # Operators and fields in states that are alike

Operators look at what values are and not at where they are, and what they find in metatables is
alike. So what they come to is alike. -/

namespace ScriptedViews.Script

variable {ω σ φ : Type} {host : Host ω σ φ} {L : Likeness ω σ φ} {R : Matching}

theorem Value.Alike.operandOf_eq {v v' : Value} (h : v.Alike R v') (op : ArithmeticOp) :
    v.operandOf op = v'.operandOf op := by
  cases h <;> rfl

theorem Value.Alike.badKey?_eq {v v' : Value} (h : v.Alike R v') :
    TableLibrary.badKey? v = TableLibrary.badKey? v' := by
  cases h <;> rfl

theorem comparesItself_eq {a a' b b' : Value} (ha : a.Alike R a') (hb : b.Alike R b') :
    State.comparesItself a b = State.comparesItself a' b' := by
  cases ha <;> cases hb <;> rfl

/-- What comes of a value that says what to do, unless it is nil. -/
def Value.handle {α : Type} (m : Value) (otherwise : α) (handler : Value → α) : α :=
  match m with
  | .nil => otherwise
  | v => handler v

namespace State.Alike

variable {s s' : State ω σ φ} (h : Alike L R s s') {a a' b b' v v' : Value}

include h

theorem badOperand (what : String) (hv : v.Alike R v') (site : Option Site) :
    Matches L R (s.badOperand what v site) (s'.badOperand what v' site) := by
  unfold State.badOperand
  rw [hv.typeName_eq]
  exact h.raiseText site _

/-- What a metatable says is asked, or the operands are at fault. -/
theorem handled {m m' : Value} (hm : m.Alike R m') {f f' : Frame φ} (hf : f.Alike L R f')
    {vs vs' : List Value} (hvs : ValuesAlike R vs vs') (site : Option Site)
    {t t' : State ω σ φ} (ht : Matches L R t t') :
    Matches L R (m.handle t fun handler => s.callFrom f handler vs site)
      (m'.handle t' fun handler => s'.callFrom f' handler vs' site) := by
  cases hm with
  | nil => exact ht
  | table hr => exact h.callFrom hf (.table hr) hvs site
  | function hr => exact h.callFrom hf (.function hr) hvs site
  | object hr => exact h.callFrom hf (.object hr) hvs site
  | _ => exact h.callFrom hf (by constructor) hvs site

/-! ## Operators -/

theorem arithmetic (op : ArithmeticOp) (ha : a.Alike R a') (hb : b.Alike R b')
    (site : Option Site) :
    Matches L R (s.arithmetic op a b site) (s'.arithmetic op a' b' site) := by
  have hm := h.heap.metafieldOf ha hb op.event
  unfold State.arithmetic
  rw [ha.operandOf_eq op, hb.operandOf_eq op]
  cases a'.operandOf op with
  | none => exact h.handled hm .single (.pair ha hb) site (h.badOperand _ ha site)
  | some x =>
    cases b'.operandOf op with
    | none => exact h.handled hm .single (.pair ha hb) site (h.badOperand _ hb site)
    | some y =>
      dsimp only
      split
      · exact h.giveOne (.number _)
      · exact h.raiseText site _

theorem concatenate (ha : a.Alike R a') (hb : b.Alike R b') (site : Option Site) :
    Matches L R (s.concatenate a b site) (s'.concatenate a' b' site) := by
  have hm := h.heap.metafieldOf ha hb "__concat"
  unfold State.concatenate
  rw [ha.toText?_eq, hb.toText?_eq]
  cases a'.toText? with
  | none => exact h.handled hm .single (.pair ha hb) site (h.badOperand _ ha site)
  | some x =>
    cases b'.toText? with
    | none => exact h.handled hm .single (.pair ha hb) site (h.badOperand _ hb site)
    | some y => exact h.giveOne (.text _)

theorem equality (negated : Bool) (ha : a.Alike R a') (hb : b.Alike R b') (site : Option Site) :
    Matches L R (s.equality negated a b site) (s'.equality negated a' b' site) := by
  have hm := h.heap.metafieldOf ha hb "__eq"
  unfold State.equality
  simp only [ha.same_eq h.heap.faithful hb, comparesItself_eq ha hb]
  split
  · exact h.handled hm (.truth negated) (.pair ha hb) site (h.giveOne (.bool _))
  · exact h.giveOne (.bool _)

theorem order (event : String) (numbers : Number → Number → Bool) (texts : Bytes → Bytes → Bool)
    (ha : a.Alike R a') (hb : b.Alike R b') (site : Option Site) :
    Matches L R (s.order event numbers texts a b site) (s'.order event numbers texts a' b' site) := by
  have hm := h.heap.metafieldOf ha hb event
  have hask := h.handled hm (.truth false) (.pair ha hb) site
    (h.raiseText site ("attempt to compare " ++ if a'.typeName = b'.typeName
      then "two " ++ a'.typeName ++ " values" else a'.typeName ++ " with " ++ b'.typeName))
  -- numbers and texts are compared as they are, and anything else is asked for
  cases ha with
  | number x =>
    cases hb with
    | number y => exact h.giveOne (.bool _)
    | _ => exact hask
  | text x =>
    cases hb with
    | text y => exact h.giveOne (.bool _)
    | _ => exact hask
  | _ => cases hb <;> exact hask

theorem before (ha : a.Alike R a') (hb : b.Alike R b') (site : Option Site) :
    Matches L R (s.before a b site) (s'.before a' b' site) :=
  h.order _ _ _ ha hb site

theorem notAfter (ha : a.Alike R a') (hb : b.Alike R b') (site : Option Site) :
    Matches L R (s.notAfter a b site) (s'.notAfter a' b' site) :=
  h.order _ _ _ ha hb site

theorem operate (op : BinaryOp) (ha : a.Alike R a') (hb : b.Alike R b') (site : Option Site) :
    Matches L R (s.operate op a b site) (s'.operate op a' b' site) := by
  cases op with
  | arithmetic op => exact h.arithmetic op ha hb site
  | concat => exact h.concatenate ha hb site
  | equal => exact h.equality false ha hb site
  | notEqual => exact h.equality true ha hb site
  | less => exact h.before ha hb site
  | atMost => exact h.notAfter ha hb site
  | greater => exact h.before hb ha site
  | atLeast => exact h.notAfter hb ha site

theorem lengthOf (hv : v.Alike R v') (site : Option Site) :
    Matches L R (s.lengthOf v site) (s'.lengthOf v' site) := by
  have hm := h.heap.metafield hv "__len"
  have hbad := h.badOperand "get length of" hv site
  -- a table without a length of its own has the one that it is found to have
  have htable : ∀ {x y : Nat}, R.table x y →
      (s.heap.table x).length = (s'.heap.table y).length := fun hr => (h.heap.tables hr).length_eq
  cases hv with
  | text bytes => exact h.giveOne (.ofNat _)
  | table hr =>
    simp only [State.lengthOf]
    generalize s.heap.metafield (.table _) "__len" = m at hm ⊢
    generalize s'.heap.metafield (.table _) "__len" = m' at hm ⊢
    have hcall := h.callFrom .single hm (.pair (.table hr) (.table hr)) site
    cases hm with
    | nil =>
      dsimp only
      rw [htable hr]
      exact h.giveOne (.ofNat _)
    | _ => exact hcall
  | function hr =>
    exact h.handled hm .single (.pair (.function hr) (.function hr)) site hbad
  | object hr => exact h.handled hm .single (.pair (.object hr) (.object hr)) site hbad
  | _ => exact h.handled hm .single (.pair (by constructor) (by constructor)) site hbad

theorem operateOn (op : UnaryOp) (hv : v.Alike R v') (site : Option Site) :
    Matches L R (s.operateOn op v site) (s'.operateOn op v' site) := by
  cases op with
  | not =>
    simp only [State.operateOn, hv.isTrue_eq]
    exact h.giveOne (.bool _)
  | length => exact h.lengthOf hv site
  | negate =>
    simp only [State.operateOn, hv.toNumber?_eq]
    cases v'.toNumber? with
    | some n => exact h.giveOne (.number _)
    | none =>
      exact h.handled (h.heap.metafield hv "__unm") .single (.pair hv hv) site
        (h.badOperand _ hv site)
  | bitNot =>
    have hask := h.handled (h.heap.metafield hv "__bnot") .single (.pair hv hv) site
      (h.badOperand "perform bitwise operation on" hv site)
    cases hv with
    | number n =>
      simp only [State.operateOn]
      cases n.toInt? with
      | some n => exact h.giveOne (.number _)
      | none => exact h.raiseText site _
    | _ => exact hask

/-! ## Fields -/

theorem passIndex {m m' : Value} (hm : m.Alike R m') (ha : a.Alike R a') (hb : b.Alike R b')
    (site : Option Site) (hops : Nat) :
    Matches L R (s.passIndex m a b site hops) (s'.passIndex m' a' b' site hops) := by
  simp only [State.passIndex, hm.isFunction_eq]
  split
  · exact h.callFrom .single hm (.pair ha hb) site
  · split
    · exact h.raiseText site _
    · exact h.go (.index site _ hm hb)

theorem passStore {m m' : Value} (hm : m.Alike R m') (ha : a.Alike R a') (hb : b.Alike R b')
    (hv : v.Alike R v') (site : Option Site) (hops : Nat) :
    Matches L R (s.passStore m a b v site hops) (s'.passStore m' a' b' v' site hops) := by
  simp only [State.passStore, hm.isFunction_eq]
  split
  · exact h.callFrom .discard hm (.cons ha (ValuesAlike.pair hb hv)) site
  · split
    · exact h.raiseText site _
    · exact h.go (.store site _ hm hb hv)

theorem storeRaw {x y : Nat} (hr : R.table x y) (hb : b.Alike R b') (hv : v.Alike R v')
    (site : Option Site) : Matches L R (s.storeRaw x b v site) (s'.storeRaw y b' v' site) := by
  simp only [State.storeRaw, hb.badKey?_eq]
  split
  · exact h.raiseText site _
  · have hheap := h.heap.modifyTable hr fun t t' ht => ht.set h.heap.faithful hb hv
    exact ⟨⟨hheap, h.world, h.stack, h.level, h.depth⟩, .finished⟩

theorem index (hmethods : ∀ {o o'}, L.object R o o' → host.methods o = host.methods o')
    (ha : a.Alike R a') (hb : b.Alike R b') (site : Option Site) (hops : Nat) :
    Matches L R (s.index host a b site hops) (s'.index host a' b' site hops) := by
  have hm := h.heap.metafield ha "__index"
  have hbad := h.badOperand "index" ha site
  -- what a metatable says is passed on to, unless it says nothing
  have hpass : ∀ {t t' : State ω σ φ}, Matches L R t t' →
      Matches L R ((s.heap.metafield a "__index").handle t fun m => s.passIndex m a b site hops)
        ((s'.heap.metafield a' "__index").handle t' fun m => s'.passIndex m a' b' site hops) := by
    intro t t' ht
    have hcall := h.passIndex hm ha hb site hops
    generalize s.heap.metafield a "__index" = m at hm hcall ⊢
    generalize s'.heap.metafield a' "__index" = m' at hm hcall ⊢
    cases hm with
    | nil => exact ht
    | _ => exact hcall
  cases ha with
  | table hr =>
    have hget := (h.heap.tables hr).get h.heap.faithful hb
    have hgive := h.giveOne hget
    simp only [State.index]
    generalize (s.heap.table _).get b = w at hget hgive ⊢
    generalize (s'.heap.table _).get b' = w' at hget hgive ⊢
    cases hget with
    | nil => exact hpass (h.giveOne .nil)
    | _ => exact hgive
  | object hr =>
    obtain ⟨o, o', ho, ho', halike⟩ := h.heap.objects hr
    simp only [State.index, ho, ho']
    cases halike with
    | host hobject =>
      refine h.giveOne ?_
      unfold methodOf
      cases hb with
      | text name =>
        dsimp only
        rw [hmethods hobject]
        split
        · exact .method _
        · exact .nil
      | _ => exact .nil
    | failure cause => exact hbad
  | _ => exact hpass hbad

theorem store (ha : a.Alike R a') (hb : b.Alike R b') (hv : v.Alike R v') (site : Option Site)
    (hops : Nat) :
    Matches L R (s.store a b v site hops) (s'.store a' b' v' site hops) := by
  have hm := h.heap.metafield ha "__newindex"
  have hbad := h.badOperand "index" ha site
  have hpass : ∀ {t t' : State ω σ φ}, Matches L R t t' →
      Matches L R
        ((s.heap.metafield a "__newindex").handle t fun m => s.passStore m a b v site hops)
        ((s'.heap.metafield a' "__newindex").handle t' fun m =>
          s'.passStore m a' b' v' site hops) := by
    intro t t' ht
    have hcall := h.passStore hm ha hb hv site hops
    generalize s.heap.metafield a "__newindex" = m at hm hcall ⊢
    generalize s'.heap.metafield a' "__newindex" = m' at hm hcall ⊢
    cases hm with
    | nil => exact ht
    | _ => exact hcall
  cases ha with
  | table hr =>
    have hget := (h.heap.tables hr).get h.heap.faithful hb
    simp only [State.store, hget.isNil_eq]
    split
    · exact hpass (h.storeRaw hr hb hv site)
    · exact h.storeRaw hr hb hv site
  | _ => exact hpass hbad

end State.Alike

end ScriptedViews.Script

import ScriptedViews.Proofs.Script.Internal.Calls

set_option autoImplicit false

/-! # Sorting and expressions without the host

A sort goes on from one comparison to the next, and evaluating an expression starts with its parts:
both are code that goes on by itself. -/

namespace ScriptedViews.Script

variable {ω σ φ : Type}

/-! ## Tables under construction -/

namespace Construction

variable {c : Construction}

theorem IsDistinct.flush (h : c.IsDistinct) : c.flush.IsDistinct :=
  Table.areDistinct_setItems _ _ h

theorem IsDistinct.settle (h : c.IsDistinct) : c.settle.IsDistinct := by
  unfold Construction.settle
  split
  · exact h.flush
  · exact h

theorem IsDistinct.addAll (h : c.IsDistinct) (vs : List Value) :
    (vs.foldl Construction.add c).IsDistinct := by
  induction vs generalizing c with
  | nil => exact h
  | cons v vs ih => exact ih (c := c.add v) h

end Construction

theorem Control.fits_construct {scope : Scope} {c : Construction} {fields : List Field}
    (hc : c.IsDistinct) (K : List (Frame φ)) : (Control.construct scope c fields).Fits K :=
  ⟨nofun, fun _ hd => Option.some.inj hd ▸ hc⟩

/-- Elements of a table are exchanged. -/
theorem State.grows_exchange (s : State ω σ φ) (ref i j : Nat) :
    s.heap.Grows (s.exchange ref i j).heap :=
  Heap.grows_modifyTable _ _ fun _ ht => Table.areDistinct_set (Table.areDistinct_set ht _ _) _ _

theorem State.Internal.of_exchange {s t : State ω σ φ} {ref i j : Nat}
    (h : Internal (s.exchange ref i j) t) : Internal s t :=
  .of_heap (s.grows_exchange ref i j) h

namespace State.IsOrderly

variable {host : Host ω σ φ} {s : State ω σ φ} (h : s.IsOrderly)

include h

/-! ## Sorting -/

theorem exchange (ref i j : Nat) : (s.exchange ref i j).IsOrderly :=
  h.setHeap (grows_exchange s ref i j)

theorem comparing (task : Sorting) (phase : SortPhase) (a b : Value) (site : Option Site) :
    Internal s (s.comparing task phase a b site) := by
  unfold State.comparing
  dsimp only
  split
  · exact .of_push rfl ((h.pushed (.of_plain _ rfl rfl rfl) .finished).before a b none)
  · exact h.callFrom rfl (.of_plain _ rfl rfl rfl) _ _ _

theorem sortPart (task : Sorting) (site : Option Site) : Internal s (s.sortPart task site) := by
  unfold State.sortPart
  split
  · exact h.comparing task _ _ _ site
  · split
    · exact h.give _
    · exact h.go (.of_plain _ rfl rfl) rfl

theorem sortLater (task : Sorting) (site : Option Site) : Internal s (s.sortLater task site) :=
  h.go (.of_plain _ rfl rfl) rfl

theorem sortLeft (task : Sorting) (i j : Nat) (pivot : Value) (site : Option Site) :
    Internal s (s.sortLeft task i j pivot site) :=
  h.comparing task _ _ _ site

theorem sortRight (task : Sorting) (i j : Nat) (pivot : Value) (site : Option Site) :
    Internal s (s.sortRight task i j pivot site) :=
  h.comparing task _ _ _ site

theorem sortAround (task : Sorting) (middle : Nat) (site : Option Site) :
    Internal s (s.sortAround task middle site) := by
  unfold State.sortAround
  split
  · exact h.sortLater task site
  · exact .of_exchange ((h.exchange _ _ _).sortLeft task _ _ _ site)

theorem sortParts (task : Sorting) (pivot : Nat) (site : Option Site) :
    Internal s (s.sortParts task pivot site) := by
  unfold State.sortParts
  exact h.go (.of_plain _ rfl rfl) rfl

theorem sortCompared (task : Sorting) (holds : Bool) (site : Option Site) :
    Internal s (s.sortCompared task holds site) := by
  unfold State.sortCompared
  dsimp only
  split
  · have hends : ∀ {s' : State ω σ φ}, s'.IsOrderly → Internal s'
        (if task.last - task.first = 1 then s'.sortLater task site
        else s'.comparing task (.middleFirst ((task.first + task.last) / 2))
          (s'.element task.table ((task.first + task.last) / 2))
          (s'.element task.table task.first) site) := by
      intro s' h'
      split
      · exact h'.sortLater task site
      · exact h'.comparing task _ _ _ site
    cases holds
    · exact hends h
    · exact .of_exchange (hends (h.exchange _ _ _))
  · split
    · exact .of_exchange ((h.exchange _ _ _).sortAround task _ site)
    · exact h.comparing task _ _ _ site
  · split
    · exact .of_exchange ((h.exchange _ _ _).sortAround task _ site)
    · exact h.sortAround task _ site
  · split
    · exact h.sortRight task _ _ _ site
    · split
      · exact h.raiseText site _
      · exact h.sortLeft task _ _ _ site
  · split
    · split
      · exact h.raiseText site _
      · exact h.sortRight task _ _ _ site
    · split
      · exact .of_exchange ((h.exchange _ _ _).sortParts task _ site)
      · exact .of_exchange ((h.exchange _ _ _).sortLeft task _ _ _ site)

/-! ## First steps of expressions -/

theorem readName (scope : Scope) (line : Nat) (n : Name) :
    Internal s (s.readName scope line n) := by
  unfold State.readName
  split
  · exact h.giveOne _
  · exact h.go (.of_plain _ rfl rfl) rfl

theorem evaluateBinary (scope : Scope) (site : Site) (op : BinaryOp) (left right : Expr) :
    Internal s (s.evaluateBinary scope site op left right) := by
  unfold State.evaluateBinary
  split <;> exact h.push rfl (.of_plain _ rfl rfl rfl) (.of_plain _ rfl rfl) rfl

theorem evaluateCall (scope : Scope) (tail : Bool) (hb : tail = true → InBody s.stack) (e : Expr) :
    Internal s (s.evaluateCall scope tail e) := by
  unfold State.evaluateCall
  split
  · exact h.push rfl ⟨by simpa [Frame.isStatement, Frame.isTail] using hb, fun _ h => by cases h⟩
      (.of_plain _ rfl rfl) rfl
  · exact h.push rfl ⟨by simpa [Frame.isStatement, Frame.isTail] using hb, fun _ h => by cases h⟩
      (.of_plain _ rfl rfl) rfl
  · exact h.give _

theorem evaluate (scope : Scope) (e : Expr) : Internal s (s.evaluate scope e) := by
  unfold State.evaluate
  split
  case h_6 => exact h.goWith (Heap.grows_newFunction _ _) (.of_plain _ rfl rfl) rfl
  case h_7 => exact h.readName scope _ _
  case h_8 =>
    split <;> exact h.push rfl (.of_plain _ rfl rfl rfl) (.of_plain _ rfl rfl) rfl
  case h_9 => exact h.evaluateCall scope false (fun h => by cases h) _
  case h_10 => exact h.evaluateCall scope false (fun h => by cases h) _
  case h_12 => exact h.evaluateBinary scope _ _ _ _
  case h_15 => exact h.go (Control.fits_construct (c := {}) List.Pairwise.nil _) rfl
  all_goals first
    | exact h.giveOne _
    | exact h.give _
    | exact h.push rfl (.of_plain _ rfl rfl rfl) (.of_plain _ rfl rfl) rfl

theorem evaluateAll (scope : Scope) (done : List Value) (es : List Expr) :
    Internal s (s.evaluateAll scope done es) := by
  unfold State.evaluateAll
  split
  · exact h.give _
  · exact h.push rfl (.of_plain _ rfl rfl rfl) (.of_plain _ rfl rfl) rfl
  · exact h.push rfl (.of_plain _ rfl rfl rfl) (.of_plain _ rfl rfl) rfl

/-! ## Tables -/

/-- A frame with a table under construction is put on the stack for an expression. -/
theorem pushConstruction {f : Frame φ} {c : Construction} (hc : c.IsDistinct)
    (hf : f.construction? = some c) (scope : Scope) (e : Expr) :
    Internal s (s.push f (.evaluate scope e)) := by
  have hfits : f.Fits s.stack := by
    refine ⟨fun hor => ?_, fun d hd => by rwa [← Option.some.inj (hf.symm.trans hd)]⟩
    cases f <;> simp [Frame.construction?] at hf <;> simp [Frame.isStatement, Frame.isTail] at hor
  exact h.push (by cases f <;> first | rfl | simp [Frame.construction?] at hf) hfits
    (.of_plain _ rfl rfl) rfl

theorem finishTable {c : Construction} (hc : c.IsDistinct) : Internal s (s.finishTable c) :=
  h.goWith (Heap.grows_newTable _ hc.flush) (.of_plain _ rfl rfl) rfl

theorem construct (scope : Scope) {c : Construction} (hc : c.IsDistinct) (fields : List Field) :
    Internal s (s.construct scope c fields) := by
  unfold State.construct
  split
  · exact h.finishTable hc
  · dsimp only
    split
    · exact h.pushConstruction hc.settle rfl scope _
    · exact h.pushConstruction hc.settle rfl scope _
  · dsimp only
    split
    · exact h.pushConstruction hc.settle rfl scope _
    · exact h.pushConstruction hc.settle rfl scope _

theorem constructed (scope : Scope) {c : Construction} (hc : c.IsDistinct) (site : Site)
    (key value : Value) (rest : List Field) :
    Internal s (s.constructed scope c site key value rest) := by
  unfold State.constructed
  split
  · exact h.raiseText _ _
  · have hset : ({ c with table := c.table.set key value } : Construction).IsDistinct :=
      Table.areDistinct_set hc key value
    exact h.go (Control.fits_construct hset _) rfl

end State.IsOrderly

end ScriptedViews.Script

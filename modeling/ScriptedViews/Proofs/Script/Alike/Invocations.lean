import ScriptedViews.Proofs.Script.Alike.Calls
import ScriptedViews.Script.Machine.Sort

set_option autoImplicit false

/-! # Invocations in states that are alike

Calls of any function, and sorting, whose comparisons may be calls. -/

namespace ScriptedViews.Script.State.Alike

variable {ω σ φ : Type} {host : Host ω σ φ} {L : Likeness ω σ φ} {R : Matching}
  {s s' : State ω σ φ} (h : Alike L R s s') {a a' : Arguments} {v v' : Value}

include h

/-! ## Functions of the library -/

theorem callLoad (ha : a.Alike R a') (site : Option Site) :
    Follows host L (s.callLoad a site) (s'.callLoad a' site) := by
  have henvironment : (if 4 ≤ a.values.length then a.get 3 else .table s.heap.globals).Alike R
      (if 4 ≤ a'.values.length then a'.get 3 else .table s'.heap.globals) := by
    rw [ha.values.length_eq]
    split
    · exact ha.get 3
    · exact .table h.heap.globals
  have hreader := ha.get 0
  unfold State.callLoad
  simp only [ha.textOr_eq, hreader.toText?_eq, hreader.isFunction_eq]
  cases a'.textOr 2 (ascii "bt") with
  | error reason => exact (h.raiseText site _).follows
  | ok mode =>
    cases (a'.get 0).toText? with
    | some source =>
      dsimp only
      cases a'.textOr 1 source with
      | error reason => exact (h.raiseText site _).follows
      | ok name =>
        dsimp only
        split
        · exact h.loadSource name source henvironment
        · exact (h.give (.pair .nil (.ofString _))).follows
    | none =>
      dsimp only
      cases a'.textOr 1 (ascii "=(load)") with
      | error reason => exact (h.raiseText site _).follows
      | ok name =>
        dsimp only
        split
        · exact (h.callFrom (.chunkPiece [] name hreader henvironment) hreader .nil none).follows
        · rw [ha.mistyped_eq]
          split
          · exact (h.raiseText site _).follows
          · exact (h.give .nil).follows

theorem callSort (ha : a.Alike R a') (site : Option Site) :
    Matches L R (s.callSort a site) (s'.callSort a' site) := by
  have htable := ha.table 0
  have horder := ha.get 1
  unfold State.callSort
  generalize a.table 0 = x at htable ⊢
  generalize a'.table 0 = x' at htable ⊢
  cases htable with
  | error reason => exact h.raiseText site _
  | ok hr =>
    simp only [(h.heap.tables hr).length_eq, horder.isNil_eq, horder.isFunction_eq,
      ha.mistyped_eq]
    split
    · exact h.give .nil
    · split
      · exact h.go (.sort site ⟨hr, .none, rfl, rfl, rfl, .ends⟩)
      · split
        · exact h.go (.sort site ⟨hr, .some horder, rfl, rfl, rfl, .ends⟩)
        · split
          · exact h.raiseText site _
          · exact h.give .nil

theorem callBuiltin (ha : a.Alike R a') (site : Option Site)
    (hd : (s.callBuiltin a site).IsDiscreet) :
    Follows host L (s.callBuiltin a site) (s'.callBuiltin a' site) := by
  have hrun := h.heap.run? ha
  have hany := ha.any 0
  unfold State.callBuiltin at hd ⊢
  generalize a.run? s.heap = x at hrun hd ⊢
  generalize a'.run? s'.heap = x' at hrun ⊢
  cases hrun with
  | some hresult =>
    cases hresult with
    | error reason => exact (h.raiseText site _).follows
    | ok hr =>
      obtain ⟨S, hS, hheap, hvalues⟩ := hr
      have halike := h.setHeap hS hheap
      exact Matches.follows
        ⟨⟨hheap, halike.world, halike.stack, h.level, h.depth⟩, .values hvalues⟩
  | none =>
    dsimp only at hd ⊢
    rw [← ha.callee]
    cases hb : a.callee with
    | assert => exact (h.callAssert ha site).follows
    | error => exact (h.callError ha site).follows
    | pcall => exact (h.callGuarded ha site).follows
    | load => exact h.callLoad ha site
    | pairs => exact (h.callPairs ha site).follows
    | ipairsStep =>
      dsimp only
      rw [ha.int_eq]
      split
      · exact (h.raiseText site _).follows
      · exact (h.push (.iterated _) (.index site 0 (ha.get 0) (.number _))).follows
    | stringFormat =>
      rw [hb] at hd
      exact (h.continueFormat ha.formatStart site hd).follows
    | tableSort => exact (h.callSort ha site).follows
    | _ =>
      -- what is left asks for the text of the first argument, or gives it to a loop
      rw [hb] at hd
      dsimp only at hd ⊢
      generalize a.any 0 = y at hany hd ⊢
      generalize a'.any 0 = y' at hany ⊢
      cases hany with
      | error reason => exact (h.raiseText site _).follows
      | ok hv =>
        dsimp only at hd ⊢
        split
        · exact (h.give (.cons (.builtin _) (.cons hv (.cons (.number _) .nil)))).follows
        · rename_i hne
          rw [if_neg hne] at hd
          exact (h.textOf hv site hd).follows

/-! ## Any function -/

theorem invoke {asked : List (Frame φ) → State ω σ φ → Prop}
    (hhost : host.Respects L asked) (hv : v.Alike R v')
    {args args' : List Value} (ha : ValuesAlike R args args') (site : Option Site)
    (hd : (s.invoke host v args site).IsDiscreet) {K : List (Frame φ)}
    (hp : asked K (s.invoke host v args site)) :
    Follows host L (s.invoke host v args site) (s'.invoke host v' args' site) := by
  have hm := h.heap.metafield hv "__call"
  have hcall : Matches L R
      ((s.heap.metafield v "__call").handle (s.badOperand "call" v site) fun m =>
        s.go (.invoke m (v :: args) site))
      ((s'.heap.metafield v' "__call").handle (s'.badOperand "call" v' site) fun m =>
        s'.go (.invoke m (v' :: args') site)) := by
    have hgo := fun m m' (hm : Value.Alike R m m') =>
      h.go (.invoke site hm (.cons hv ha))
    generalize s.heap.metafield v "__call" = m at hm ⊢
    generalize s'.heap.metafield v' "__call" = m' at hm ⊢
    have hthis := hgo m m' hm
    cases hm with
    | nil => exact h.badOperand "call" hv site
    | _ => exact hthis
  cases hv with
  | function hr =>
    obtain ⟨c, c', hc, hc', halike⟩ := h.heap.functions hr
    simp only [State.invoke, hc, hc']
    exact h.callFunction halike ha site
  | builtin b =>
    have hargs : Arguments.Alike R ⟨b, args⟩ ⟨b, args'⟩ := ⟨rfl, ha⟩
    exact h.callBuiltin hargs site hd
  | method name => exact hhost.invoke name h ha hp
  | _ => exact hcall.follows

/-- A function that is left for another one takes its frames with it. -/
theorem dropWhile_stack :
    List.Forall₂ (Frame.Alike L R) (s.stack.dropWhile fun f => !f.isActivation)
      (s'.stack.dropWhile fun f => !f.isActivation) := by
  have hstack := h.stack
  generalize s.stack = K at hstack
  generalize s'.stack = K' at hstack
  induction hstack with
  | nil => exact .nil
  | @cons f f' K K' hf hK ih =>
    have hactivation : f.isActivation = f'.isActivation := by cases hf <;> rfl
    simp only [List.dropWhile_cons, hactivation]
    split
    · exact ih
    · exact .cons hf hK

theorem invokeLast {asked : List (Frame φ) → State ω σ φ → Prop}
    (hhost : host.Respects L asked) (hv : v.Alike R v')
    {args args' : List Value} (ha : ValuesAlike R args args') (site : Site)
    (hd : (s.invokeLast host v args site).IsDiscreet) {K : List (Frame φ)}
    (hp : asked K (s.invokeLast host v args site)) :
    Follows host L (s.invokeLast host v args site) (s'.invokeLast host v' args' site) := by
  have hinvoke := fun hd => h.invoke hhost hv ha (some site) hd (K := K)
  cases hv with
  | function hr =>
    have hstack := h.dropWhile_stack
    unfold State.invokeLast at hd hp ⊢
    dsimp only at hd hp ⊢
    generalize s.stack.dropWhile (fun f => !f.isActivation) = K₀ at hstack hd hp ⊢
    generalize s'.stack.dropWhile (fun f => !f.isActivation) = K₀' at hstack ⊢
    cases hstack with
    | nil => exact hinvoke hd hp
    | cons hf hK =>
      cases hf with
      | activation caller =>
        exact Matches.follows ⟨⟨h.heap, h.world, hK, h.level, congrArg (· - 1) h.depth⟩,
          .invoke caller (.function hr) ha⟩
      | _ => exact hinvoke hd hp
  | _ => exact hinvoke hd hp

/-! ## Sorting -/

section Sorting

variable {t t' : Sorting}

theorem element {x y : Nat} (hr : R.table x y) (i : Nat) :
    (s.element x i).Alike R (s'.element y i) :=
  (h.heap.tables hr).get h.heap.faithful (.ofNat i)

theorem exchange {x y : Nat} (hr : R.table x y) (i j : Nat) :
    Alike L R (s.exchange x i j) (s'.exchange y i j) := by
  have hf := h.heap.faithful
  exact ⟨h.heap.modifyTable hr fun u u' hu =>
    (hu.set hf (.ofNat i) (h.element hr j)).set hf (.ofNat j) (h.element hr i),
    h.world, h.stack, h.level, h.depth⟩

theorem comparing (ht : t.Alike R t') {p p' : SortPhase} (hp : p.Alike R p') {a a' b b' : Value}
    (ha : a.Alike R a') (hb : b.Alike R b') (site : Option Site) :
    Matches L R (s.comparing t p a b site) (s'.comparing t' p' a' b' site) := by
  have hframe : Frame.Alike L R (.sorting { t with phase := p } site)
      (.sorting { t' with phase := p' } site) :=
    .sorting site ⟨ht.table, ht.order, ht.first, ht.last, ht.later, hp⟩
  obtain ⟨table, order, first, last, later, phase⟩ := t
  obtain ⟨table', order', first', last', later', phase'⟩ := t'
  have horder : Option.Rel (Value.Alike R) order order' := ht.order
  unfold State.comparing
  cases horder with
  | none => exact (h.pushed hframe _ _).before ha hb none
  | some hf => exact h.callFrom hframe hf (.pair ha hb) none

theorem sortPart (ht : t.Alike R t') (site : Option Site) :
    Matches L R (s.sortPart t site) (s'.sortPart t' site) := by
  simp only [State.sortPart, ht.first, ht.last, ht.later]
  split
  · exact h.comparing ht .ends (h.element ht.table _) (h.element ht.table _) site
  · split
    · exact h.give .nil
    · exact h.go (.sort site ⟨ht.table, ht.order, rfl, rfl, rfl, ht.phase⟩)

theorem sortLater (ht : t.Alike R t') (site : Option Site) :
    Matches L R (s.sortLater t site) (s'.sortLater t' site) :=
  h.go (.sort site ⟨ht.table, ht.order, rfl, rfl, ht.later, ht.phase⟩)

theorem sortLeft (ht : t.Alike R t') (i j : Nat) {pivot pivot' : Value}
    (hp : pivot.Alike R pivot') (site : Option Site) :
    Matches L R (s.sortLeft t i j pivot site) (s'.sortLeft t' i j pivot' site) :=
  h.comparing ht (.left _ _ hp) (h.element ht.table _) hp site

theorem sortRight (ht : t.Alike R t') (i j : Nat) {pivot pivot' : Value}
    (hp : pivot.Alike R pivot') (site : Option Site) :
    Matches L R (s.sortRight t i j pivot site) (s'.sortRight t' i j pivot' site) :=
  h.comparing ht (.right _ _ hp) hp (h.element ht.table _) site

theorem sortAround (ht : t.Alike R t') (middle : Nat) (site : Option Site) :
    Matches L R (s.sortAround t middle site) (s'.sortAround t' middle site) := by
  simp only [State.sortAround, ht.first, ht.last]
  split
  · exact h.sortLater ht site
  · exact (h.exchange ht.table _ _).sortLeft ht _ _ (h.element ht.table _) site

theorem sortParts (ht : t.Alike R t') (pivot : Nat) (site : Option Site) :
    Matches L R (s.sortParts t pivot site) (s'.sortParts t' pivot site) := by
  simp only [State.sortParts, ht.first, ht.last, ht.later]
  exact h.go (.sort site ⟨ht.table, ht.order, rfl, rfl, rfl, ht.phase⟩)

theorem sortCompared (ht : t.Alike R t') (holds : Bool) (site : Option Site) :
    Matches L R (s.sortCompared t holds site) (s'.sortCompared t' holds site) := by
  have hphase := ht.phase
  have hbad : Matches L R (s.badOrder site) (s'.badOrder site) := h.raiseText site _
  have hswapped : ∀ i j : Nat, Alike L R (if holds then s.exchange t.table i j else s)
      (if holds then s'.exchange t'.table i j else s') := by
    intro i j
    split
    · exact h.exchange ht.table i j
    · exact h
  unfold State.sortCompared
  simp only [← ht.first, ← ht.last]
  generalize t.phase = p at hphase ⊢
  generalize t'.phase = p' at hphase ⊢
  cases hphase with
  | ends =>
    have hs := hswapped t.first t.last
    dsimp only
    split
    · exact hs.sortLater ht site
    · exact hs.comparing ht (.middleFirst _) (hs.element ht.table _) (hs.element ht.table _) site
  | middleFirst middle =>
    dsimp only
    split
    · exact (h.exchange ht.table _ _).sortAround ht middle site
    · exact h.comparing ht (.lastMiddle _) (h.element ht.table _) (h.element ht.table _) site
  | lastMiddle middle => exact (hswapped middle t.last).sortAround ht middle site
  | left i j hp =>
    dsimp only
    split
    · exact h.sortRight ht i j hp site
    · split
      · exact hbad
      · exact h.sortLeft ht i j hp site
  | right i j hp =>
    dsimp only
    split
    · split
      · exact hbad
      · exact h.sortRight ht i j hp site
    · split
      · exact (h.exchange ht.table _ _).sortParts ht i site
      · exact (h.exchange ht.table _ _).sortLeft ht i j hp site

end Sorting

end ScriptedViews.Script.State.Alike

import ScriptedViews.Proofs.Script.Alike.Library
import ScriptedViews.Proofs.Script.Alike.Operators

set_option autoImplicit false

/-! # Calls in states that are alike

Functions of the script are called with new variables that are matched, functions of the library
give what is alike, and functions of the host have to see to it themselves. The text of a value that
is held by reference is its address, which need not be the same: no run may come to it. -/

namespace ScriptedViews.Script

variable {ω σ φ : Type} {host : Host ω σ φ} {L : Likeness ω σ φ} {R S : Matching}

/-! ## What is asked of a run and of the host -/

/-- Whether a value is held by reference. -/
def Value.isReference : Value → Bool
  | .table _ => true
  | .function _ => true
  | .object _ => true
  | _ => false

/-- Whether the machine has just come to no text that is the address of something. -/
def State.IsDiscreet (s : State ω σ φ) : Prop :=
  ∀ v : Value, v.isReference = true → s.control ≠ .values [.text v.describe]

/-- Whether functions of the host keep states alike, as long as the states that they come to are as
    `asked`, given the stack before. -/
structure Host.Respects (host : Host ω σ φ) (L : Likeness ω σ φ)
    (asked : List (Frame φ) → State ω σ φ → Prop) : Prop where
  methods : ∀ {R o o'}, L.object R o o' → host.methods o = host.methods o'
  invoke : ∀ {R : Matching} {s s' : State ω σ φ} (name : Bytes) {args args' : List Value}
    {K : List (Frame φ)}, State.Alike L R s s' → ValuesAlike R args args' →
      asked K (s.turn (host.invoke name args s.level s.heap s.world)) →
      State.Follows host L (s.turn (host.invoke name args s.level s.heap s.world))
        (s'.turn (host.invoke name args' s'.level s'.heap s'.world))
  resume : ∀ {R : Matching} {s s' : State ω σ φ} {f f' : φ}
    {o o' : Except RaisedError (List Value)}, State.Alike L R s s' →
      L.frame R f f' → ExceptAlike (ValuesAlike R) o o' →
      asked (.host f :: s.stack) (s.turn (host.resume f o s.level s.heap s.world)) →
      State.Follows host L (s.turn (host.resume f o s.level s.heap s.world))
        (s'.turn (host.resume f' o' s'.level s'.heap s'.world))

/-! ## Formatted texts -/

/-- Whether two templates have been filled in alike up to some place. -/
inductive Format.Progress.Alike (R : Matching) : Format.Progress → Format.Progress → Prop where
  | done (bytes : Bytes) : Alike R (.done bytes) (.done bytes)
  | ask {v v' : Value} (d : Format.Directive) {t t' : Format.Template} (hv : v.Alike R v')
      (ht : t.Alike R t') : Alike R (.ask v d t) (.ask v' d t')
  | failed (reason : String) : Alike R (.failed reason) (.failed reason)

namespace Format.Template.Alike

variable {t t' : Format.Template}

theorem args (ht : t.Alike R t') : t.args.Alike R t'.args :=
  ⟨ht.callee, ht.values⟩

theorem run (fuel : Nat) (ht : t.Alike R t') : (t.run fuel).Alike R (t'.run fuel) := by
  induction fuel generalizing t t' with
  | zero =>
    simp only [Template.run, ht.done]
    exact .done _
  | succ fuel ih =>
    have hfill : ∀ (d : Directive) (i : Nat), d.fill t.args i = d.fill t'.args i := by
      intro d i
      simp only [Directive.fill, ht.args.int_eq, ht.args.number_eq]
    simp only [Template.run, ht.rest, ht.done, ht.values.length_eq, ht.next, hfill, ht.args.bad_eq]
    split
    · exact .done _
    · split
      · exact ih ⟨ht.callee, ht.values, rfl, rfl, rfl⟩
      · split
        · exact ih ⟨ht.callee, ht.values, rfl, rfl, rfl⟩
        · split
          · split <;> exact .failed _
          · split
            · exact .failed _
            · split
              · exact .ask _ (ht.args.get _) ⟨ht.callee, ht.values, rfl, rfl, rfl⟩
              · split
                · exact .failed _
                · exact ih ⟨ht.callee, ht.values, rfl, rfl, rfl⟩

theorem resume (ht : t.Alike R t') : t.resume.Alike R t'.resume := by
  unfold Template.resume
  rw [ht.rest]
  exact ht.run _

theorem answer (ht : t.Alike R t') (d : Directive) (bytes : Bytes) :
    (t.answer d bytes).Alike R (t'.answer d bytes) := by
  unfold Template.answer
  rw [ht.done]
  exact resume ⟨ht.callee, ht.values, ht.next, rfl, ht.rest⟩

end Format.Template.Alike

theorem Arguments.Alike.formatStart {a a' : Arguments} (ha : a.Alike R a') :
    (Format.start a).Alike R (Format.start a') := by
  unfold Format.start
  rw [ha.text_eq 0]
  cases a'.text 0 with
  | error reason => exact .failed reason
  | ok rest => exact Format.Template.Alike.resume ⟨ha.callee, ha.values, rfl, rfl, rfl⟩

/-! ## New variables and functions -/

namespace Heap.Alike

variable {h h' : Heap ω}

/-- Parameters become variables that are matched from then on. -/
theorem bindParams (hh : Heap.Alike L R h h') (params : List Name) {args args' : List Value}
    (ha : ValuesAlike R args args') {framed : Bool} {vars vars' : List (Name × Nat)}
    (hv : VarsAlike R framed vars vars') :
    ∃ S, R.Grows S
      ∧ VarsAlike S framed (h.bindParams params args vars).1 (h'.bindParams params args' vars').1
      ∧ ValuesAlike S (h.bindParams params args vars).2.1 (h'.bindParams params args' vars').2.1
      ∧ Heap.Alike L S (h.bindParams params args vars).2.2
        (h'.bindParams params args' vars').2.2 := by
  induction params generalizing R h h' args args' vars vars' with
  | nil => exact ⟨R, .refl R, hv, ha, hh⟩
  | cons n params ih =>
    have hg : R.Grows (R.withCell h.cells.size h'.cells.size) := Matching.grows_withCell
    have hvars := (hv.mono hg.toWidens).cons n Matching.cell_withCell
    obtain ⟨S, hS, hvars', hargs', hheap⟩ :=
      ih (hh.newCell ha.firstValue) (ha.tail.mono hg) hvars
    exact ⟨S, hg.trans hS, hvars', hargs', hheap⟩

/-- Source is read on both heaps or on neither, and the functions that are made are matched. -/
theorem readChunk (hh : Heap.Alike L R h h') (levels : Nat) (name source : Bytes)
    {environment environment' : Value} (he : environment.Alike R environment') :
    ExceptAlike (fun r r' => ∃ S, R.Grows S ∧ r.1.Alike S r'.1 ∧ Heap.Alike L S r.2 r'.2)
      (h.readChunk levels name source environment)
      (h'.readChunk levels name source environment') := by
  unfold Heap.readChunk
  cases readProgram levels source with
  | error e => exact .error e
  | ok function =>
    have hg : R.Grows (R.withCell h.cells.size h'.cells.size) := Matching.grows_withCell
    have hg' : (R.withCell h.cells.size h'.cells.size).Grows
        ((R.withCell h.cells.size h'.cells.size).withFunction h.functions.size h'.functions.size) :=
      Matching.grows_withFunction
    have hheap := hh.newCell he
    have hclosure : Closure.Alike (R.withCell h.cells.size h'.cells.size)
        ⟨function, [(environmentName, h.cells.size)], chunkTitle name⟩
        ⟨function, [(environmentName, h'.cells.size)], chunkTitle name⟩ :=
      ⟨rfl, ⟨false, .cons _ Matching.cell_withCell .nil, fun h => absurd h (by decide)⟩, rfl⟩
    exact .ok ⟨_, hg.trans hg', .function Matching.function_withFunction,
      hheap.newFunction hclosure⟩

end Heap.Alike

/-! ## Calls -/

namespace State.Alike

variable {s s' : State ω σ φ} (h : Alike L R s s') {a a' : Arguments} {v v' : Value}

include h

/-- A function of the script runs in a scope of its own. What it sees of the environment counts as
    none of its own variables, whichever frame it was made in. -/
theorem callFunction {c c' : Closure} (hc : c.Alike R c') {args args' : List Value}
    (ha : ValuesAlike R args args') (site : Option Site) :
    Follows host L (s.callFunction c args site) (s'.callFunction c' args' site) := by
  obtain ⟨hfunction, ⟨framed, hvars, hleaves⟩, hchunk⟩ := hc
  unfold State.callFunction
  rw [h.depth]
  split
  · exact (h.raiseText site _).follows
  · rw [← hfunction]
    cases hf : c.function with
    | mk params isVararg body =>
      obtain ⟨S, hS, hvars', hrest, hheap⟩ := h.heap.bindParams params ha hvars
      rw [hf] at hleaves
      have halike := h.setHeap hS hheap
      refine Matches.follows ⟨⟨hheap, halike.world, ?_, h.level, rfl⟩, ?_⟩
      · exact .cons (.activation site) halike.stack
      · refine .execute ⟨hvars', .inl rfl, ?_, hchunk⟩ hleaves
        dsimp only
        split
        · exact hrest
        · exact .nil

theorem callers_eq :
    s.stack.filterMap Frame.caller? = s'.stack.filterMap Frame.caller? := by
  have hstack := h.stack
  generalize s.stack = K at hstack
  generalize s'.stack = K' at hstack
  induction hstack with
  | nil => rfl
  | @cons f f' K K' hf _ ih =>
    have hcaller : f.caller? = f'.caller? := by cases hf <;> rfl
    simp only [List.filterMap_cons, hcaller, ih]

theorem raiseValue (hv : v.Alike R v') (site : Option Site) (n : Int) :
    Matches L R (s.raiseValue site v n) (s'.raiseValue site v' n) := by
  cases hv with
  | text bytes =>
    simp only [State.raiseValue, State.errorSite, h.callers_eq]
    exact h.raise _ _
  | table hr => exact h.go (.raised (.table hr))
  | function hr => exact h.go (.raised (.function hr))
  | object hr => exact h.go (.raised (.object hr))
  | _ => exact h.go (.raised (by constructor))

theorem callError (ha : a.Alike R a') (site : Option Site) :
    Matches L R (s.callError a site) (s'.callError a' site) := by
  unfold State.callError
  rw [ha.intOr_eq]
  split
  · exact h.raiseText site _
  · exact h.raiseValue (ha.get 0) site _

theorem callAssert (ha : a.Alike R a') (site : Option Site) :
    Matches L R (s.callAssert a site) (s'.callAssert a' site) := by
  have hany := ha.any 0
  have hvalues := ha.values
  unfold State.callAssert
  generalize hvs : a.values = vs at hvalues ⊢
  generalize hvs' : a'.values = vs' at hvalues ⊢
  cases hvalues with
  | nil =>
    dsimp only
    generalize a.any 0 = x at hany ⊢
    generalize a'.any 0 = x' at hany ⊢
    cases hany with
    | error reason => exact h.raiseText site _
    | ok hv => exact h.giveOne hv
  | cons hv hrest =>
    dsimp only
    rw [hv.isTrue_eq]
    split
    · exact h.give (.cons hv hrest)
    · refine h.raiseValue ?_ site 1
      cases hrest with
      | nil => exact .ofString _
      | cons hw _ => exact hw

theorem callGuarded (ha : a.Alike R a') (site : Option Site) :
    Matches L R (s.callGuarded a site) (s'.callGuarded a' site) := by
  have hany := ha.any 0
  unfold State.callGuarded
  generalize a.any 0 = x at hany ⊢
  generalize a'.any 0 = x' at hany ⊢
  cases hany with
  | error reason => exact h.raiseText site _
  | ok hv => exact h.enter (.guarded site) (.invoke none hv (ha.values.drop 1))

/-! ## Texts of values -/

/-- The text of a value is the same, unless it is an address. -/
theorem textOf (hv : v.Alike R v') (site : Option Site)
    (hd : (s.textOf v site).IsDiscreet) :
    Matches L R (s.textOf v site) (s'.textOf v' site) := by
  have hm := h.heap.metafield hv "__tostring"
  -- without a function that gives the text, only what is no reference has the same text in both
  have hplain : (s.giveOne (.text (s.describe v))).IsDiscreet →
      Matches L R (s.giveOne (.text (s.describe v))) (s'.giveOne (.text (s'.describe v'))) := by
    intro hdiscreet
    cases hv with
    | table hr => exact absurd rfl (hdiscreet (.table _) rfl)
    | function hr => exact absurd rfl (hdiscreet (.function _) rfl)
    | @object x y hr =>
      obtain ⟨o, o', ho, ho', halike⟩ := h.heap.objects hr
      cases halike with
      | host hobject =>
        refine absurd ?_ (hdiscreet (.object x) rfl)
        simp only [State.describe, ho]
        rfl
      | failure cause =>
        simp only [State.describe, ho, ho']
        exact h.giveOne (.text _)
    | _ => exact h.giveOne (.text _)
  unfold State.textOf at hd ⊢
  generalize s.heap.metafield v "__tostring" = m at hm hd ⊢
  generalize s'.heap.metafield v' "__tostring" = m' at hm ⊢
  have hcall := h.callFrom (.textOf site) hm (.single hv) none
  cases hm with
  | nil => exact hplain hd
  | _ => exact hcall

theorem continueFormat {p p' : Format.Progress} (hp : p.Alike R p') (site : Option Site)
    (hd : (s.continueFormat p site).IsDiscreet) :
    Matches L R (s.continueFormat p site) (s'.continueFormat p' site) := by
  cases hp with
  | done bytes => exact h.giveOne (.text _)
  | failed reason => exact h.raiseText site _
  | ask d hv ht => exact (h.pushed (.formatting d site ht) _ _).textOf hv site hd

theorem callPairs (ha : a.Alike R a') (site : Option Site) :
    Matches L R (s.callPairs a site) (s'.callPairs a' site) := by
  have hany := ha.any 0
  unfold State.callPairs
  generalize a.any 0 = x at hany ⊢
  generalize a'.any 0 = x' at hany ⊢
  cases hany with
  | error reason => exact h.raiseText site _
  | ok hv =>
    exact h.handled (h.heap.metafield hv "__pairs") (.atMost 3) (.single hv) none
      (h.give (.cons (.builtin _) (.cons hv (.cons .nil .nil))))

/-! ## Source -/

theorem loadSource (name source : Bytes) {environment environment' : Value}
    (he : environment.Alike R environment') :
    Follows host L (s.loadSource name source environment)
      (s'.loadSource name source environment') := by
  have hread := h.heap.readChunk s.level name source he
  unfold State.loadSource
  rw [← h.level]
  generalize s.heap.readChunk s.level name source environment = x at hread ⊢
  generalize s'.heap.readChunk s.level name source environment' = x' at hread ⊢
  cases hread with
  | error e => exact (h.give (.pair .nil (.text _))).follows
  | ok hr =>
    obtain ⟨S, hS, hf, hheap⟩ := hr
    have halike := h.setHeap hS hheap
    exact Matches.follows
      ⟨⟨hheap, halike.world, halike.stack, rfl, h.depth⟩, .values (.single hf)⟩

theorem addPiece (source : Bytes) {reader reader' : Value} (hr : reader.Alike R reader')
    (name : Bytes) {environment environment' : Value} (he : environment.Alike R environment')
    (hv : v.Alike R v') :
    Follows host L (s.addPiece source reader name environment v)
      (s'.addPiece source reader' name environment' v') := by
  have hload : Follows host L (s.loadSource name source environment)
      (s'.loadSource name source environment') := h.loadSource name source he
  have hmore := fun bytes : Bytes =>
    h.callFrom (.chunkPiece (source ++ bytes) name hr he) hr .nil none
  have hbad := h.give (.pair .nil (.ofString "reader function must return a string"))
  cases hv with
  | nil => exact hload
  | text bytes =>
    cases bytes with
    | nil => exact hload
    | cons b bs => exact (hmore (b :: bs)).follows
  | number n =>
    simp only [State.addPiece, Value.toText?]
    split
    · rename_i heq
      exact hload
    · rename_i bytes _ heq
      cases heq
      exact (hmore _).follows
    · exact hbad.follows
  | _ => exact hbad.follows

end State.Alike

end ScriptedViews.Script

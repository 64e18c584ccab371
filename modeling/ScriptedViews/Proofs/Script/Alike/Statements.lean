import ScriptedViews.Proofs.Script.Alike.Expressions
import ScriptedViews.Script.Machine.Statement

set_option autoImplicit false

/-! # Statements in states that are alike

New variables are matched, variables that are matched are assigned to alike, and code that leaves
the environment alone never assigns to it. -/

namespace ScriptedViews.Script

variable {ω σ φ : Type} {host : Host ω σ φ} {L : Likeness ω σ φ} {R : Matching}
  {framed : Bool} {c c' : Scope}

/-! ## Lists -/

theorem ValuesAlike.adjust (count : Nat) {vs vs' : List Value} (hv : ValuesAlike R vs vs') :
    ValuesAlike R (Script.adjust count vs) (Script.adjust count vs') := by
  induction count generalizing vs vs' with
  | zero => exact .nil
  | succ count ih =>
    cases hv with
    | nil => exact .cons .nil (ih .nil)
    | cons hv hvs => exact .cons hv (ih hvs)

theorem assignedAlike_zip {ts ts' : List Target} (ht : List.Forall₂ (Target.Alike R) ts ts')
    {vs vs' : List Value} (hv : ValuesAlike R vs vs') :
    List.Forall₂ (AssignedAlike R) (ts.zip vs) (ts'.zip vs') := by
  induction ht generalizing vs vs' with
  | nil => exact .nil
  | cons ht _ ih =>
    cases hv with
    | nil => exact .nil
    | cons hv hvs => exact .cons ⟨ht, hv⟩ (ih hvs)

theorem keeps_targets {e : Expr} {es : List Expr}
    (h : Keeps framed (Expr.targetsLeave environmentName (e :: es))) :
    Keeps framed (!e.isVariable environmentName) ∧ Keeps framed (e.leaves environmentName)
      ∧ Keeps framed (Expr.targetsLeave environmentName es) := by
  simp only [Expr.targetsLeave, List.all_cons, Expr.leaveAll, Keeps, Bool.and_eq_true] at h ⊢
  exact ⟨fun hf => (h hf).1.1, fun hf => (h hf).2.1, fun hf => ⟨(h hf).1.2, (h hf).2.2⟩⟩

/-! ## Variables -/

namespace Heap.Alike

variable {h h' : Heap ω} (hh : Heap.Alike L R h h')

include hh

/-- Operands that are alike have values that are alike. -/
theorem operand {o o' : Operand} (ho : o.Alike R o') : (h.operand o).Alike R (h'.operand o') := by
  cases ho with
  | value hv => exact hv
  | cell hr => exact hh.cells hr
  | environment hr =>
    obtain ⟨hcell, hcell', htable⟩ := hh.environment hr
    simp only [Heap.operand, hcell, hcell']
    exact .table htable
  | read hr =>
    obtain ⟨hcell, -, htable⟩ := hh.environment hr
    simp only [Heap.operand, hcell]
    exact .table htable

omit hh in
/-- Variables that are declared are matched from then on. -/
theorem declareAll (hh : Heap.Alike L R h h') (hs : c.Alike R framed c') (names : List Name)
    {vs vs' : List Value} (hv : ValuesAlike R vs vs') :
    ∃ S, R.Grows S
      ∧ (State.declareAll h c names vs).1.Alike S framed (State.declareAll h' c' names vs').1
      ∧ Heap.Alike L S (State.declareAll h c names vs).2 (State.declareAll h' c' names vs').2 := by
  induction names generalizing R h h' c c' vs vs' with
  | nil => exact ⟨R, .refl R, hs, hh⟩
  | cons n names ih =>
    have hg : R.Grows (R.withCell h.cells.size h'.cells.size) := Matching.grows_withCell
    obtain ⟨S, hS, hscope, hheap⟩ :=
      ih (hh.newCell hv.firstValue) ((hs.mono hg).declare n Matching.cell_withCell) (hv.tail.mono hg)
    exact ⟨S, hg.trans hS, hscope, hheap⟩

end Heap.Alike

/-! ## Targets -/

/-- An operand is kept as it is if it is the variable that is assigned to. No environment is. -/
theorem Operand.Alike.freeze (hf : R.Faithful) {a b : Nat} (hr : R.cell a b) {v v' : Value}
    (hv : v.Alike R v') {o o' : Operand} (ho : o.Alike R o') :
    (Target.freezeOperand a v o).Alike R (Target.freezeOperand b v' o') := by
  cases ho with
  | value hw => exact .value hw
  | @cell x y hxy =>
    simp only [Target.freezeOperand]
    by_cases hx : x = a
    · rw [if_pos hx, if_pos ((hf.cell hxy hr).1 hx)]
      exact .value hv
    · rw [if_neg hx, if_neg fun hy => hx ((hf.cell hxy hr).2 hy)]
      exact .cell hxy
  | environment he =>
    obtain ⟨hne, hne'⟩ := hf.apart hr he
    simp only [Target.freezeOperand, if_neg hne.symm, if_neg hne'.symm]
    exact .environment he
  | read he =>
    obtain ⟨hne, -⟩ := hf.apart hr he
    simp only [Target.freezeOperand, if_neg hne.symm]
    exact .read he

theorem Target.Alike.freeze (hf : R.Faithful) {a b : Nat} (hr : R.cell a b) {v v' : Value}
    (hv : v.Alike R v') {t t' : Target} (ht : t.Alike R t') :
    (t.freeze a v).Alike R (t'.freeze b v') := by
  cases ht with
  | cell h => exact .cell h
  | field site ho hk => exact .field site (ho.freeze hf hr hv) (hk.freeze hf hr hv)

theorem targetsAlike_freeze (hf : R.Faithful) {a b : Nat} (hr : R.cell a b) {v v' : Value}
    (hv : v.Alike R v') {ts ts' : List Target} (ht : List.Forall₂ (Target.Alike R) ts ts') :
    List.Forall₂ (Target.Alike R) (ts.map (Target.freeze a v)) (ts'.map (Target.freeze b v')) := by
  induction ht with
  | nil => exact .nil
  | cons ht _ ih => exact .cons (ht.freeze hf hr hv) ih

/-- Whether the object of a field that is assigned to is a variable is told alike. -/
theorem Scope.Alike.objectCell? (hs : c.Alike R framed c') (object key : Expr) :
    Scope.OwnAlike R c' object (State.objectCell? c object key)
      (State.objectCell? c' object key) := by
  cases object with
  | name line n =>
    have hfound := hs.find? n
    generalize hx : c.find? n = x at hfound
    generalize hx' : c'.find? n = x' at hfound
    cases hfound with
    | none =>
      simp only [State.objectCell?, hx, hx']
      exact .none
    | cell h own =>
      simp only [State.objectCell?, hx, hx']
      split
      · exact .both (.cell h)
      · exact .none
    | @environment d d' h hn hf own own' hown =>
      simp only [State.objectCell?, hx, hx']
      by_cases hlate : (own' || State.isTextLiteral key) = true
      · have hsooner : (own || State.isTextLiteral key) = true := by
          rcases Bool.or_eq_true_iff.1 hlate with hlate | hlate
          · rw [hown hlate, Bool.true_or]
          · rw [hlate, Bool.or_true]
        rw [if_pos hlate, if_pos hsooner]
        exact .both (.environment h)
      · rw [if_neg hlate]
        split
        · exact .read h (by simp only [Scope.cellOf?, hx', Option.map_some])
        · exact .none
  | single e => exact hs.ownCell? (.single e)
  | _ => exact .none

/-- Loops over numbers are the same, whatever else bounds them. -/
theorem Counting.start_eq {first first' limit limit' step step' : Value}
    (hf : first.Alike R first') (hl : limit.Alike R limit') (hs : step.Alike R step') :
    Counting.start first limit step = Counting.start first' limit' step' := by
  unfold Counting.start
  rw [hl.toNumber?_eq]
  cases hf with
  | number n => cases n <;> cases hs <;> rfl
  | _ => cases hs <;> rfl

namespace State.Alike

variable {s s' : State ω σ φ} (h : Alike L R s s')

include h

/-! ## Variables -/

theorem executeWith (hs : c.Alike R framed c') (names : List Name) {vs vs' : List Value}
    (hv : ValuesAlike R vs vs') {body : List Stmt}
    (hb : Keeps framed (Stmt.leaveAll environmentName body)) :
    Follows host L (s.executeWith c names vs body) (s'.executeWith c' names vs' body) := by
  obtain ⟨S, hS, hscope, hheap⟩ := h.heap.declareAll hs names hv
  have halike := h.setHeap hS hheap
  exact Matches.follows ⟨⟨hheap, halike.world, halike.stack, h.level, h.depth⟩,
    .execute hscope hb⟩

theorem declareFunction (hs : c.Alike R framed c') (n : Name) {f : Function}
    (hf : Keeps framed (f.leaves environmentName)) {rest : List Stmt}
    (hr : Keeps framed (Stmt.leaveAll environmentName rest)) :
    Follows host L (s.declareFunction c n f rest) (s'.declareFunction c' n f rest) := by
  have hg : R.Grows (R.withCell s.heap.cells.size s'.heap.cells.size) := Matching.grows_withCell
  have hheap := h.heap.newCell (v := .nil) .nil
  have hscope := (hs.mono hg.toWidens).declare n Matching.cell_withCell
  -- the function sees its own variable, which holds it afterwards
  have hclosure : Closure.Alike (R.withCell s.heap.cells.size s'.heap.cells.size)
      ⟨f, (c.declare n s.heap.cells.size).vars, c.chunk⟩
      ⟨f, (c'.declare n s'.heap.cells.size).vars, c'.chunk⟩ :=
    ⟨rfl, ⟨framed, hscope.vars, hf⟩, hs.chunk⟩
  have hg' : (R.withCell s.heap.cells.size s'.heap.cells.size).Grows
      ((R.withCell s.heap.cells.size s'.heap.cells.size).withFunction s.heap.functions.size
        s'.heap.functions.size) := Matching.grows_withFunction
  have hset := (hheap.newFunction hclosure).setCell (hg'.cell Matching.cell_withCell)
    (.function Matching.function_withFunction)
  have halike := h.setHeap (hg.trans hg') hset
  exact Matches.follows
    ⟨⟨hset, halike.world, halike.stack, h.level, h.depth⟩, .execute (hscope.mono hg'.toWidens) hr⟩

/-! ## Assignments -/

theorem resolveKey (hs : c.Alike R framed c') (line : Nat) {o o' : Operand} (ho : o.Alike R o')
    {key : Expr} (hk : Keeps framed (key.leaves environmentName)) {done done' : List Target}
    (hd : List.Forall₂ (Target.Alike R) done done') {rest values : List Expr}
    (hr : Keeps framed (Expr.targetsLeave environmentName rest))
    (hv : Keeps framed (Expr.leaveAll environmentName values)) :
    Follows host L (s.resolveKey c line o key done rest values)
      (s'.resolveKey c' line o' key done' rest values) := by
  have hfetch : ∀ (t : State ω σ φ) (d : Scope) (o : Operand) (done : List Target),
      t.resolveKey d line o key done rest values
        = t.fetch (d.ownCell? key) d key (.targetKey d line o done rest values)
          fun k => t.go (.resolve d line (.field (d.site line) o k :: done) rest values) := by
    intro t d o done
    cases hcell : d.ownCell? key <;> simp only [State.resolveKey, State.fetch, hcell]
  rw [hfetch, hfetch]
  refine h.fetch hs (hs.ownCell? key) hk (.targetKey line hs ho hd hr hv) (fun k k' hkk => ?_)
    fun v => rfl
  rw [hs.site_eq]
  exact (h.go (.resolve line hs (.cons (.field _ ho hkk) hd) hr hv)).follows

theorem resolveName (hs : c.Alike R framed c') (line : Nat) {done done' : List Target}
    (hd : List.Forall₂ (Target.Alike R) done done') (nameLine : Nat) (n : Name)
    {rest values : List Expr} (hn : Keeps framed (!(Expr.name nameLine n).isVariable environmentName))
    (hr : Keeps framed (Expr.targetsLeave environmentName rest))
    (hv : Keeps framed (Expr.leaveAll environmentName values)) :
    Matches L R (s.resolve c line done (.name nameLine n :: rest) values)
      (s'.resolve c' line done' (.name nameLine n :: rest) values) := by
  have hfound := hs.find? n
  have henvironment := hs.find? environmentName
  simp only [State.resolve]
  generalize c.find? n = x at hfound ⊢
  generalize c'.find? n = x' at hfound ⊢
  cases hfound with
  | none =>
    dsimp only
    rw [hs.site_eq]
    refine h.go (.resolve line hs (.cons (.field _ ?_ (.value (.text n))) hd) hr hv)
    generalize c.find? environmentName = y at henvironment ⊢
    generalize c'.find? environmentName = y' at henvironment ⊢
    cases henvironment with
    | none => exact .value .nil
    | cell hcell own => exact .cell hcell
    | environment hcell _ _ _ => exact .environment hcell
  | cell hcell own =>
    have hfrozen := targetsAlike_freeze h.heap.faithful hcell (h.heap.cells hcell) hd
    exact h.go (.resolve line hs (.cons (.cell hcell) hfrozen) hr hv)
  | environment _ hname hframed _ =>
    have := hn hframed
    simp [Expr.isVariable, hname] at this

theorem resolve (hs : c.Alike R framed c') (line : Nat) {done done' : List Target}
    (hd : List.Forall₂ (Target.Alike R) done done') {rest values : List Expr}
    (hr : Keeps framed (Expr.targetsLeave environmentName rest))
    (hv : Keeps framed (Expr.leaveAll environmentName values)) :
    Follows host L (s.resolve c line done rest values)
      (s'.resolve c' line done' rest values) := by
  cases rest with
  | nil => exact (h.push (.assignment hd) (.evaluateAll hs .nil hv)).follows
  | cons e rest =>
    obtain ⟨hname, hleaves, hrest⟩ := keeps_targets hr
    cases e with
    | name nameLine n => exact (h.resolveName hs line hd nameLine n hname hrest hv).follows
    | index indexLine object key =>
      simp only [Expr.leaves] at hleaves
      obtain ⟨hobject, hkey⟩ := keeps_and hleaves
      have hfetch : ∀ (t : State ω σ φ) (d : Scope) (done : List Target),
          t.resolve d line done (.index indexLine object key :: rest) values
            = t.fetch (objectCell? d object key) d object
              (.targetObject d line key done rest values)
              fun o => t.resolveKey d line o key done rest values := by
        intro t d done
        cases hcell : objectCell? d object key <;> simp only [State.resolve, State.fetch, hcell]
      rw [hfetch, hfetch]
      exact h.fetch hs (hs.objectCell? object key) hobject
        (.targetObject line hs hd hkey hrest hv)
        (fun o o' ho => h.resolveKey hs line ho hkey hd hrest hv) fun v => rfl
    | _ => exact (h.go (.resolve line hs hd hrest hv)).follows

theorem assignAll {pairs pairs' : List (Target × Value)}
    (hp : List.Forall₂ (AssignedAlike R) pairs pairs') :
    Matches L R (s.assignAll pairs) (s'.assignAll pairs') := by
  cases hp with
  | nil => exact h.go .finished
  | @cons p p' rest rest' hp hrest =>
    obtain ⟨t, v⟩ := p
    obtain ⟨t', v'⟩ := p'
    obtain ⟨ht, hv⟩ := hp
    cases ht with
    | cell hr =>
      exact ⟨⟨h.heap.setCell hr hv, h.world, h.stack, h.level, h.depth⟩, .assignAll hrest⟩
    | field site ho hk =>
      exact h.push (.assignRest hrest)
        (.store (some site) 0 (h.heap.operand ho) (h.heap.operand hk) hv)

theorem assign {ts ts' : List Target} (ht : List.Forall₂ (Target.Alike R) ts ts')
    {vs vs' : List Value} (hv : ValuesAlike R vs vs') :
    Matches L R (s.assign ts vs) (s'.assign ts' vs') := by
  have hvalues := (hv.adjust ts.length).reverse
  unfold State.assign
  rw [ht.length_eq] at hvalues ⊢
  exact h.go (.assignAll (assignedAlike_zip ht hvalues))

/-! ## Loops -/

section Loops

variable (hs : c.Alike R framed c') {body : List Stmt}
  (hb : Keeps framed (Stmt.leaveAll environmentName body))

include hs hb

theorem runInts (n : Name) (i step : Int64) (more : Nat) :
    Follows host L (s.runInts c n body i step more) (s'.runInts c' n body i step more) :=
  (h.pushed (.intBody n i step more hs hb) .finished .finished).executeWith hs [n]
    (.single (.number _)) hb

theorem runFloats (n : Name) (x limit step : Float) :
    Follows host L (s.runFloats c n body x limit step) (s'.runFloats c' n body x limit step) :=
  (h.pushed (.floatBody n x limit step hs hb) .finished .finished).executeWith hs [n]
    (.single (.number _)) hb

theorem startNumeric (site : Site) (n : Name) {vs vs' : List Value} (hv : ValuesAlike R vs vs') :
    Follows host L (s.startNumeric c site n body vs) (s'.startNumeric c' site n body vs') := by
  unfold State.startNumeric
  rw [Counting.start_eq (hv.getD 0) (hv.getD 1) (hv.getD 2)]
  split
  · exact (h.raiseText _ _).follows
  · exact (h.go .finished).follows
  · exact h.runInts hs hb n _ _ _
  · exact h.runFloats hs hb n _ _ _

theorem nextInt (n : Name) (i step : Int64) (more : Nat) :
    Follows host L (s.nextInt c n body i step more) (s'.nextInt c' n body i step more) := by
  cases more with
  | zero => exact (h.go .finished).follows
  | succ more => exact h.runInts hs hb n _ _ _

theorem nextFloat (n : Name) (x limit step : Float) :
    Follows host L (s.nextFloat c n body x limit step)
      (s'.nextFloat c' n body x limit step) := by
  have hrun : Follows host L (s.runFloats c n body (x + step) limit step)
      (s'.runFloats c' n body (x + step) limit step) := h.runFloats hs hb n _ _ _
  have hend : Follows host L (s.go .finished) (s'.go .finished) := (h.go .finished).follows
  unfold State.nextFloat
  dsimp only
  split
  · split
    · exact hrun
    · exact hend
  · split
    · exact hrun
    · exact hend

theorem iterate (site : Site) (names : List Name) {iterator iterator' state state' control control' : Value}
    (hi : iterator.Alike R iterator') (ht : state.Alike R state') (hk : control.Alike R control') :
    Matches L R (s.iterate c site names body iterator state control)
      (s'.iterate c' site names body iterator' state' control') :=
  h.callFrom (.genericNext site names hs hb hi ht) hi (.pair ht hk) (some site)

theorem runGeneric (site : Site) (names : List Name) {iterator iterator' state state' : Value}
    (hi : iterator.Alike R iterator') (ht : state.Alike R state') {vs vs' : List Value}
    (hv : ValuesAlike R vs vs') :
    Follows host L (s.runGeneric c site names body iterator state vs)
      (s'.runGeneric c' site names body iterator' state' vs') := by
  have hfirst := hv.firstValue
  unfold State.runGeneric
  generalize firstValue vs = k at hfirst ⊢
  generalize firstValue vs' = k' at hfirst ⊢
  have hframe := Frame.Alike.genericBody (L := L) site names hs hb hi ht hfirst
  have hrun : Follows host L
      ((s.push (.genericBody c site names body iterator state k) .finished).executeWith c names vs
        body)
      ((s'.push (.genericBody c' site names body iterator' state' k') .finished).executeWith c' names
        vs' body) := (h.pushed hframe .finished .finished).executeWith hs names hv hb
  cases hfirst with
  | nil => exact (h.go .finished).follows
  | _ => exact hrun

end Loops

/-! ## First steps -/

theorem executeReturn (hs : c.Alike R framed c') {values : List Expr}
    (hv : Keeps framed (Expr.leaveAll environmentName values)) :
    Matches L R (s.executeReturn c values) (s'.executeReturn c' values) := by
  cases values with
  | nil => exact h.go (.returning .nil)
  | cons e rest =>
    cases rest with
    | nil =>
      simp only [Expr.leaveAll] at hv
      obtain ⟨he, -⟩ := keeps_and hv
      unfold State.executeReturn
      dsimp only
      split
      · exact (h.pushed .results .finished .finished).evaluateCall hs true he
      · exact h.push .results (.evaluate hs he)
    | cons e' rest => exact h.push .results (.evaluateAll hs .nil hv)

theorem execute (hs : c.Alike R framed c') {body : List Stmt}
    (hb : Keeps framed (Stmt.leaveAll environmentName body)) :
    Follows host L (s.execute c body) (s'.execute c' body) := by
  cases body with
  | nil => exact (h.go .finished).follows
  | cons stmt rest =>
    simp only [Stmt.leaveAll] at hb
    obtain ⟨hstmt, hrest⟩ := keeps_and hb
    have hbody := h.pushed (.body hs hrest) .finished .finished
    cases stmt <;> simp only [Stmt.leaves] at hstmt
    · exact (h.push (.declare _ hs hrest) (.evaluateAll hs .nil hstmt)).follows
    · exact h.declareFunction hs _ hstmt hrest
    · obtain ⟨htargets, hvalues⟩ := keeps_and hstmt
      exact (hbody.go (.resolve _ hs .nil htargets hvalues)).follows
    · exact ((hbody.pushed .discard .finished .finished).evaluateCall hs false hstmt).follows
    · exact (hbody.go (.execute hs hstmt)).follows
    · obtain ⟨hcondition, hloop⟩ := keeps_and hstmt
      exact (hbody.push (.whileTest hs hcondition hloop) (.evaluate hs hcondition)).follows
    · exact (hbody.push (.repeatBody hs hstmt) (.execute hs hstmt)).follows
    · exact (hbody.push .untilTest (.evaluate hs hstmt)).follows
    · obtain ⟨hboth, halternative⟩ := keeps_and hstmt
      obtain ⟨hcondition, hconsequent⟩ := keeps_and hboth
      exact (hbody.push (.cond hs hconsequent halternative) (.evaluate hs hcondition)).follows
    · obtain ⟨hbounds, hloop⟩ := keeps_and hstmt
      obtain ⟨htwo, hstep⟩ := keeps_and hbounds
      obtain ⟨hstart, hlimit⟩ := keeps_and htwo
      have hexprs : ∀ {start limit step : Expr}, Keeps framed (start.leaves environmentName) →
          Keeps framed (limit.leaves environmentName) → Keeps framed (step.leaves environmentName) →
          Keeps framed (Expr.leaveAll environmentName [.single start, .single limit, .single step]) := by
        intro start limit step h1 h2 h3 hf
        simp only [Expr.leaveAll, Expr.leaves, h1 hf, h2 hf, h3 hf, Bool.and_self]
      simp only [State.execute, hs.site_eq]
      exact (hbody.push (.numericStart _ _ hs hloop)
        (.evaluateAll hs .nil (hexprs hstart hlimit hstep))).follows
    · obtain ⟨hvalues, hloop⟩ := keeps_and hstmt
      simp only [State.execute, hs.site_eq]
      exact (hbody.push (.genericStart _ _ hs hloop) (.evaluateAll hs .nil hvalues)).follows
    · exact (hbody.go .leaving).follows
    · exact (h.executeReturn hs hstmt).follows

end State.Alike

end ScriptedViews.Script

import ScriptedViews.Proofs.Script.Alike.Invocations
import ScriptedViews.Script.Machine.Expression

set_option autoImplicit false

/-! # Expressions in states that are alike

The steps of evaluating expressions. The environment may be a variable of the running function in
the first of two scopes only, and then it is read when an operator is applied in one of them, and
when it is met in the other one. As nothing assigns to it, this comes to the same. -/

namespace ScriptedViews.Script

variable {ω σ φ : Type} {host : Host ω σ φ} {L : Likeness ω σ φ} {R : Matching}
  {framed : Bool} {c c' : Scope}

theorem keeps_and {a b : Bool} (h : Keeps framed (a && b)) : Keeps framed a ∧ Keeps framed b :=
  ⟨fun hf => (Bool.and_eq_true_iff.1 (h hf)).1, fun hf => (Bool.and_eq_true_iff.1 (h hf)).2⟩

/-! ## Tables under construction -/

namespace Construction.Alike

variable {k k' : Construction}

theorem flush (hf : R.Faithful) (hk : k.Alike R k') : k.flush.Alike R k'.flush := by
  refine ⟨?_, ?_, .nil⟩
  · simp only [Construction.flush, hk.placed]
    exact Table.Alike.setItems hf hk.pending.reverse _ hk.table
  · simp only [Construction.flush, hk.placed, hk.pending.length_eq]

theorem settle (hf : R.Faithful) (hk : k.Alike R k') : k.settle.Alike R k'.settle := by
  unfold Construction.settle
  rw [hk.pending.length_eq]
  split
  · exact hk.flush hf
  · exact hk

theorem add (hk : k.Alike R k') {v v' : Value} (hv : v.Alike R v') :
    (k.add v).Alike R (k'.add v') :=
  ⟨hk.table, hk.placed, .cons hv hk.pending⟩

theorem addAll (hk : k.Alike R k') {vs vs' : List Value} (hv : ValuesAlike R vs vs') :
    (vs.foldl Construction.add k).Alike R (vs'.foldl Construction.add k') := by
  induction hv generalizing k k' with
  | nil => exact hk
  | cons hv _ ih => exact ih (hk.add hv)

end Construction.Alike

/-! ## Variables of the running function -/

namespace Scope

/-- The cell of an expression that is a variable, whichever function the variable belongs to. -/
def cellOf? (s : Scope) : Expr → Option Nat
  | .name _ n => (s.find? n).map Prod.fst
  | .single e => s.cellOf? e
  | _ => none

/-- Whether an expression is a variable of the running function alike. The environment may be one in
    the first scope and one of a function around it in the second. -/
inductive OwnAlike (R : Matching) (s' : Scope) (e : Expr) : Option Nat → Option Nat → Prop where
  | none : OwnAlike R s' e none none
  | both {a b : Nat} (h : (Operand.variable a).Alike R (.variable b)) :
      OwnAlike R s' e (some a) (some b)
  | read {d d' : Nat × Nat} (h : R.environment d d') (hread : s'.cellOf? e = some d'.1) :
      OwnAlike R s' e (some d.1) none

theorem Alike.ownName (hs : c.Alike R framed c') (line : Nat) (n : Name) :
    OwnAlike R c' (.name line n) (c.ownCell? (.name line n)) (c'.ownCell? (.name line n)) := by
  have hfound := hs.find? n
  generalize hx : c.find? n = x at hfound
  generalize hx' : c'.find? n = x' at hfound
  cases hfound with
  | none =>
    simp only [Scope.ownCell?, hx, hx']
    exact .none
  | cell h own =>
    simp only [Scope.ownCell?, hx, hx']
    cases own with
    | true => exact .both (.cell h)
    | false => exact .none
  | @environment d d' h hn hf own own' hown =>
    simp only [Scope.ownCell?, hx, hx']
    cases own' with
    | true =>
      obtain rfl := hown rfl
      exact .both (.environment h)
    | false =>
      cases own with
      | true => exact .read h (by simp only [Scope.cellOf?, hx', Option.map_some])
      | false => exact .none

theorem Alike.ownCell? (hs : c.Alike R framed c') (e : Expr) :
    OwnAlike R c' e (c.ownCell? e) (c'.ownCell? e) := by
  induction e using Scope.cellOf?.induct with
  | case1 line n => exact hs.ownName line n
  | case2 e ih =>
    simp only [Scope.ownCell?]
    generalize c.ownCell? e = x at ih ⊢
    generalize c'.ownCell? e = x' at ih ⊢
    cases ih with
    | none => exact .none
    | both h => exact .both h
    | read h hread => exact .read h hread
  | case3 e hname hsingle =>
    have hnone : ∀ s : Scope, s.ownCell? e = none := by
      intro s
      cases e with
      | name line n => exact absurd rfl (hname line n)
      | single e => exact absurd rfl (hsingle e)
      | _ => rfl
    rw [hnone, hnone]
    exact .none

end Scope

namespace State

/-- A variable is read in some steps, whatever stands around it. -/
theorem stepMany_cellOf {e : Expr} {cell : Nat} (he : c.cellOf? e = some cell)
    (s : State ω σ φ) :
    ∃ n, (s.go (.evaluate c e)).stepMany host n = s.giveOne (s.heap.cell cell) := by
  induction e using Scope.cellOf?.induct generalizing s with
  | case1 line n =>
    simp only [Scope.cellOf?, Option.map_eq_some_iff] at he
    obtain ⟨⟨cell, own⟩, hfind, rfl⟩ := he
    refine ⟨1, ?_⟩
    simp only [stepMany, step, go, evaluate, readName, hfind]
    rfl
  | case2 e ih =>
    obtain ⟨n, hn⟩ := ih he (s.push .single .finished)
    -- the parentheses are opened, what is in them is read, and they are closed
    refine ⟨1 + (n + 1), ?_⟩
    have hopen : (s.go (.evaluate c (.single e))).stepMany host 1
        = (s.push .single .finished).go (.evaluate c e) := rfl
    rw [stepMany_add, hopen, stepMany_add, hn]
    rfl
  | case3 e hname hsingle =>
    cases e with
    | name line n => exact absurd rfl (hname line n)
    | single e => exact absurd rfl (hsingle e)
    | _ => simp only [Scope.cellOf?, reduceCtorEq] at he

/-- The second machine may read a variable ahead. -/
theorem Follows.read {s t : State ω σ φ} {e : Expr} {cell : Nat} (he : c.cellOf? e = some cell)
    (f : Frame φ) (h : Follows host L s
      ((t.giveOne (t.heap.cell cell)).resumeValues host [t.heap.cell cell] f)) :
    Follows host L s (t.push f (.evaluate c e)) := by
  obtain ⟨n, hn⟩ : ∃ n, ((t.push f .finished).go (.evaluate c e)).stepMany host n
      = (t.push f .finished).giveOne (t.heap.cell cell) := stepMany_cellOf he _
  refine Follows.right (n + 1) ?_
  have hstart : t.push f (.evaluate c e) = (t.push f .finished).go (.evaluate c e) := rfl
  rw [stepMany_add, hstart, hn]
  exact h

/-- Have an operand evaluated, and do what a frame says with it, unless it is the variable in some
    cell. -/
def fetch (s : State ω σ φ) (cell? : Option Nat) (scope : Scope) (e : Expr) (f : Frame φ)
    (known : Operand → State ω σ φ) : State ω σ φ :=
  match cell? with
  | some cell => known (.variable cell)
  | none => s.push f (.evaluate scope e)

namespace Alike

variable {s s' : State ω σ φ} (h : Alike L R s s')

include h

/-- An operand may be known in one of two states and be evaluated in the other one. -/
theorem fetch (hs : c.Alike R framed c') {e : Expr} {cell? cell?' : Option Nat}
    (hown : Scope.OwnAlike R c' e cell? cell?')
    (he : Keeps framed (e.leaves environmentName)) {f f' : Frame φ} (hf : f.Alike L R f')
    {known known' : Operand → State ω σ φ}
    (hknown : ∀ o o', o.Alike R o' → Follows host L (known o) (known' o'))
    (hresume : ∀ v, (s'.giveOne v).resumeValues host [v] f' = known' (.value v)) :
    Follows host L (s.fetch cell? c e f known) (s'.fetch cell?' c' e f' known') := by
  unfold State.fetch
  cases hown with
  | none => exact (h.push hf (.evaluate hs he)).follows
  | both ho => exact hknown _ _ ho
  | read hr hread =>
    refine Follows.read hread f' ?_
    obtain ⟨-, hcell, -⟩ := h.heap.environment hr
    rw [hresume, hcell]
    exact hknown _ _ (.read hr)

/-! ## First steps -/

/-- The table of global variables is the same as far as it can be seen. -/
theorem environment (hs : c.Alike R framed c') :
    (((c.find? environmentName).map fun r => s.heap.cell r.1).getD .nil).Alike R
      (((c'.find? environmentName).map fun r => s'.heap.cell r.1).getD .nil) := by
  have hfound := hs.find? environmentName
  generalize c.find? environmentName = x at hfound ⊢
  generalize c'.find? environmentName = x' at hfound ⊢
  cases hfound with
  | none => exact .nil
  | cell hr own => exact h.heap.cells hr
  | environment hr _ _ _ =>
    obtain ⟨hcell, hcell', htable⟩ := h.heap.environment hr
    simp only [Option.map_some, Option.getD_some, hcell, hcell']
    exact .table htable

theorem readName (hs : c.Alike R framed c') (line : Nat) (n : Name) :
    Matches L R (s.readName c line n) (s'.readName c' line n) := by
  have hfound := hs.find? n
  have henvironment := h.environment hs
  unfold State.readName
  generalize c.find? n = x at hfound ⊢
  generalize c'.find? n = x' at hfound ⊢
  cases hfound with
  | none =>
    dsimp only
    rw [hs.site_eq]
    refine h.go (.index _ 0 ?_ (.text n))
    cases hx : c.find? environmentName <;> cases hx' : c'.find? environmentName <;>
      rw [hx, hx'] at henvironment <;> exact henvironment
  | cell hr own => exact h.giveOne (h.heap.cells hr)
  | environment hr _ _ _ =>
    obtain ⟨hcell, hcell', htable⟩ := h.heap.environment hr
    simp only [hcell, hcell']
    exact h.giveOne (.table htable)

theorem evaluateBinary (hs : c.Alike R framed c') (site : Site) (op : BinaryOp) {left right : Expr}
    (hl : Keeps framed (left.leaves environmentName))
    (hr : Keeps framed (right.leaves environmentName)) :
    Follows host L (s.evaluateBinary c site op left right)
      (s'.evaluateBinary c' site op left right) := by
  have hframe : Frame.Alike L R (.binaryLeft c op site right) (.binaryLeft c' op site right) :=
    .binaryLeft op site hs hr
  by_cases hop : op = .concat
  · subst hop
    exact (h.push hframe (.evaluate hs hl)).follows
  · have hfetch : ∀ (t : State ω σ φ) (d : Scope), t.evaluateBinary d site op left right
        = t.fetch (d.ownCell? left) d left (.binaryLeft d op site right)
          fun o => t.push (.binaryRight op o site) (.evaluate d right) := by
      intro t d
      unfold State.evaluateBinary State.fetch
      cases op <;> first | exact absurd rfl hop | (cases d.ownCell? left <;> rfl)
    rw [hfetch, hfetch]
    exact h.fetch hs (hs.ownCell? left) hl hframe
      (fun o o' ho => (h.push (.binaryRight op site ho) (.evaluate hs hr)).follows) fun v => rfl

theorem evaluateCall (hs : c.Alike R framed c') (tail : Bool) {e : Expr}
    (he : Keeps framed (e.leaves environmentName)) :
    Matches L R (s.evaluateCall c tail e) (s'.evaluateCall c' tail e) := by
  cases e with
  | call line callee args =>
    simp only [Expr.leaves] at he
    obtain ⟨hcallee, hargs⟩ := keeps_and he
    exact h.push (.callee line tail hs hargs) (.evaluate hs hcallee)
  | methodCall line fieldLine object field args =>
    simp only [Expr.leaves] at he
    obtain ⟨hobject, hargs⟩ := keeps_and he
    exact h.push (.receiver line fieldLine field tail hs hargs) (.evaluate hs hobject)
  | _ => exact h.give .nil

theorem evaluate (hs : c.Alike R framed c') {e : Expr}
    (he : Keeps framed (e.leaves environmentName)) :
    Follows host L (s.evaluate c e) (s'.evaluate c' e) := by
  cases e with
  | nil => exact (h.giveOne .nil).follows
  | bool b => exact (h.giveOne (.bool b)).follows
  | number n => exact (h.giveOne (.number n)).follows
  | text bytes => exact (h.giveOne (.text bytes)).follows
  | varargs => exact (h.give hs.varargs).follows
  | function f =>
    have hclosure : Closure.Alike R ⟨f, c.vars, c.chunk⟩ ⟨f, c'.vars, c'.chunk⟩ :=
      ⟨rfl, ⟨framed, hs.vars, by simpa only [Expr.leaves] using he⟩, hs.chunk⟩
    have hg : R.Grows (R.withFunction s.heap.functions.size s'.heap.functions.size) :=
      Matching.grows_withFunction
    have hheap := h.heap.newFunction hclosure
    have halike := h.setHeap hg hheap
    exact Matches.follows ⟨⟨hheap, halike.world, halike.stack, h.level, h.depth⟩,
      .values (.single (.function Matching.function_withFunction))⟩
  | name line n => exact (h.readName hs line n).follows
  | index line object key =>
    simp only [Expr.leaves] at he
    obtain ⟨hobject, hkey⟩ := keeps_and he
    have hfetch : ∀ (t : State ω σ φ) (d : Scope), t.evaluate d (.index line object key)
        = t.fetch (d.ownCell? object) d object (.indexed d line key)
          fun o => t.push (.indexKey o (d.site line)) (.evaluate d key) := by
      intro t d
      cases hcell : d.ownCell? object <;> simp only [State.evaluate, State.fetch, hcell]
    rw [hfetch, hfetch]
    refine h.fetch hs (hs.ownCell? object) hobject (.indexed line hs hkey) (fun o o' ho => ?_) fun v => rfl
    rw [hs.site_eq]
    exact (h.push (.indexKey _ ho) (.evaluate hs hkey)).follows
  | call line callee args => exact (h.evaluateCall hs false he).follows
  | methodCall line fieldLine object field args => exact (h.evaluateCall hs false he).follows
  | unary line op operand =>
    simp only [Expr.leaves] at he
    simp only [State.evaluate, hs.site_eq]
    exact (h.push (.unary op _) (.evaluate hs he)).follows
  | binary line op left right =>
    simp only [Expr.leaves] at he
    obtain ⟨hleft, hright⟩ := keeps_and he
    simp only [State.evaluate, hs.site_eq]
    exact h.evaluateBinary hs _ op hleft hright
  | and left right =>
    simp only [Expr.leaves] at he
    obtain ⟨hleft, hright⟩ := keeps_and he
    exact (h.push (.and hs hright) (.evaluate hs hleft)).follows
  | or left right =>
    simp only [Expr.leaves] at he
    obtain ⟨hleft, hright⟩ := keeps_and he
    exact (h.push (.or hs hright) (.evaluate hs hleft)).follows
  | table fields =>
    simp only [Expr.leaves] at he
    exact (h.go (.construct hs ⟨.empty, rfl, .nil⟩ he)).follows
  | single e =>
    simp only [Expr.leaves] at he
    exact (h.push .single (.evaluate hs he)).follows

theorem evaluateAll (hs : c.Alike R framed c') {done done' : List Value}
    (hd : ValuesAlike R done done') {es : List Expr}
    (he : Keeps framed (Expr.leaveAll environmentName es)) :
    Matches L R (s.evaluateAll c done es) (s'.evaluateAll c' done' es) := by
  cases es with
  | nil => exact h.give hd.reverse
  | cons e rest =>
    simp only [Expr.leaveAll] at he
    obtain ⟨hfirst, hrest⟩ := keeps_and he
    cases rest with
    | nil => exact h.push (.lastItem hd) (.evaluate hs hfirst)
    | cons e' rest => exact h.push (.item hs hd hrest) (.evaluate hs hfirst)

/-! ## Tables -/

section Construction

variable {k k' : Construction}

theorem finishTable (hk : k.Alike R k') :
    Follows host L (s.finishTable k) (s'.finishTable k') := by
  have hg : R.Grows (R.withTable s.heap.tables.size s'.heap.tables.size) :=
    Matching.grows_withTable
  have hheap := h.heap.newTable (hk.flush h.heap.faithful).table
  have halike := h.setHeap hg hheap
  exact Matches.follows ⟨⟨hheap, halike.world, halike.stack, h.level, h.depth⟩,
    .values (.single (.table Matching.table_withTable))⟩

theorem construct (hs : c.Alike R framed c') (hk : k.Alike R k') {fields : List Field}
    (hf : Keeps framed (Field.leaveAll environmentName fields)) :
    Follows host L (s.construct c k fields) (s'.construct c' k' fields) := by
  have hsettle := hk.settle h.heap.faithful
  cases fields with
  | nil => exact h.finishTable hk
  | cons field rest =>
    simp only [Field.leaveAll] at hf
    obtain ⟨hfield, hrest⟩ := keeps_and hf
    cases field with
    | item e =>
      simp only [Field.leaves] at hfield
      cases rest with
      | nil => exact (h.push (.fieldLast hsettle) (.evaluate hs hfield)).follows
      | cons field' rest => exact (h.push (.fieldItem hs hsettle hrest) (.evaluate hs hfield)).follows
    | entry line key value =>
      simp only [Field.leaves] at hfield
      obtain ⟨hkey, hvalue⟩ := keeps_and hfield
      have hfetch : ∀ (t : State ω σ φ) (d : Scope) (j : Construction),
          t.construct d j (.entry line key value :: rest)
            = t.fetch (d.ownCell? key) d key (.fieldKey d j.settle (d.site line) value rest)
              fun o => t.constructEntry d j.settle (d.site line) o value rest := by
        intro t d j
        cases hcell : d.ownCell? key <;> simp only [State.construct, State.fetch, hcell]
      rw [hfetch, hfetch, hs.site_eq]
      refine h.fetch hs (hs.ownCell? key) hkey (.fieldKey _ hs hsettle hvalue hrest) (fun o o' ho => ?_) fun v => rfl
      exact (h.push (.fieldValue _ hs hsettle ho hrest) (.evaluate hs hvalue)).follows

theorem constructed (hs : c.Alike R framed c') (hk : k.Alike R k') (site : Site)
    {key key' value value' : Value} (hkey : key.Alike R key') (hvalue : value.Alike R value')
    {rest : List Field} (hr : Keeps framed (Field.leaveAll environmentName rest)) :
    Matches L R (s.constructed c k site key value rest)
      (s'.constructed c' k' site key' value' rest) := by
  unfold State.constructed
  rw [hkey.badKey?_eq]
  split
  · exact h.raiseText _ _
  · exact h.go (.construct hs ⟨hk.table.set h.heap.faithful hkey hvalue, hk.placed, hk.pending⟩ hr)

end Construction

end Alike

end State

end ScriptedViews.Script

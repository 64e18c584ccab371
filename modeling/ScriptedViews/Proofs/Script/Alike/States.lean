import ScriptedViews.Proofs.Script.Alike.Heaps
import ScriptedViews.Proofs.Script.Reaches

set_option autoImplicit false

/-! # States that are alike

Two states of the machine are alike if they differ in nothing but where things are on the heap, and
in how code is framed. Code in a framed scope must leave the environment alone: a step looks at the
environment earlier in one frame than in the other. -/

namespace ScriptedViews.Script

variable {ω σ φ : Type} {L : Likeness ω σ φ} {R S : Matching}

/-! ## What is on its way -/

/-- Whether two operands have values that are alike, now and when the operator is applied. An
    environment may have been read already. -/
inductive Operand.Alike (R : Matching) : Operand → Operand → Prop where
  | value {v v' : Value} (h : v.Alike R v') : Alike R (.value v) (.value v')
  | cell {a b : Nat} (h : R.cell a b) : Alike R (.variable a) (.variable b)
  | environment {e e' : Nat × Nat} (h : R.environment e e') :
      Alike R (.variable e.1) (.variable e'.1)
  | read {e e' : Nat × Nat} (h : R.environment e e') : Alike R (.variable e.1) (.value (.table e'.2))

/-- Whether two targets are assigned to alike. No environment is a target. -/
inductive Target.Alike (R : Matching) : Target → Target → Prop where
  | cell {a b : Nat} (h : R.cell a b) : Alike R (.variable a) (.variable b)
  | field (site : Site) {object object' key key' : Operand} (ho : object.Alike R object')
      (hk : key.Alike R key') : Alike R (.field site object key) (.field site object' key')

/-- Whether two targets are alike, and what is assigned to them. -/
def AssignedAlike (R : Matching) (p p' : Target × Value) : Prop :=
  p.1.Alike R p'.1 ∧ p.2.Alike R p'.2

/-- Whether two tables under construction are alike. -/
structure Construction.Alike (R : Matching) (c c' : Construction) : Prop where
  table : c.table.Alike R c'.table
  placed : c.placed = c'.placed
  pending : ValuesAlike R c.pending c'.pending

/-- Whether two phases of sorting compare alike. -/
inductive SortPhase.Alike (R : Matching) : SortPhase → SortPhase → Prop where
  | ends : Alike R .ends .ends
  | middleFirst (middle : Nat) : Alike R (.middleFirst middle) (.middleFirst middle)
  | lastMiddle (middle : Nat) : Alike R (.lastMiddle middle) (.lastMiddle middle)
  | left (i j : Nat) {pivot pivot' : Value} (h : pivot.Alike R pivot') :
      Alike R (.left i j pivot) (.left i j pivot')
  | right (i j : Nat) {pivot pivot' : Value} (h : pivot.Alike R pivot') :
      Alike R (.right i j pivot) (.right i j pivot')

/-- Whether two tables are sorted alike. -/
structure Sorting.Alike (R : Matching) (t t' : Sorting) : Prop where
  table : R.table t.table t'.table
  order : Option.Rel (Value.Alike R) t.order t'.order
  first : t.first = t'.first
  last : t.last = t'.last
  later : t.later = t'.later
  phase : t.phase.Alike R t'.phase

/-- Whether two templates are filled in alike. -/
structure Format.Template.Alike (R : Matching) (t t' : Format.Template) : Prop where
  callee : t.args.callee = t'.args.callee
  values : ValuesAlike R t.args.values t'.args.values
  next : t.next = t'.next
  done : t.done = t'.done
  rest : t.rest = t'.rest

/-! ## Frames -/

/-- Whether code in a scope leaves the environment alone if it has to. -/
abbrev Keeps (framed leaves : Bool) : Prop :=
  framed = true → leaves = true

/-- Whether some targets leave the environment alone. -/
def Expr.targetsLeave (n : Name) (targets : List Expr) : Bool :=
  targets.all (fun t => !t.isVariable n) && Expr.leaveAll n targets

/-- Whether two frames do the same with outcomes that are alike. -/
inductive Frame.Alike (L : Likeness ω σ φ) (R : Matching) : Frame φ → Frame φ → Prop where
  | item {framed : Bool} {s s' : Scope} {done done' : List Value} {rest : List Expr}
      (hs : s.Alike R framed s') (hd : ValuesAlike R done done')
      (hc : Keeps framed (Expr.leaveAll environmentName rest)) :
      Alike L R (.item s done rest) (.item s' done' rest)
  | lastItem {done done' : List Value} (hd : ValuesAlike R done done') :
      Alike L R (.lastItem done) (.lastItem done')
  | single : Alike L R .single .single
  | callee {framed : Bool} {s s' : Scope} (line : Nat) {args : List Expr} (tail : Bool)
      (hs : s.Alike R framed s') (hc : Keeps framed (Expr.leaveAll environmentName args)) :
      Alike L R (.callee s line args tail) (.callee s' line args tail)
  | receiver {framed : Bool} {s s' : Scope} (line fieldLine : Nat) (field : Name)
      {args : List Expr} (tail : Bool) (hs : s.Alike R framed s')
      (hc : Keeps framed (Expr.leaveAll environmentName args)) :
      Alike L R (.receiver s line fieldLine field args tail)
        (.receiver s' line fieldLine field args tail)
  | methodOf {framed : Bool} {v v' : Value} {s s' : Scope} (line : Nat) {args : List Expr}
      (tail : Bool) (hv : v.Alike R v') (hs : s.Alike R framed s')
      (hc : Keeps framed (Expr.leaveAll environmentName args)) :
      Alike L R (.methodOf v s line args tail) (.methodOf v' s' line args tail)
  | arguments {v v' : Value} {lead lead' : List Value} (site : Site) (tail : Bool)
      (hv : v.Alike R v') (hl : ValuesAlike R lead lead') :
      Alike L R (.arguments v lead site tail) (.arguments v' lead' site tail)
  | indexed {framed : Bool} {s s' : Scope} (line : Nat) {key : Expr} (hs : s.Alike R framed s')
      (hc : Keeps framed (key.leaves environmentName)) :
      Alike L R (.indexed s line key) (.indexed s' line key)
  | indexKey {o o' : Operand} (site : Site) (ho : o.Alike R o') :
      Alike L R (.indexKey o site) (.indexKey o' site)
  | unary (op : UnaryOp) (site : Site) : Alike L R (.unary op site) (.unary op site)
  | binaryLeft {framed : Bool} {s s' : Scope} (op : BinaryOp) (site : Site) {right : Expr}
      (hs : s.Alike R framed s') (hc : Keeps framed (right.leaves environmentName)) :
      Alike L R (.binaryLeft s op site right) (.binaryLeft s' op site right)
  | binaryRight (op : BinaryOp) {o o' : Operand} (site : Site) (ho : o.Alike R o') :
      Alike L R (.binaryRight op o site) (.binaryRight op o' site)
  | and {framed : Bool} {s s' : Scope} {right : Expr} (hs : s.Alike R framed s')
      (hc : Keeps framed (right.leaves environmentName)) : Alike L R (.and s right) (.and s' right)
  | or {framed : Bool} {s s' : Scope} {right : Expr} (hs : s.Alike R framed s')
      (hc : Keeps framed (right.leaves environmentName)) : Alike L R (.or s right) (.or s' right)
  | truth (negated : Bool) : Alike L R (.truth negated) (.truth negated)
  | atMost (count : Nat) : Alike L R (.atMost count) (.atMost count)
  | fieldItem {framed : Bool} {s s' : Scope} {c c' : Construction} {rest : List Field}
      (hs : s.Alike R framed s') (hk : c.Alike R c')
      (hc : Keeps framed (Field.leaveAll environmentName rest)) :
      Alike L R (.fieldItem s c rest) (.fieldItem s' c' rest)
  | fieldLast {c c' : Construction} (hk : c.Alike R c') : Alike L R (.fieldLast c) (.fieldLast c')
  | fieldKey {framed : Bool} {s s' : Scope} {c c' : Construction} (site : Site) {value : Expr}
      {rest : List Field} (hs : s.Alike R framed s') (hk : c.Alike R c')
      (hv : Keeps framed (value.leaves environmentName))
      (hc : Keeps framed (Field.leaveAll environmentName rest)) :
      Alike L R (.fieldKey s c site value rest) (.fieldKey s' c' site value rest)
  | fieldValue {framed : Bool} {s s' : Scope} {c c' : Construction} (site : Site) {o o' : Operand}
      {rest : List Field} (hs : s.Alike R framed s') (hk : c.Alike R c') (ho : o.Alike R o')
      (hc : Keeps framed (Field.leaveAll environmentName rest)) :
      Alike L R (.fieldValue s c site o rest) (.fieldValue s' c' site o' rest)
  | body {framed : Bool} {s s' : Scope} {rest : List Stmt} (hs : s.Alike R framed s')
      (hc : Keeps framed (Stmt.leaveAll environmentName rest)) :
      Alike L R (.body s rest) (.body s' rest)
  | declare {framed : Bool} {s s' : Scope} (names : List Name) {rest : List Stmt}
      (hs : s.Alike R framed s') (hc : Keeps framed (Stmt.leaveAll environmentName rest)) :
      Alike L R (.declare s names rest) (.declare s' names rest)
  | targetObject {framed : Bool} {s s' : Scope} (line : Nat) {key : Expr}
      {done done' : List Target} {rest values : List Expr} (hs : s.Alike R framed s')
      (hd : List.Forall₂ (Target.Alike R) done done')
      (hk : Keeps framed (key.leaves environmentName))
      (hr : Keeps framed (Expr.targetsLeave environmentName rest))
      (hc : Keeps framed (Expr.leaveAll environmentName values)) :
      Alike L R (.targetObject s line key done rest values)
        (.targetObject s' line key done' rest values)
  | targetKey {framed : Bool} {s s' : Scope} (line : Nat) {o o' : Operand}
      {done done' : List Target} {rest values : List Expr} (hs : s.Alike R framed s')
      (ho : o.Alike R o') (hd : List.Forall₂ (Target.Alike R) done done')
      (hr : Keeps framed (Expr.targetsLeave environmentName rest))
      (hc : Keeps framed (Expr.leaveAll environmentName values)) :
      Alike L R (.targetKey s line o done rest values) (.targetKey s' line o' done' rest values)
  | assignment {targets targets' : List Target}
      (h : List.Forall₂ (Target.Alike R) targets targets') :
      Alike L R (.assignment targets) (.assignment targets')
  | assignRest {rest rest' : List (Target × Value)}
      (h : List.Forall₂ (AssignedAlike R) rest rest') :
      Alike L R (.assignRest rest) (.assignRest rest')
  | discard : Alike L R .discard .discard
  | cond {framed : Bool} {s s' : Scope} {consequent alternative : List Stmt}
      (hs : s.Alike R framed s') (hc : Keeps framed (Stmt.leaveAll environmentName consequent))
      (ha : Keeps framed (Stmt.leaveAll environmentName alternative)) :
      Alike L R (.cond s consequent alternative) (.cond s' consequent alternative)
  | whileTest {framed : Bool} {s s' : Scope} {condition : Expr} {body : List Stmt}
      (hs : s.Alike R framed s') (hc : Keeps framed (condition.leaves environmentName))
      (hb : Keeps framed (Stmt.leaveAll environmentName body)) :
      Alike L R (.whileTest s condition body) (.whileTest s' condition body)
  | whileBody {framed : Bool} {s s' : Scope} {condition : Expr} {body : List Stmt}
      (hs : s.Alike R framed s') (hc : Keeps framed (condition.leaves environmentName))
      (hb : Keeps framed (Stmt.leaveAll environmentName body)) :
      Alike L R (.whileBody s condition body) (.whileBody s' condition body)
  | repeatBody {framed : Bool} {s s' : Scope} {body : List Stmt} (hs : s.Alike R framed s')
      (hb : Keeps framed (Stmt.leaveAll environmentName body)) :
      Alike L R (.repeatBody s body) (.repeatBody s' body)
  | untilTest : Alike L R .untilTest .untilTest
  | numericStart {framed : Bool} {s s' : Scope} (site : Site) (n : Name) {body : List Stmt}
      (hs : s.Alike R framed s') (hb : Keeps framed (Stmt.leaveAll environmentName body)) :
      Alike L R (.numericStart s site n body) (.numericStart s' site n body)
  | intBody {framed : Bool} {s s' : Scope} (n : Name) {body : List Stmt} (i step : Int64)
      (more : Nat) (hs : s.Alike R framed s')
      (hb : Keeps framed (Stmt.leaveAll environmentName body)) :
      Alike L R (.intBody s n body i step more) (.intBody s' n body i step more)
  | floatBody {framed : Bool} {s s' : Scope} (n : Name) {body : List Stmt} (x limit step : Float)
      (hs : s.Alike R framed s') (hb : Keeps framed (Stmt.leaveAll environmentName body)) :
      Alike L R (.floatBody s n body x limit step) (.floatBody s' n body x limit step)
  | genericStart {framed : Bool} {s s' : Scope} (site : Site) (names : List Name)
      {body : List Stmt} (hs : s.Alike R framed s')
      (hb : Keeps framed (Stmt.leaveAll environmentName body)) :
      Alike L R (.genericStart s site names body) (.genericStart s' site names body)
  | genericNext {framed : Bool} {s s' : Scope} (site : Site) (names : List Name)
      {body : List Stmt} {iterator iterator' state state' : Value} (hs : s.Alike R framed s')
      (hb : Keeps framed (Stmt.leaveAll environmentName body)) (hi : iterator.Alike R iterator')
      (ht : state.Alike R state') :
      Alike L R (.genericNext s site names body iterator state)
        (.genericNext s' site names body iterator' state')
  | genericBody {framed : Bool} {s s' : Scope} (site : Site) (names : List Name)
      {body : List Stmt} {iterator iterator' state state' control control' : Value}
      (hs : s.Alike R framed s') (hb : Keeps framed (Stmt.leaveAll environmentName body))
      (hi : iterator.Alike R iterator') (ht : state.Alike R state')
      (hk : control.Alike R control') :
      Alike L R (.genericBody s site names body iterator state control)
        (.genericBody s' site names body iterator' state' control')
  | results : Alike L R .results .results
  | activation (site : Option Site) : Alike L R (.activation site) (.activation site)
  | native : Alike L R .native .native
  | guarded (site : Option Site) : Alike L R (.guarded site) (.guarded site)
  | host {f f' : φ} (h : L.frame R f f') : Alike L R (.host f) (.host f')
  | describing : Alike L R .describing .describing
  | textOf (site : Option Site) : Alike L R (.textOf site) (.textOf site)
  | iterated (i : Int64) : Alike L R (.iterated i) (.iterated i)
  | formatting (d : Format.Directive) {t t' : Format.Template} (site : Option Site)
      (h : t.Alike R t') : Alike L R (.formatting d t site) (.formatting d t' site)
  | sorting {t t' : Sorting} (site : Option Site) (h : t.Alike R t') :
      Alike L R (.sorting t site) (.sorting t' site)
  | chunkPiece (source name : Bytes) {reader reader' environment environment' : Value}
      (hr : reader.Alike R reader') (he : environment.Alike R environment') :
      Alike L R (.chunkPiece source reader name environment)
        (.chunkPiece source reader' name environment')

/-! ## States -/

/-- Whether two machines are to do the same next. -/
inductive Control.Alike (R : Matching) : Control → Control → Prop where
  | evaluate {framed : Bool} {s s' : Scope} {e : Expr} (hs : s.Alike R framed s')
      (hc : Keeps framed (e.leaves environmentName)) : Alike R (.evaluate s e) (.evaluate s' e)
  | evaluateAll {framed : Bool} {s s' : Scope} {done done' : List Value} {es : List Expr}
      (hs : s.Alike R framed s') (hd : ValuesAlike R done done')
      (hc : Keeps framed (Expr.leaveAll environmentName es)) :
      Alike R (.evaluateAll s done es) (.evaluateAll s' done' es)
  | construct {framed : Bool} {s s' : Scope} {c c' : Construction} {fields : List Field}
      (hs : s.Alike R framed s') (hk : c.Alike R c')
      (hc : Keeps framed (Field.leaveAll environmentName fields)) :
      Alike R (.construct s c fields) (.construct s' c' fields)
  | execute {framed : Bool} {s s' : Scope} {body : List Stmt} (hs : s.Alike R framed s')
      (hc : Keeps framed (Stmt.leaveAll environmentName body)) :
      Alike R (.execute s body) (.execute s' body)
  | resolve {framed : Bool} {s s' : Scope} (line : Nat) {done done' : List Target}
      {rest values : List Expr} (hs : s.Alike R framed s')
      (hd : List.Forall₂ (Target.Alike R) done done')
      (hr : Keeps framed (Expr.targetsLeave environmentName rest))
      (hc : Keeps framed (Expr.leaveAll environmentName values)) :
      Alike R (.resolve s line done rest values) (.resolve s' line done' rest values)
  | assignAll {pairs pairs' : List (Target × Value)}
      (h : List.Forall₂ (AssignedAlike R) pairs pairs') :
      Alike R (.assignAll pairs) (.assignAll pairs')
  | invoke {f f' : Value} {args args' : List Value} (site : Option Site) (hf : f.Alike R f')
      (ha : ValuesAlike R args args') : Alike R (.invoke f args site) (.invoke f' args' site)
  | index {o o' k k' : Value} (site : Option Site) (hops : Nat) (ho : o.Alike R o')
      (hk : k.Alike R k') : Alike R (.index o k site hops) (.index o' k' site hops)
  | store {o o' k k' v v' : Value} (site : Option Site) (hops : Nat) (ho : o.Alike R o')
      (hk : k.Alike R k') (hv : v.Alike R v') :
      Alike R (.store o k v site hops) (.store o' k' v' site hops)
  | sort {t t' : Sorting} (site : Option Site) (h : t.Alike R t') :
      Alike R (.sort t site) (.sort t' site)
  | values {vs vs' : List Value} (h : ValuesAlike R vs vs') : Alike R (.values vs) (.values vs')
  | finished : Alike R .finished .finished
  | leaving : Alike R .leaving .leaving
  | returning {vs vs' : List Value} (h : ValuesAlike R vs vs') :
      Alike R (.returning vs) (.returning vs')
  | raised {v v' : Value} (h : v.Alike R v') : Alike R (.raised v) (.raised v')
  | failed (cause : RaisedError) : Alike R (.failed cause) (.failed cause)

/-! ## Matching more -/

section Mono

variable (hg : R.Widens S)

include hg

theorem Operand.Alike.mono {o o' : Operand} (h : o.Alike R o') : o.Alike S o' := by
  cases h with
  | value h => exact .value (h.mono hg)
  | cell h => exact .cell (hg.cell h)
  | environment h => exact .environment (hg.environment h)
  | read h => exact .read (hg.environment h)

theorem Target.Alike.mono {t t' : Target} (h : t.Alike R t') : t.Alike S t' := by
  cases h with
  | cell h => exact .cell (hg.cell h)
  | field site ho hk => exact .field site (ho.mono hg) (hk.mono hg)

theorem targetsAlike_mono {ts ts' : List Target} (h : List.Forall₂ (Target.Alike R) ts ts') :
    List.Forall₂ (Target.Alike S) ts ts' :=
  h.imp fun _ _ ht => ht.mono hg

theorem assignedAlike_mono {ps ps' : List (Target × Value)}
    (h : List.Forall₂ (AssignedAlike R) ps ps') : List.Forall₂ (AssignedAlike S) ps ps' :=
  h.imp fun _ _ hp => ⟨hp.1.mono hg, hp.2.mono hg⟩

theorem Construction.Alike.mono {c c' : Construction} (h : c.Alike R c') : c.Alike S c' :=
  ⟨h.table.mono hg, h.placed, h.pending.mono hg⟩

theorem SortPhase.Alike.mono {p p' : SortPhase} (h : p.Alike R p') : p.Alike S p' := by
  cases h with
  | left i j h => exact .left i j (h.mono hg)
  | right i j h => exact .right i j (h.mono hg)
  | _ => constructor

theorem Sorting.Alike.mono {t t' : Sorting} (h : t.Alike R t') : t.Alike S t' :=
  ⟨hg.table h.table, optionRel_mono (fun _ _ hv => hv.mono hg) h.order, h.first, h.last, h.later,
    h.phase.mono hg⟩

theorem Format.Template.Alike.mono {t t' : Format.Template} (h : t.Alike R t') : t.Alike S t' :=
  ⟨h.callee, h.values.mono hg, h.next, h.done, h.rest⟩

theorem Frame.Alike.mono {f f' : Frame φ} (h : f.Alike L R f') : f.Alike L S f' := by
  cases h <;> constructor <;>
    first
    | assumption
    | exact Value.Alike.mono hg (by assumption)
    | exact ValuesAlike.mono hg (by assumption)
    | exact Scope.Alike.mono hg (by assumption)
    | exact Operand.Alike.mono hg (by assumption)
    | exact Construction.Alike.mono hg (by assumption)
    | exact targetsAlike_mono hg (by assumption)
    | exact assignedAlike_mono hg (by assumption)
    | exact Sorting.Alike.mono hg (by assumption)
    | exact Format.Template.Alike.mono hg (by assumption)
    | exact L.frame_mono hg (by assumption)

theorem stackAlike_mono {K K' : List (Frame φ)} (h : List.Forall₂ (Frame.Alike L R) K K') :
    List.Forall₂ (Frame.Alike L S) K K' :=
  h.imp fun _ _ hf => hf.mono hg

end Mono

/-- Whether two states are alike, apart from what is to be done next. -/
structure State.Alike (L : Likeness ω σ φ) (R : Matching) (s s' : State ω σ φ) : Prop where
  heap : Heap.Alike L R s.heap s'.heap
  world : L.world R s.world s'.world
  stack : List.Forall₂ (Frame.Alike L R) s.stack s'.stack
  level : s.level = s'.level
  depth : s.depth = s'.depth

/-- Whether two states are alike in everything. -/
structure State.Matches (L : Likeness ω σ φ) (R : Matching) (s s' : State ω σ φ) : Prop where
  rest : State.Alike L R s s'
  control : s.control.Alike R s'.control

/-- Whether two machines get to states that are alike. -/
def State.Follows (host : Host ω σ φ) (L : Likeness ω σ φ) (s s' : State ω σ φ) : Prop :=
  ∃ n n' R, State.Matches L R (s.stepMany host n) (s'.stepMany host n')

end ScriptedViews.Script

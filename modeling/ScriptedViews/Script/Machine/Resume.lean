import ScriptedViews.Script.Machine.Statement

set_option autoImplicit false

/-! # Outcomes

What a frame makes of the outcome of what ran above it: of values, of the end of a statement, and of
a loop, a function or everything being left. -/

namespace ScriptedViews.Script

namespace State

variable {ω σ φ : Type}

/-! ## Values -/

/-- Go on with the values of what a frame of an expression waits for. -/
def resumeExpression (host : Host ω σ φ) (s : State ω σ φ) (vs : List Value) (f : Frame φ) :
    State ω σ φ :=
  let v := firstValue vs
  match f with
  | .item scope done rest => s.go (.evaluateAll scope (v :: done) rest)
  | .lastItem done => s.give (done.reverse ++ vs)
  | .single => s.giveOne v
  | .callee scope line args tail =>
    s.push (.arguments v [] (scope.site line) tail) (.evaluateAll scope [] args)
  | .receiver scope line fieldLine field args tail =>
    s.push (.methodOf v scope line args tail)
      (.index v (.text field) (some (scope.site fieldLine)) 0)
  | .methodOf receiver scope line args tail =>
    s.push (.arguments v [receiver] (scope.site line) tail) (.evaluateAll scope [] args)
  | .arguments callee lead site tail =>
    if tail then s.invokeLast host callee (lead ++ vs) site
    else s.go (.invoke callee (lead ++ vs) (some site))
  | .indexed scope line key =>
    s.push (.indexKey (.value v) (scope.site line)) (.evaluate scope key)
  | .indexKey object site => s.go (.index (s.heap.operand object) v (some site) 0)
  | .unary op site => s.operateOn op v (some site)
  | .binaryLeft scope op site right =>
    s.push (.binaryRight op (.value v) site) (.evaluate scope right)
  | .binaryRight op left site => s.operate op (s.heap.operand left) v (some site)
  | .and scope right => if v.isTrue then s.push .single (.evaluate scope right) else s.giveOne v
  | .or scope right => if v.isTrue then s.giveOne v else s.push .single (.evaluate scope right)
  | .truth negated => s.giveOne (.bool (v.isTrue != negated))
  | .atMost count => s.give (adjust count vs)
  | .fieldItem scope c rest => s.go (.construct scope (c.add v) rest)
  | .fieldLast c => s.finishTable (vs.foldl Construction.add c)
  | .fieldKey scope c site value rest => s.constructEntry scope c site (.value v) value rest
  | .fieldValue scope c site key rest => s.constructed scope c site (s.heap.operand key) v rest
  | _ => s.give vs

/-- Go on with the values of what a frame of a statement waits for. -/
def resumeStatement (s : State ω σ φ) (vs : List Value) (f : Frame φ) : State ω σ φ :=
  let v := firstValue vs
  match f with
  | .declare scope names rest => s.executeWith scope names vs rest
  | .targetObject scope line key done rest values =>
    s.resolveKey scope line (.value v) key done rest values
  | .targetKey scope line object done rest values =>
    s.go (.resolve scope line (.field (scope.site line) object (.value v) :: done) rest values)
  | .assignment targets => s.assign targets vs
  | .cond scope consequent alternative =>
    s.go (.execute scope (if v.isTrue then consequent else alternative))
  | .whileTest scope condition body =>
    if v.isTrue then s.push (.whileBody scope condition body) (.execute scope body)
    else s.go .finished
  | .untilTest => s.go (if v.isTrue then .leaving else .finished)
  | .numericStart scope site n body => s.startNumeric scope site n body vs
  | .genericStart scope site names body =>
    s.iterate scope site names body (vs.getD 0 .nil) (vs.getD 1 .nil) (vs.getD 2 .nil)
  | .genericNext scope site names body iterator state =>
    s.runGeneric scope site names body iterator state vs
  | .results => s.go (.returning vs)
  | _ => s.go .finished

/-- The text that the host is told about an error. -/
def errorText (v : Value) : String :=
  match v.toText? with
  | some bytes => Text.decodeLossy ⟨bytes.toArray⟩
  | none => ""

/-- Go on with the values of what a frame of a call waits for. -/
def resumeCall (host : Host ω σ φ) (s : State ω σ φ) (vs : List Value) (f : Frame φ) :
    State ω σ φ :=
  let v := firstValue vs
  match f with
  | .native => s.leave (.values vs)
  | .guarded _ => s.leave (.values (.bool true :: vs))
  | .host f =>
    let s := s.leave .finished
    s.turn (host.resume f (.ok vs) s.level s.heap s.world)
  | .describing => s.go (.failed (.runtime (errorText v)))
  | .textOf site =>
    match v.toText? with
    | some bytes => s.giveOne (.text bytes)
    | none => s.raiseText site "'__tostring' must return a string"
  | .iterated i =>
    match v with
    | .nil => s.giveOne .nil
    | v => s.give [.int i, v]
  | .formatting d t site =>
    match v with
    | .text bytes => s.continueFormat (t.answer d bytes) site
    | _ => s.give []
  | .sorting task site => s.sortCompared task v.isTrue site
  | .chunkPiece source reader name environment => s.addPiece source reader name environment v
  | _ => s.give vs

/-- Go on with the values of what a frame waits for. -/
def resumeValues (host : Host ω σ φ) (s : State ω σ φ) (vs : List Value) (f : Frame φ) :
    State ω σ φ :=
  match f with
  | .declare .. | .targetObject .. | .targetKey .. | .assignment .. | .cond .. | .whileTest ..
  | .untilTest | .numericStart .. | .genericStart .. | .genericNext .. | .results
  | .discard => s.resumeStatement vs f
  | .native | .guarded _ | .host _ | .describing | .textOf _ | .iterated _ | .formatting ..
  | .sorting .. | .chunkPiece .. => s.resumeCall host vs f
  | f => s.resumeExpression host vs f

/-! ## Ends and exits -/

/-- Go on after a statement has run. -/
def resumeFinished (s : State ω σ φ) (f : Frame φ) : State ω σ φ :=
  match f with
  | .body scope rest => s.go (.execute scope rest)
  | .assignRest rest => s.go (.assignAll rest)
  | .whileBody scope condition body =>
    s.push (.whileTest scope condition body) (.evaluate scope condition)
  | .repeatBody scope body => s.push f (.execute scope body)
  | .intBody scope n body i step more => s.nextInt scope n body i step more
  | .floatBody scope n body x limit step => s.nextFloat scope n body x limit step
  | .genericBody scope site names body iterator state control =>
    s.iterate scope site names body iterator state control
  | .activation _ => { s with depth := s.depth - 1, control := .values [] }
  | .native => s.leave .finished
  | _ => s.go .finished

/-- Go on as the innermost loop is left. -/
def resumeLeaving (s : State ω σ φ) (f : Frame φ) : State ω σ φ :=
  match f with
  | .whileBody .. | .repeatBody .. | .intBody .. | .floatBody .. | .genericBody .. =>
    s.go .finished
  | .activation _ => { s with depth := s.depth - 1, control := .values [] }
  | _ => s.go .leaving

/-- Go on as the running function is left. -/
def resumeReturning (s : State ω σ φ) (vs : List Value) (f : Frame φ) : State ω σ φ :=
  match f with
  | .activation _ => { s with depth := s.depth - 1, control := .values vs }
  | _ => s.go (.returning vs)

/-- Whether an error is a failure of the host. -/
def failureOf? (h : Heap ω) : Value → Option RaisedError
  | .object ref =>
    match h.objects[ref]? with
    | some (.failure cause) => some cause
    | _ => none
  | _ => none

/-- Go on as an error is on its way. Reading source that is given piece by piece ends with it. A
    failure of the host reaches the host as it was; of any other error the host gets the text. -/
def resumeRaised (host : Host ω σ φ) (s : State ω σ φ) (error : Value) (f : Frame φ) :
    State ω σ φ :=
  match f with
  | .activation _ => { s with depth := s.depth - 1, control := .raised error }
  | .native => s.leave (.raised error)
  | .guarded _ => s.leave (.values [.bool false, error])
  | .chunkPiece .. => s.give [.nil, error]
  | .host k =>
    match failureOf? s.heap error with
    | some cause =>
      let s := s.leave .finished
      s.turn (host.resume k (.error cause) s.level s.heap s.world)
    | none =>
      let s := s.push f .finished
      s.push .describing (.invoke (.builtin .tostring) [error] none)
  | _ => s.go (.raised error)

/-- Go on as a failure is on its way to the host. Code gets it as an error. -/
def resumeFailed (host : Host ω σ φ) (s : State ω σ φ) (cause : RaisedError) (f : Frame φ) :
    State ω σ φ :=
  match f with
  | .host k =>
    let s := s.leave .finished
    s.turn (host.resume k (.error cause) s.level s.heap s.world)
  | f =>
    let (error, heap) := s.heap.newObject (.failure cause)
    { s with heap, stack := f :: s.stack, control := .raised error }

end State

end ScriptedViews.Script

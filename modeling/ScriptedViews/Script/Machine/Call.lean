import ScriptedViews.Script.Machine.Operators
import ScriptedViews.Text.Utf8

set_option autoImplicit false

/-! # Calls

Calling functions of the script, of the library and of the host. A function of the script gets a
frame that its results go through; a function of the library that calls back gets one that goes on
with what it called. -/

namespace ScriptedViews.Script

namespace Heap

variable {ω : Type}

/-- Make variables of parameters: the variables around them come behind, and what is left of the
    arguments is given back. -/
def bindParams : List Name → List Value → List (Name × Nat) → Heap ω →
    List (Name × Nat) × List Value × Heap ω
  | [], args, vars, h => (vars, args, h)
  | n :: ns, args, vars, h =>
    let (cell, h) := h.newCell (firstValue args)
    bindParams ns args.tail ((n, cell) :: vars) h

end Heap

/-- Whether a frame belongs to a running function of the script. -/
def Frame.isActivation {φ : Type} : Frame φ → Bool
  | .activation _ => true
  | _ => false

/-- The place that a frame says it was called from. -/
def Frame.caller? {φ : Type} : Frame φ → Option (Option Site)
  | .activation site => some site
  | .guarded site => some site
  | .textOf site => some site
  | .formatting _ _ site => some site
  | .sorting _ site => some site
  | .host _ => some none
  | _ => none

namespace State

variable {ω σ φ : Type}

/-! ## Functions of the script -/

/-- Start a function of the script. -/
def callFunction (s : State ω σ φ) (c : Closure) (args : List Value) (site : Option Site) :
    State ω σ φ :=
  if maxDepth ≤ s.depth then s.raiseText site "stack overflow"
  else
    match c.function with
    | .mk params isVararg body =>
      let (vars, rest, heap) := s.heap.bindParams params args c.vars
      let scope : Scope :=
        { vars, own := params.length, varargs := if isVararg then rest else [], chunk := c.chunk }
      { s with
        heap
        stack := .activation site :: s.stack
        depth := s.depth + 1
        control := .execute scope body }

/-! ## Functions of the host -/

/-- Do what a function of the host wants next. -/
def turn (s : State ω σ φ) (t : Turn ω σ φ) : State ω σ φ :=
  let s := { s with heap := t.heap, world := t.world }
  match t.action with
  | .answer vs => s.give vs
  | .fail cause => s.go (.failed cause)
  | .call callee args f => s.enter (.host f) (.invoke callee args none)
  | .get object key f => s.enter (.host f) (.index object key none 0)

/-! ## Functions of the library -/

/-- The position that level `n` of an error is at: the first is where the error was raised, and each
    running function adds where it was called. -/
def errorSite (s : State ω σ φ) (site : Option Site) (n : Nat) : Option Site :=
  ((site :: s.stack.filterMap Frame.caller?)[n - 1]?).join

/-- Raise an error with a value; a text gets a position if the level is positive. -/
def raiseValue (s : State ω σ φ) (site : Option Site) (v : Value) (n : Int) : State ω σ φ :=
  match v with
  | .text bytes => s.raise (if 0 < n then s.errorSite site n.toNat else none) bytes
  | v => s.go (.raised v)

/-- Raise an error. -/
def callError (s : State ω σ φ) (a : Arguments) (site : Option Site) : State ω σ φ :=
  match a.intOr 1 1 with
  | .error reason => s.raiseText site reason
  | .ok n => s.raiseValue site (a.get 0) n

/-- Raise an error if the first argument does not hold. -/
def callAssert (s : State ω σ φ) (a : Arguments) (site : Option Site) : State ω σ φ :=
  match a.values with
  | [] => match a.any 0 with
    | .error reason => s.raiseText site reason
    | .ok v => s.giveOne v
  | v :: rest =>
    if v.isTrue then s.give a.values
    else s.raiseValue site (rest.headD (.ofString "assertion failed!")) 1

/-- Call a function and make errors results. -/
def callGuarded (s : State ω σ φ) (a : Arguments) (site : Option Site) : State ω σ φ :=
  match a.any 0 with
  | .error reason => s.raiseText site reason
  | .ok f => s.enter (.guarded site) (.invoke f (a.values.drop 1) none)

/-- The text that describes a value which does not do so itself. -/
def describe (s : State ω σ φ) (v : Value) : Bytes :=
  match v with
  | .object ref =>
    match s.heap.objects[ref]? with
    | some (.failure cause) => utf8 cause.message
    | _ => v.describe
  | v => v.describe

/-- The text of a value. -/
def textOf (s : State ω σ φ) (v : Value) (site : Option Site) : State ω σ φ :=
  match s.heap.metafield v "__tostring" with
  | .nil => s.giveOne (.text (s.describe v))
  | handler => s.callFrom (.textOf site) handler [v] none

/-- Go on with a template that has been filled in up to some place. -/
def continueFormat (s : State ω σ φ) (p : Format.Progress) (site : Option Site) : State ω σ φ :=
  match p with
  | .done bytes => s.giveOne (.text bytes)
  | .failed reason => s.raiseText site reason
  | .ask v d t => (s.push (.formatting d t site) .finished).textOf v site

/-- The first step in a walk through a table. -/
def callPairs (s : State ω σ φ) (a : Arguments) (site : Option Site) : State ω σ φ :=
  match a.any 0 with
  | .error reason => s.raiseText site reason
  | .ok v =>
    match s.heap.metafield v "__pairs" with
    | .nil => s.give [.builtin .next, v, .nil]
    | handler => s.callFrom (.atMost 3) handler [v] none

/-- Read source as a function, or give nil and a text that reports why not. -/
def loadSource (s : State ω σ φ) (name source : Bytes) (environment : Value) : State ω σ φ :=
  match s.heap.readChunk s.level name source environment with
  | .ok (f, heap) => { s with heap, control := .values [f] }
  | .error e => s.give [.nil, .text (e.report (chunkTitle name))]

/-- Read source, given as a text or by a function that gives it piece by piece. -/
def callLoad (s : State ω σ φ) (a : Arguments) (site : Option Site) : State ω σ φ :=
  let environment := if 4 ≤ a.values.length then a.get 3 else .table s.heap.globals
  match a.textOr 2 (ascii "bt") with
  | .error reason => s.raiseText site reason
  | .ok mode =>
    match (a.get 0).toText? with
    | some source =>
      match a.textOr 1 source with
      | .error reason => s.raiseText site reason
      | .ok name =>
        if mode.contains 0x74 then s.loadSource name source environment
        else s.give [.nil, .ofString "attempt to load a text chunk"]
    | none =>
      match a.textOr 1 (ascii "=(load)") with
      | .error reason => s.raiseText site reason
      | .ok name =>
        let reader := a.get 0
        if reader.isFunction then s.callFrom (.chunkPiece [] reader name environment) reader [] none
        else match a.mistyped (α := Unit) 0 "function" with
          | .error reason => s.raiseText site reason
          | .ok _ => s.give []

/-- Go on with the pieces of some source. -/
def addPiece (s : State ω σ φ) (source : Bytes) (reader : Value) (name : Bytes)
    (environment piece : Value) : State ω σ φ :=
  match piece with
  | .nil => s.loadSource name source environment
  | piece =>
    match piece.toText? with
    | some [] => s.loadSource name source environment
    | some bytes =>
      s.callFrom (.chunkPiece (source ++ bytes) reader name environment) reader [] none
    | none => s.give [.nil, .ofString "reader function must return a string"]

/-- Start to sort a table. -/
def callSort (s : State ω σ φ) (a : Arguments) (site : Option Site) : State ω σ φ :=
  match a.table 0 with
  | .error reason => s.raiseText site reason
  | .ok ref =>
    let last := (s.heap.table ref).length
    let order := a.get 1
    if last ≤ 1 then s.give []
    else if order.isNil then s.go (.sort { table := ref, order := none, first := 1, last } site)
    else if order.isFunction then
      s.go (.sort { table := ref, order := some order, first := 1, last } site)
    else match a.mistyped (α := Unit) 1 "function" with
      | .error reason => s.raiseText site reason
      | .ok _ => s.give []

/-- Call a function of the library. -/
def callBuiltin (s : State ω σ φ) (a : Arguments) (site : Option Site) : State ω σ φ :=
  match a.run? s.heap with
  | some (.ok (vs, heap)) => { s with heap, control := .values vs }
  | some (.error reason) => s.raiseText site reason
  | none =>
    match a.callee with
    | .assert => s.callAssert a site
    | .error => s.callError a site
    | .pcall => s.callGuarded a site
    | .load => s.callLoad a site
    | .pairs => s.callPairs a site
    | .ipairsStep =>
      match a.int 1 with
      | .error reason => s.raiseText site reason
      | .ok i =>
        let i := Int64.ofInt (i + 1)
        s.push (.iterated i) (.index (a.get 0) (.int i) site 0)
    | .stringFormat => s.continueFormat (Format.start a) site
    | .tableSort => s.callSort a site
    | b =>
      match a.any 0 with
      | .error reason => s.raiseText site reason
      | .ok v =>
        if b = .ipairs then s.give [.builtin .ipairsStep, v, .int 0] else s.textOf v site

/-! ## Any function -/

/-- Call a value. -/
def invoke (host : Host ω σ φ) (s : State ω σ φ) (callee : Value) (args : List Value)
    (site : Option Site) : State ω σ φ :=
  match callee with
  | .function ref =>
    match s.heap.functions[ref]? with
    | some c => s.callFunction c args site
    | none => s.badOperand "call" callee site
  | .builtin b => s.callBuiltin ⟨b, args⟩ site
  | .method name => s.turn (host.invoke name args s.level s.heap s.world)
  | callee =>
    match s.heap.metafield callee "__call" with
    | .nil => s.badOperand "call" callee site
    | handler => s.go (.invoke handler (callee :: args) site)

/-- Call a function whose results are those of the running function, which is left first. A function
    that is not of the script is called by the running one. -/
def invokeLast (host : Host ω σ φ) (s : State ω σ φ) (callee : Value) (args : List Value)
    (site : Site) : State ω σ φ :=
  match callee with
  | .function _ =>
    match s.stack.dropWhile fun f => !f.isActivation with
    | .activation caller :: rest =>
      { s with
        stack := rest
        depth := s.depth - 1
        control := .invoke callee args caller }
    | _ => invoke host s callee args (some site)
  | callee => invoke host s callee args (some site)

end State

end ScriptedViews.Script

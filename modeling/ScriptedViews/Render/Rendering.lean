import ScriptedViews.Render.Bridge

set_option autoImplicit false

/-! # Renders

A render takes a context, gives it the variables that the view's code starts with, runs the code,
and gives the context back, whatever comes of it. The code runs on the script machine and calls the
engine through the bridge; a view that it calls is rendered the same way, one level deeper. So a
render is what the machine knows as a function of the host, and what it keeps while code runs is a
frame of the host. -/

namespace ScriptedViews

open Script (Value Bytes utf8 Turn)

/-- A view to be rendered. -/
structure Request where
  engine : Nat
  view : Nat
  sink : Nat
  /-- How many renders this one is nested in. -/
  depth : Nat := 0
  /-- Values for the attributes of the view, and values that it has no attributes for. -/
  attributes : List (String × Value)
  /-- The source of the function that places the caller's content. -/
  children : Option String := none

/-- What the engine keeps while code runs. -/
inductive Pending where
  /-- Nothing: the outcome is the answer. -/
  | nothing
  /-- A context for a render is being made. -/
  | acquiring (r : Request)
  /-- The code of a render's view is being compiled; before that the runtime had another name. -/
  | preparing (r : Request) (context : Nat) (previous : Option String)
  /-- The code of a render is running. -/
  | running (r : Request) (context : Nat)
  /-- The function that makes texts of values is being looked up. -/
  | lookingUp (sink : Nat) (v : Value)
  /-- A value is being made a text. -/
  | printing (sink : Nat)

/-- The engine's turn on the script machine. -/
abbrev EngineTurn := Turn Bridge World Pending

namespace Render

/-! ## Variables -/

/-- Whether a value takes the place of a default: nil and blank text do not. -/
def overridesDefault : Value → Bool
  | .nil => false
  | .text bytes => !Text.isBlankText (Text.decodeLossy ⟨bytes.toArray⟩)
  | _ => true

/-- Give a context the defaults of a view. -/
def bindDefaults (h : BridgeHeap) (context : Nat) (defaults : OrderedMap String String) :
    BridgeHeap :=
  defaults.foldl (fun h e => h.contextSet context e.1 (.ofString e.2)) h

/-- Give a context the attributes that a view declares. -/
def bindAttributes (h : BridgeHeap) (context : Nat) (defaults : OrderedMap String String)
    (attributes : List (String × Value)) : BridgeHeap :=
  attributes.foldl (fun h e =>
    if defaults.contains e.1 && overridesDefault e.2 then h.contextSet context e.1 e.2 else h) h

/-- Give a context the variables that the code of a view starts with. -/
def bindVariables (h : BridgeHeap) (context : Nat) (defaults : OrderedMap String String)
    (attributes : List (String × Value)) (children : Option String) (bridge : Bridge) :
    BridgeHeap :=
  let h := bindAttributes (bindDefaults h context defaults) context defaults attributes
  let content := match children with
    | some source => Value.ofString source
    | none => .nil
  let h := h.contextSet context Vocabulary.childContentBinding content
  let (object, h) := h.newObject (.host bridge)
  h.contextSet context Vocabulary.bridgeBinding object

/-! ## Ends -/

/-- The engine is done and gives some values. -/
def answer (h : BridgeHeap) (w : World) (vs : List Value) : EngineTurn :=
  ⟨h, w, .answer vs⟩

/-- The engine fails. -/
def failWith (h : BridgeHeap) (w : World) (cause : RaisedError) : EngineTurn :=
  ⟨h, w, .fail cause⟩

/-- The engine fails because a view does. -/
def failView (h : BridgeHeap) (w : World) (e : ViewError) : EngineTurn :=
  failWith h w (.callback (.view e))

/-- The URI of a view. -/
def uriOf (w : World) (view : Nat) : String :=
  match w.views[view]? with
  | some v => v.uri
  | none => ""

/-- The failure of a view whose code has failed. -/
def executionError (w : World) (view : Nat) (cause : RaisedError) : ViewError :=
  .execution (uriOf w view) (.raised cause)

/-- Give the context of a render back and end the render. -/
def finish (r : Request) (context : Nat) (h : BridgeHeap) (w : World)
    (failure : Option RaisedError) : EngineTurn :=
  let h := h.contextClear context
  let w := w.modifyEngine r.engine fun e => { e with pool := e.pool.keep context }
  match failure with
  | none => answer h w []
  | some cause => failView h w (executionError w r.view cause)

/-! ## The course of a render -/

/-- Run the code of a view. -/
def execute (levels : Nat) (r : Request) (context : Nat) (x : Script.Executable) (h : BridgeHeap)
    (w : World) : EngineTurn :=
  match h.callOf levels x context with
  | .error cause => finish r context h w (some cause)
  | .ok (f, args, h) => ⟨h, w, .call f args (.running r context)⟩

/-- Publish the prepared code of a view, unless there is some already, and run it. -/
def executePrepared (levels : Nat) (r : Request) (context : Nat) (x : Script.Executable)
    (h : BridgeHeap) (w : World) : EngineTurn :=
  let w := w.modifyView r.view fun v => v.prepared x
  let x := (w.views[r.view]?.bind View.executable).getD x
  execute levels r context x h w

/-- Compile the code of a view. Meanwhile the source that is being compiled on the runtime has the
    name of the view. -/
def compile (levels : Nat) (r : Request) (context : Nat) (v : View) (h : BridgeHeap) (w : World) :
    EngineTurn :=
  let runtime := w.runtimeOf r.engine
  let previous := w.sourceName? runtime
  let w := w.nameSource runtime (some v.uri)
  match h.readSource (levels + 1) v.uri (Script.functionSource v.source) (.table h.globals) with
  | .error cause => finish r context h (w.nameSource runtime previous) (some cause)
  | .ok (f, h) => ⟨h, w, .call f [] (.preparing r context previous)⟩

/-- Prepare the code of a view and run it. -/
def prepare (levels : Nat) (r : Request) (context : Nat) (compiles : Bool) (v : View)
    (h : BridgeHeap) (w : World) : EngineTurn :=
  match v.executable with
  | some x => execute levels r context x h w
  | none =>
    if compiles then compile levels r context v h w
    else executePrepared levels r context (.interpreted v.uri v.source) h w

/-- Give the context of a render its variables, and run the code of the view. -/
def runIn (levels : Nat) (r : Request) (context : Nat) (compile : Bool) (v : View)
    (h : BridgeHeap) (w : World) : EngineTurn :=
  let bridge : Bridge :=
    { engine := r.engine, view := r.view, context, sink := r.sink, depth := r.depth }
  let h := bindVariables h context v.defaults r.attributes r.children bridge
  prepare levels r context compile v h w

/-- Take a context for a render, or make one. -/
def acquire (levels : Nat) (r : Request) (e : Engine) (v : View) (h : BridgeHeap) (w : World) :
    EngineTurn :=
  match e.pool.take? with
  | some (context, pool) =>
    runIn levels r context e.config.compile v h
      (w.modifyEngine r.engine fun e => { e with pool })
  | none =>
    match h.readChunk levels (utf8 "=context") Script.contextSource (.table h.globals) with
    | .error _ => failView h w (executionError w r.view (.malformed ""))
    | .ok (f, h) => ⟨h, w, .call f [] (.acquiring r)⟩

/-- Start a render. -/
def start (levels : Nat) (r : Request) (h : BridgeHeap) (w : World) : EngineTurn :=
  match w.engines[r.engine]?, w.views[r.view]? with
  | some e, some v =>
    if v.engine ≠ r.engine then failView h w (.instanceMismatch v.uri)
    else if e.config.maxNestingDepth < r.depth then
      failView h w (.nestingTooDeep v.uri e.config.maxNestingDepth)
    else acquire levels r e v h w
  | _, _ => failView h w (.notFound "")

/-- Go on with a render whose context has been made. -/
def acquired (levels : Nat) (r : Request) (vs : List Value) (h : BridgeHeap) (w : World) :
    EngineTurn :=
  match Script.firstValue vs, w.engines[r.engine]?, w.views[r.view]? with
  | .table context, some e, some v => runIn levels r context e.config.compile v h w
  | _, _, _ => failView h w (executionError w r.view .conversion)

/-- Go on with a render whose view's code has been compiled. -/
def compiled (levels : Nat) (r : Request) (context : Nat) (vs : List Value) (h : BridgeHeap)
    (w : World) : EngineTurn :=
  let f := Script.firstValue vs
  if f.isFunction then
    let w := w.modifyRuntime (w.runtimeOf r.engine) fun rt =>
      { rt with compilations := rt.compilations + 1 }
    executePrepared levels r context (.compiled f) h w
  else finish r context h w (some .conversion)

/-! ## Methods -/

/-- Write a text to a sink. -/
def write (sink : Nat) (vs : List Value) (h : BridgeHeap) (w : World) : EngineTurn :=
  match (Script.firstValue vs).toText? with
  | none => failWith h w (.callback .conversion)
  | some bytes =>
    match w.sinks[sink]?.bind fun s => s.write? bytes with
    | some s => answer h { w with sinks := w.sinks.setIfInBounds sink s } []
    | none => failWith h w (.callback (.external "sink full"))

/-- Make a text of the value that is to be written. -/
def printWith (sink : Nat) (v : Value) (vs : List Value) (h : BridgeHeap) (w : World) :
    EngineTurn :=
  let f := Script.firstValue vs
  if f.isFunction then ⟨h, w, .call f [v] (.printing sink)⟩
  else failWith h w (.callback .conversion)

/-- Write a value, unless it is nil: the global function that makes texts of values says how. -/
def print (b : Bridge) (v : Value) (h : BridgeHeap) (w : World) : EngineTurn :=
  match v with
  | .nil => answer h w []
  | v => ⟨h, w, .get (.table h.globals) (.ofString "tostring") (.lookingUp b.sink v)⟩

/-- A reference seen from a URI, or from that of the view. -/
def path (b : Bridge) (w : World) (first : String) (second : Option String) : Value :=
  .ofString (match second with
    | some reference => Uri.resolve first reference
    | none => Uri.resolve (uriOf w b.view) first)

/-- Render the view that a tag stands for. It sees the variables of the calling view and the
    attributes of the call, of which the latter count, as far as it declares them. -/
def callView (levels : Nat) (b : Bridge) (base tag : String) (attributes : Option Nat)
    (children : Option String) (h : BridgeHeap) (w : World) : EngineTurn :=
  if !(w.engines[b.engine]?.any Engine.isHeld) then
    failView h w (.config "view engine dropped during render")
  else match w.load b.engine (Bridge.target base tag) with
    | .error e => failView h w e
    | .ok (view, w) =>
      let given := match attributes with
        | some ref => (h.table ref).toList
        | none => []
      match Bridge.addAttributes (h.contextEntries b.context) given with
      | none => failView h w (executionError w b.view .conversion)
      | some scope =>
        let r : Request :=
          { engine := b.engine
            view
            sink := b.sink
            depth := b.depth + 1
            attributes := scope
            children }
        start levels r h w

/-- Call a method of a bridge with the arguments after it. -/
def callMethod (m : Bridge.Method) (b : Bridge) (args : List Value) (levels : Nat)
    (h : BridgeHeap) (w : World) : Except RaisedError EngineTurn := do
  let argument (i : Nat) : Value := args.getD i .nil
  match m with
  | .print => return print b (argument 0) h w
  | .path =>
    let first ← Bridge.textArgument (argument 0)
    let second ← Bridge.optionalText (argument 1)
    return answer h w [path b w first second]
  | .execute =>
    let base ← Bridge.textArgument (argument 0)
    let tag ← Bridge.textArgument (argument 1)
    let attributes ← Bridge.optionalTable (argument 2)
    let children ← Bridge.optionalText (argument 3)
    return callView levels b base tag attributes children h w
  | .truthy => return answer h w [.bool (isPresent (argument 0))]
  | .uri => return answer h w [.ofString (uriOf w b.view)]

/-- Call a method by name. -/
def invoke (name : Bytes) (args : List Value) (levels : Nat) (h : BridgeHeap) (w : World) :
    EngineTurn :=
  match Bridge.methods.lookup name, Bridge.receiver? h args with
  | some m, some b =>
    match callMethod m b args.tail levels h w with
    | .ok t => t
    | .error cause => failWith h w cause
  | _, _ => failWith h w (.callback .argument)

/-- Go on with the outcome of code. -/
def resume (p : Pending) (outcome : Except RaisedError (List Value)) (levels : Nat)
    (h : BridgeHeap) (w : World) : EngineTurn :=
  match p, outcome with
  | .nothing, .ok vs => answer h w vs
  | .nothing, .error cause => failWith h w cause
  | .acquiring r, .ok vs => acquired levels r vs h w
  | .acquiring r, .error cause => failView h w (executionError w r.view cause)
  | .preparing r context previous, .ok vs =>
    compiled levels r context vs h (w.nameSource (w.runtimeOf r.engine) previous)
  | .preparing r context previous, .error cause =>
    finish r context h (w.nameSource (w.runtimeOf r.engine) previous) (some cause)
  | .running r context, .ok _ => finish r context h w none
  | .running r context, .error cause => finish r context h w (some cause)
  | .lookingUp sink v, .ok vs => printWith sink v vs h w
  | .printing sink, .ok vs => write sink vs h w
  | .lookingUp _ _, .error cause => failWith h w (.callback cause)
  | .printing _, .error cause => failWith h w (.callback cause)

/-- What the engine provides to code. -/
def host : Script.Host Bridge World Pending where
  methods _ := Bridge.methods.map (·.1)
  invoke := invoke
  resume := resume

end Render

end ScriptedViews

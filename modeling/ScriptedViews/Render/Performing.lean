import ScriptedViews.Render.Rendering
import ScriptedViews.Script.Import
import ScriptedViews.Script.Machine.Run

set_option autoImplicit false

/-! # Performing

Running the script machine on the heap of a runtime, from outside of any render: making contexts,
preparing code and running it. The fuel bounds the steps of the machine; what does not end within
them has no outcome. -/

namespace ScriptedViews

open Script (Value utf8)

/-- The outcome of something that runs code, if it ends. -/
abbrev Performed (ε α : Type) := Option (Except ε α)

namespace World

/-- The heap of a runtime. -/
def heapOf (w : World) (runtime : Nat) : BridgeHeap :=
  match w.runtimes[runtime]? with
  | some rt => rt.heap
  | none => default

/-- Do what the engine wants on the heap of a runtime. -/
def perform (fuel : Nat) (w : World) (runtime : Nat) (turn : BridgeHeap → World → EngineTurn) :
    Performed RaisedError (List Value) × World :=
  let heap := w.heapOf runtime
  let w := w.modifyRuntime runtime fun rt => { rt with heap := {} }
  let r := Render.host.perform fuel (turn heap w)
  (r.outcome, r.world.modifyRuntime runtime fun rt => { rt with heap := r.heap })

/-- Do something to the heap of a runtime. -/
def withHeap {α : Type} (w : World) (runtime : Nat) (f : BridgeHeap → α × BridgeHeap) : α × World :=
  let (a, heap) := f (w.heapOf runtime)
  (a, w.modifyRuntime runtime fun rt => { rt with heap })

/-- A JSON value as a value of a runtime. -/
def importJson (w : World) (runtime : Nat) (j : Json) : Value × World :=
  w.withHeap runtime fun h => h.importJson j

/-! ## Contexts -/

/-- What the engine does to make a context. -/
def contextTurn (h : BridgeHeap) (w : World) : EngineTurn :=
  match h.readChunk 0 (utf8 "=context") Script.contextSource (.table h.globals) with
  | .error _ => Render.failWith h w (.malformed "")
  | .ok (f, h) => ⟨h, w, .call f [] .nothing⟩

/-- Make a context. -/
def newContext (fuel : Nat) (w : World) (runtime : Nat) : Performed ScriptError Nat × World :=
  let (outcome, w) := w.perform fuel runtime contextTurn
  (outcome.map fun r =>
    match r with
    | .error cause => .error (.raised cause)
    | .ok vs =>
      match Script.firstValue vs with
      | .table context => .ok context
      | _ => .error (.raised .conversion), w)

/-- How the contexts of a runtime are made and wiped. A context that does not get made within the
    steps fails for no reason. -/
def contextKind (fuel runtime : Nat) : ContextKind World Nat (Option ScriptError) where
  make w :=
    match w.newContext fuel runtime with
    | (some (.ok context), w) => (.ok context, w)
    | (some (.error e), w) => (.error (some e), w)
    | (none, w) => (.error none, w)
  wipe context w :=
    (some context, (w.withHeap runtime fun h => ((), h.contextClear context)).2)

/-! ## Code -/

/-- Prepare code for running. -/
def prepare (fuel : Nat) (w : World) (runtime : Nat) (compile : Bool) (name source : String) :
    Performed ScriptError Script.Executable × World :=
  if !compile then (some (.ok (.interpreted name source)), w)
  else
    let previous := w.sourceName? runtime
    let (outcome, w) := (w.nameSource runtime (some name)).perform fuel runtime fun h w =>
      match h.readSource 1 name (Script.functionSource source) (.table h.globals) with
      | .error cause => Render.failWith h w cause
      | .ok (f, h) => ⟨h, w, .call f [] .nothing⟩
    let w := w.nameSource runtime previous
    match outcome with
    | none => (none, w)
    | some (.error cause) => (some (.error (.raised cause)), w)
    | some (.ok vs) =>
      let f := Script.firstValue vs
      if f.isFunction then
        (some (.ok (.compiled f)),
          w.modifyRuntime runtime fun rt => { rt with compilations := rt.compilations + 1 })
      else (some (.error (.raised .conversion)), w)

/-- Run code in a context. -/
def execute (fuel : Nat) (w : World) (runtime : Nat) (x : Script.Executable) (context : Nat) :
    Performed ScriptError Unit × World :=
  let (outcome, w) := w.perform fuel runtime fun h w =>
    match h.callOf 0 x context with
    | .error cause => Render.failWith h w cause
    | .ok (f, args, h) => ⟨h, w, .call f args .nothing⟩
  (outcome.map fun r =>
    match r with
    | .error cause => .error (.raised cause)
    | .ok _ => .ok (), w)

end World

end ScriptedViews

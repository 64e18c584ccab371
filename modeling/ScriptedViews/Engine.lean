import ScriptedViews.Render.Performing

set_option autoImplicit false

/-! # Engines

How engines are set up, and what they are asked to do: load views and render them. -/

namespace ScriptedViews

open Script (Value Bytes)

/-- What an engine is made from. -/
structure Setup where
  loader : Option Loader := none
  config : Config := {}
  validator : Option Validator := none

namespace Setup

/-- Show the texts of views to a validator. -/
def withValidator (s : Setup) (v : Validator) : Setup :=
  { s with validator := some v, config := { s.config with validateSchema := true } }

end Setup

namespace World

/-- The failure of an engine that has nowhere to load views from. -/
def noLoader : ViewError :=
  .config "No view loader has been configured. Use `with_loader`."

/-- Make an engine. Its runtime comes from a registry, and its contexts are made at once. -/
def createEngine (fuel : Nat) (w : World) (registry : Registry) (s : Setup) :
    Performed ViewError Nat × Registry × World :=
  match s.loader with
  | none => (some (.error noLoader), registry, w)
  | some loader =>
    match w.runtimeFor registry s.config.language with
    | .error e => (some (.error (ViewError.ofScript e)), registry, w)
    | .ok (runtime, registry, w) =>
      match Pool.create (contextKind fuel runtime) s.config.contextPoolCapacity w with
      | (.error none, w) => (none, registry, w)
      | (.error (some e), w) => (some (.error (ViewError.ofScript e)), registry, w)
      | (.ok pool, w) =>
        let e : Engine :=
          { config := s.config, loader, validator := s.validator, pool, runtime }
        (some (.ok w.engines.size), registry, { w with engines := w.engines.push e })

/-- Let go of an engine. Code that still has its bridge cannot call it any more. -/
def release (w : World) (engine : Nat) : World :=
  w.modifyEngine engine fun e => { e with isHeld := false }

/-- JSON values as values of a runtime, in the order of their names. -/
def importAttributes (w : World) (runtime : Nat) :
    List (String × Json) → List (String × Value) × World
  | [] => ([], w)
  | (name, j) :: rest =>
    let (v, w) := w.importJson runtime j
    let (vs, w) := importAttributes w runtime rest
    ((name, v) :: vs, w)

/-- The failure of a view that comes out of the script machine. -/
def viewErrorOf (cause : RaisedError) : ViewError :=
  match cause.unwrapped with
  | .view e => e
  | cause => .script (.raised cause)

/-- Render a view to a sink, with the source of a function that places the caller's content. -/
def render (fuel : Nat) (w : World) (engine view sink : Nat) (attributes : List (String × Json))
    (children : Option String) : Performed ViewError Unit × World :=
  let runtime := (w.engines[engine]?.map Engine.runtime).getD 0
  let (values, w) := w.importAttributes runtime attributes
  let request : Request := { engine, view, sink, attributes := values, children }
  let (outcome, w) := w.perform fuel runtime (Render.start 0 request)
  (outcome.map fun r =>
    match r with
    | .ok _ => .ok ()
    | .error cause => .error (viewErrorOf cause), w)

/-- Render a view to a text. -/
def renderToText (fuel : Nat) (w : World) (engine view : Nat) (attributes : List (String × Json)) :
    Performed ViewError String × World :=
  let (sink, w) := w.addSink {}
  let (outcome, w) := w.render fuel engine view sink attributes none
  let written : Bytes := (w.sinks[sink]?.map Sink.bytes).getD []
  (outcome.map fun r => r.map fun _ => Text.decodeLossy ⟨written.toArray⟩, w)

end World

/-- The text that describes some settings. -/
def Config.describe (c : Config) : String :=
  "EngineConfig \x7b language: " ++ Text.quoted c.language ++ ", context_pool_capacity: "
    ++ toString c.contextPoolCapacity ++ ", compile: " ++ toString c.compile ++ ", cache_views: "
    ++ toString c.cacheViews ++ ", validate_schema: " ++ toString c.validateSchema
    ++ ", max_nesting_depth: " ++ toString c.maxNestingDepth ++ " \x7d"

/-- The text that describes an engine. -/
def Engine.describe (e : Engine) (number : Nat) : String :=
  "ViewEngine \x7b id: " ++ toString number ++ ", config: " ++ e.config.describe ++ ", loader: "
    ++ Text.quoted e.loader.name ++ ", pool: " ++ e.pool.describe ++ " \x7d"

end ScriptedViews

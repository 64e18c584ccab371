import ScriptedViews.Config
import ScriptedViews.Loader.Basic
import ScriptedViews.Pool
import ScriptedViews.Sink
import ScriptedViews.View

set_option autoImplicit false

/-! # The world of engines

Everything that renders share: where views come from, the script runtimes, engines with their views
and idle contexts, and sinks. All of them are known by number, because engines may share runtimes,
renders may share sinks, and a view may be held on to after its engine has forgotten it. -/

namespace ScriptedViews

/-- What an engine gives the code of one render. -/
structure Bridge where
  engine : Nat
  view : Nat
  /-- The table of the render's variables. -/
  context : Nat
  sink : Nat
  /-- How many renders this one is nested in. -/
  depth : Nat

/-- The heap of a runtime. -/
abbrev BridgeHeap := Script.Heap Bridge

/-- One state of the script language, shared by the views of all engines that use it. -/
structure Runtime where
  language : String
  heap : BridgeHeap := Script.Heap.start
  /-- How many sources have been compiled. -/
  compilations : Nat := 0
  /-- The name of the source that is being compiled. -/
  sourceName : Option String := none
deriving Inhabited

/-- Looks at the URI and the text of a view, and may say why the text is not accepted. -/
abbrev Validator := String → String → Except String Unit

/-- Loads views and renders them. -/
structure Engine where
  config : Config
  loader : Loader
  validator : Option Validator
  /-- The views that are kept, by URI. -/
  cache : OrderedMap String Nat := []
  pool : Pool Nat
  runtime : Nat
  /-- Whether anyone still holds the engine. -/
  isHeld : Bool := true

/-- Everything that renders share. -/
structure World where
  sources : Sources := {}
  runtimes : Array Runtime := #[]
  engines : Array Engine := #[]
  views : Array View := #[]
  sinks : Array Sink := #[]
deriving Inhabited

namespace Runtime

/-- The languages that there are runtimes for. -/
def languages : List String :=
  ["lua", "lua5.4", "lua54"]

/-- What a language goes by: its name without blanks around it and in small letters. -/
def languageId (language : String) : String :=
  Vocabulary.lowerAscii (Text.trimText language)

/-- Whether there are runtimes for a language. -/
def supports (language : String) : Bool :=
  languages.contains (languageId language)

/-- A runtime for a language, called as given. -/
def create (language : String) : Except ScriptError Runtime :=
  if supports language then .ok { language } else .error (.runtimeNotFound language)

/-- The text that describes a runtime. -/
def describe (r : Runtime) : String :=
  "ScriptRuntime \x7b language: " ++ Text.quoted r.language ++ ", compilations: "
    ++ toString r.compilations ++ " \x7d"

/-- The text that describes executable code of a runtime. -/
def describeExecutable (r : Runtime) : Script.Executable → String
  | .compiled _ => "Compiled \x7b language: " ++ Text.quoted r.language ++ " \x7d"
  | .interpreted name _ => "Interpreted \x7b name: " ++ Text.quoted name ++ " \x7d"

end Runtime

/-- Runtimes by the names that their languages go by. -/
abbrev Registry := OrderedMap String Nat

/-- The text that describes a registry. -/
def Registry.describe (r : Registry) : String :=
  "RuntimeRegistry \x7b languages: [" ++ ", ".intercalate (r.map fun e => Text.quoted e.1)
    ++ "] \x7d"

namespace World

/-! ## Runtimes -/

/-- Put a runtime into the world. -/
def addRuntime (w : World) (r : Runtime) : Nat × World :=
  (w.runtimes.size, { w with runtimes := w.runtimes.push r })

/-- The runtime of a registry for a language. It is made when it is first asked for. -/
def runtimeFor (w : World) (registry : Registry) (language : String) :
    Except ScriptError (Nat × Registry × World) :=
  let id := Runtime.languageId language
  match registry.get? id with
  | some runtime => .ok (runtime, registry, w)
  | none =>
    if Runtime.supports id then
      let (runtime, w) := w.addRuntime { language := id }
      .ok (runtime, registry.insert id runtime, w)
    else .error (.runtimeNotFound language)

/-- Change a runtime. -/
def modifyRuntime (w : World) (runtime : Nat) (f : Runtime → Runtime) : World :=
  { w with runtimes := w.runtimes.modify runtime f }

/-- The name of the source that is being compiled on a runtime. -/
def sourceName? (w : World) (runtime : Nat) : Option String :=
  w.runtimes[runtime]?.bind Runtime.sourceName

/-- Say which source is being compiled on a runtime, or that none is. -/
def nameSource (w : World) (runtime : Nat) (name : Option String) : World :=
  w.modifyRuntime runtime fun rt => { rt with sourceName := name }

/-- The source that was being compiled before is so again. -/
theorem nameSource_sourceName? (w : World) (runtime : Nat) (name : Option String) :
    (w.nameSource runtime name).nameSource runtime (w.sourceName? runtime) = w := by
  have hmodify : ((w.runtimes.modify runtime fun rt => { rt with sourceName := name }).modify runtime
      fun rt => { rt with sourceName := w.sourceName? runtime }) = w.runtimes := by
    apply Array.ext_getElem?
    intro i
    rw [Array.getElem?_modify, Array.getElem?_modify]
    split
    · next hi =>
      subst hi
      rw [sourceName?]
      cases w.runtimes[runtime]? <;> rfl
    · rfl
  rw [nameSource, nameSource, modifyRuntime, modifyRuntime, hmodify]

/-! ## Engines, views and sinks -/

/-- The runtime of an engine. -/
def runtimeOf (w : World) (engine : Nat) : Nat :=
  (w.engines[engine]?.map Engine.runtime).getD 0

/-- Change an engine. -/
def modifyEngine (w : World) (engine : Nat) (f : Engine → Engine) : World :=
  { w with engines := w.engines.modify engine f }

/-- Put a view into the world. -/
def addView (w : World) (v : View) : Nat × World :=
  (w.views.size, { w with views := w.views.push v })

/-- Change a view. -/
def modifyView (w : World) (view : Nat) (f : View → View) : World :=
  { w with views := w.views.modify view f }

/-- Put a sink into the world. -/
def addSink (w : World) (s : Sink) : Nat × World :=
  (w.sinks.size, { w with sinks := w.sinks.push s })

/-! ## Loading -/

/-- The text of a view from its bytes, without a mark of the byte order. -/
def decodeView (uri : String) (bytes : ByteArray) : Except ViewError String :=
  match Text.decodeUtf8 bytes with
  | .error e => .error (.encoding uri e)
  | .ok text =>
    match text.toList with
    | '\ufeff' :: rest => .ok (String.ofList rest)
    | _ => .ok text

/-- Show the text of a view to the validator, if the settings ask for it. -/
def validate (e : Engine) (uri text : String) : Except ViewError Unit :=
  match e.validator with
  | some validator =>
    if e.config.validateSchema then (validator uri text).mapError (ViewError.validation uri)
    else .ok ()
  | none => .ok ()

/-- Read a view from where the engine gets its views. -/
def readView (w : World) (engine : Nat) (e : Engine) (uri : String) : Except ViewError View := do
  let bytes ← (e.loader.load w.sources uri).mapError fun cause =>
    if cause.isNotFound then ViewError.notFound uri else .load uri cause
  let text ← decodeView uri bytes
  validate e uri text
  View.compile engine uri text

/-- The view at a URI: the one that the engine has kept, or one that is read now. -/
def load (w : World) (engine : Nat) (uri : String) : Except ViewError (Nat × World) :=
  match w.engines[engine]? with
  | none => .error (.notFound uri)
  | some e =>
    match if e.config.cacheViews then e.cache.get? uri else none with
    | some view => .ok (view, w)
    | none =>
      match w.readView engine e uri with
      | .error error => .error error
      | .ok v =>
        let (view, w) := w.addView v
        if e.config.cacheViews then
          .ok (view, w.modifyEngine engine fun e => { e with cache := e.cache.insert uri view })
        else .ok (view, w)

/-- Make a view of an engine from a text that comes from nowhere. -/
def viewFromSource (w : World) (engine : Nat) (uri text : String) :
    Except ViewError (Nat × World) :=
  (View.compile engine uri text).map w.addView

/-- Forget the views that an engine has kept. -/
def clearCache (w : World) (engine : Nat) : World :=
  w.modifyEngine engine fun e => { e with cache := [] }

end World

end ScriptedViews

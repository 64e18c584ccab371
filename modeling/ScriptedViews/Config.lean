import ScriptedViews.Json.Reader
import ScriptedViews.Json.Writer
import ScriptedViews.Vocabulary

set_option autoImplicit false

/-! # Engine settings

The settings of an engine, and their form as a JSON text. A settings file may leave any of them
out and may hold entries of its own; what it says of a setting must have the setting's type. -/

namespace ScriptedViews

/-- The settings of an engine. -/
structure Config where
  /-- Language of the generated code. -/
  language : String := Vocabulary.defaultLanguage
  /-- How many idle contexts are kept for reuse. -/
  contextPoolCapacity : Nat := 50
  /-- Compile a view once, or load its code again for each render. -/
  compile : Bool := true
  /-- Keep loaded views by URI. -/
  cacheViews : Bool := true
  /-- Show each text to the validator before it is read. -/
  validateSchema : Bool := false
  /-- The deepest chain of views that call views. -/
  maxNestingDepth : Nat := 32
deriving DecidableEq, Repr, Inhabited

namespace Config

/-- The least number that is too large for a setting. -/
def countLimit : Nat := 0x10000000000000000

/-- A count: written with digits alone, and below the limit. -/
def count? (j : Json) : Option Nat :=
  j.nat?.filter (· < countLimit)

/-- The settings by name, in their order: each reads its own type and puts it in place. -/
def fields : List (String × (Config → Json → Option Config)) :=
  [("language", fun c j => j.text?.map fun v => { c with language := v }),
   ("contextPoolCapacity", fun c j => (count? j).map fun v => { c with contextPoolCapacity := v }),
   ("compile", fun c j => j.bool?.map fun v => { c with compile := v }),
   ("cacheViews", fun c j => j.bool?.map fun v => { c with cacheViews := v }),
   ("validateSchema", fun c j => j.bool?.map fun v => { c with validateSchema := v }),
   ("maxNestingDepth", fun c j => (count? j).map fun v => { c with maxNestingDepth := v })]

/-- Settings from the entries of an object. Names that are no setting are passed over; a setting
    may be given once. -/
def ofEntries : List String → Config → List (String × Json) → Option Config
  | _, c, [] => some c
  | seen, c, (name, value) :: rest =>
    match fields.lookup name with
    | none => ofEntries seen c rest
    | some set =>
      if seen.contains name then none
      else match set c value with
        | none => none
        | some c => ofEntries (name :: seen) c rest

/-- Settings from a list that gives them in their order. It may end early. -/
def ofItems : Config → List (String × (Config → Json → Option Config)) → List Json → Option Config
  | c, _, [] => some c
  | _, [], _ :: _ => none
  | c, (_, set) :: fs, value :: rest =>
    match set c value with
    | none => none
    | some c => ofItems c fs rest

/-- Settings from a JSON value: an object, or a list of them in order. -/
def ofJson? : Json → Option Config
  | .obj entries => ofEntries [] {} entries
  | .arr items => ofItems {} fields items
  | _ => none

/-- Read settings from the text of a settings file. -/
def parse? (text : String) : Option Config :=
  (Json.parse? text).bind ofJson?

/-- The settings as a JSON object with all of them in order. -/
def toJson (c : Config) : Json :=
  .obj [("language", .str c.language),
    ("contextPoolCapacity", .number (toString c.contextPoolCapacity)),
    ("compile", .bool c.compile),
    ("cacheViews", .bool c.cacheViews),
    ("validateSchema", .bool c.validateSchema),
    ("maxNestingDepth", .number (toString c.maxNestingDepth))]

/-- The compact text of the settings. -/
def render (c : Config) : String :=
  c.toJson.render

end Config

end ScriptedViews

import ScriptedViews.Document
import ScriptedViews.Failure
import ScriptedViews.Script.Executable
import ScriptedViews.Text.Quoted

set_option autoImplicit false

/-! # Views

A view is read and turned into code when it is made. All that changes later is that its code is
prepared for running, once. -/

namespace ScriptedViews

/-- A view. -/
structure View where
  uri : String
  /-- The attributes that a caller may set, with the values they have otherwise. -/
  defaults : OrderedMap String String
  root : Element
  namespaces : NamespaceTable
  /-- The code. -/
  source : String
  /-- The number of the engine that the view belongs to. -/
  engine : Nat
  /-- The code as it runs, once it has been prepared. -/
  executable : Option Script.Executable := none

namespace View

/-- Read the text of a view and turn it into code. -/
def compile (engine : Nat) (uri text : String) : Except ViewError View := do
  let root ← (Document.parse text).mapError (ViewError.ofDocument uri)
  let namespaces ← root.namespaces.mapError (ViewError.ofDocument uri)
  let source ← (Code.generate root namespaces uri).mapError (ViewError.ofCompile uri)
  return { uri, defaults := namespaces.templateAttributes, root, namespaces, source, engine }

/-- Whether the code has been prepared. -/
def isPrepared (v : View) : Bool :=
  v.executable.isSome

/-- The view with its code prepared, unless that has been done. -/
def prepared (v : View) (x : Script.Executable) : View :=
  { v with executable := v.executable <|> some x }

/-- The text that describes some defaults. -/
def describeDefaults (defaults : OrderedMap String String) : String :=
  "\x7b" ++ ", ".intercalate (defaults.map fun e => Text.quoted e.1 ++ ": " ++ Text.quoted e.2)
    ++ "\x7d"

/-- The text that describes a view. -/
def describe (v : View) : String :=
  "View \x7b uri: " ++ Text.quoted v.uri ++ ", default_attributes: " ++ describeDefaults v.defaults
    ++ ", prepared: " ++ toString v.isPrepared ++ " \x7d"

end View

end ScriptedViews

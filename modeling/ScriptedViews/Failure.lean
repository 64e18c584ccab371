import ScriptedViews.Code.Generate
import ScriptedViews.Document
import ScriptedViews.Loader.Error
import ScriptedViews.Text.Utf8

set_option autoImplicit false

/-! # Failures of a render

Everything that can go wrong when a view is loaded or rendered. When a view that another view
calls fails, its failure is the cause of a script failure in the caller, inside the wrappers that
script puts around it on its way; `innermost` digs it out again. -/

namespace ScriptedViews

mutual

/-- What can go wrong when a view is loaded or rendered. -/
inductive ViewError where
  | notFound (uri : String)
  | load (uri : String) (source : LoaderError)
  | encoding (uri : String) (source : Text.Utf8Error)
  | validation (uri message : String)
  | parse (uri : String) (source : Xml.XmlError)
  | namespaces (uri : String) (source : NamespaceError)
  | unknownTag (uri tag : String)
  | instanceMismatch (uri : String)
  | runtimeNotFound (language : String)
  | execution (uri : String) (source : ScriptError)
  | nestingTooDeep (uri : String) (limit : Nat)
  | script (source : ScriptError)
  | config (message : String)

/-- What can go wrong in the script runtime. -/
inductive ScriptError where
  | runtimeNotFound (language : String)
  | raised (cause : RaisedError)

/-- An error that script has raised, or that passed through it. -/
inductive RaisedError where
  /-- Source that does not compile. -/
  | malformed (text : String)
  /-- An error raised by code. -/
  | runtime (text : String)
  /-- A method of the bridge was called with something it does not take. -/
  | argument
  /-- A value that was needed is not of the kind that was needed. -/
  | conversion
  /-- The output could not be written. -/
  | external (text : String)
  /-- Another view failed. -/
  | view (error : ViewError)
  /-- The error came out of a method called by code. -/
  | callback (cause : RaisedError)
  /-- The error with a remark on where it came from. -/
  | context (cause : RaisedError)

end

deriving instance DecidableEq, Repr, Inhabited for ViewError, ScriptError, RaisedError

namespace RaisedError

/-- The error without the wrappers around it. -/
def unwrapped : RaisedError → RaisedError
  | .callback cause => unwrapped cause
  | .context cause => unwrapped cause
  | e => e

end RaisedError

namespace ViewError

mutual

/-- The failure of the most deeply nested view. -/
def innermost : ViewError → ViewError
  | .execution uri (.raised cause) => (nested? cause).getD (.execution uri (.raised cause))
  | e => e

/-- The innermost failure of the view whose failure is the cause, if one is. -/
def nested? : RaisedError → Option ViewError
  | .view e => some (innermost e)
  | .callback cause => nested? cause
  | .context cause => nested? cause
  | _ => none

end

/-- A failure to compile, in the view at `uri`. -/
def ofCompile (uri : String) : Code.CompileError → ViewError
  | .unknownTag tag => .unknownTag uri tag

/-- A failure to read, in the view at `uri`. -/
def ofDocument (uri : String) : DocumentError → ViewError
  | .parse reason => .parse uri reason
  | .namespaces reason => .namespaces uri reason

/-- A failure of the script runtime outside any render. -/
def ofScript : ScriptError → ViewError
  | .runtimeNotFound language => .runtimeNotFound language
  | e => .script e

/-- The text that reports that no runtime is there for a language. -/
def noRuntimeMessage (language : String) : String :=
  "No script runtime available for language '" ++ language ++ "'"

/-- The text that reports that a view's namespaces cannot be told. -/
def namespacesMessage (uri : String) (source : NamespaceError) : String :=
  "Namespace error in view '" ++ uri ++ "': " ++ source.message

mutual

/-- The text that reports a failure. -/
def message : ViewError → String
  | .notFound uri => "View not found: " ++ uri
  | .load uri source => "Failed to load view '" ++ uri ++ "': " ++ source.message
  | .encoding uri source => "View '" ++ uri ++ "' is not valid UTF-8: " ++ source.message
  | .validation uri message => "View '" ++ uri ++ "' failed validation: " ++ message
  | .parse uri _ => "Failed to parse view '" ++ uri ++ "'"
  | .namespaces uri source => namespacesMessage uri source
  | .unknownTag uri tag => uri ++ " -> unknown tag [" ++ tag ++ "]"
  | .instanceMismatch uri => "View '" ++ uri ++ "' was not loaded by this engine"
  | .runtimeNotFound language => noRuntimeMessage language
  | .execution uri source => "Failed to render '" ++ uri ++ "': " ++ scriptMessage source
  | .nestingTooDeep uri limit =>
    "View nesting deeper than " ++ toString limit ++ " levels at '" ++ uri ++ "'"
  | .script source => "Script runtime error: " ++ scriptMessage source
  | .config message => "Configuration error: " ++ message

/-- The text that reports a failure of the script runtime. -/
def scriptMessage : ScriptError → String
  | .runtimeNotFound language => noRuntimeMessage language
  | .raised cause => "Lua error: " ++ raisedMessage cause

/-- The text that reports an error that script has raised. -/
def raisedMessage : RaisedError → String
  | .malformed text => "syntax error: " ++ text
  | .runtime text => "runtime error: " ++ text
  | .argument => "bad argument"
  | .conversion => "error converting value"
  | .external text => text
  | .view e => message e
  | .callback cause => raisedMessage cause
  | .context cause => raisedMessage cause

end

end ViewError

/-- The text that reports a failure of the script runtime. -/
def ScriptError.message (e : ScriptError) : String :=
  ViewError.scriptMessage e

/-- The text that reports an error that script has raised. -/
def RaisedError.message (e : RaisedError) : String :=
  ViewError.raisedMessage e

end ScriptedViews

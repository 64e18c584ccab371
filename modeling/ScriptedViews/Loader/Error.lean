set_option autoImplicit false

/-! # Errors of loaders

Why a loader has no bytes for a URI. Absence is apart from failure: a chain of loaders goes on
after either, but reports a failure before it reports absence. -/

namespace ScriptedViews

/-- Why a loader has no bytes for a URI. -/
inductive LoaderError where
  /-- Nothing is there. -/
  | notFound (what : String)
  /-- Something is there and cannot be read. -/
  | loadFailed (path message : String)
  /-- The device failed. -/
  | io (message : String)
deriving DecidableEq, Repr, Inhabited

namespace LoaderError

/-- Whether the error is that nothing is there. -/
def isNotFound : LoaderError → Bool
  | .notFound _ => true
  | _ => false

/-- The text that reports the error. -/
def message : LoaderError → String
  | .notFound what => "View not found: " ++ what
  | .loadFailed path message => "Failed to load view '" ++ path ++ "': " ++ message
  | .io message => "I/O error: " ++ message

end LoaderError

end ScriptedViews

import ScriptedViews.Loader.Error
import ScriptedViews.Loader.Files
import ScriptedViews.OrderedMap

set_option autoImplicit false

/-! # Loaders

Where the bytes of views come from: stores in memory, directories of files, whatever else a host
brings, and chains that ask one loader after another. A loader names the store it reads, so what is
put into the store later is served later. -/

namespace ScriptedViews

/-- Views in memory, by URI. -/
abbrev ViewStore := OrderedMap String ByteArray

/-- What a loader of the host's own answers for a URI. Nothing says that its answers agree. -/
structure HostLoader where
  load : String → Except LoaderError ByteArray
  provides : String → Bool

/-- Everything that loaders read. -/
structure Sources where
  stores : Array ViewStore := #[]
  files : FileTree := []
  others : Array HostLoader := #[]
deriving Inhabited

/-- Where the bytes of views come from. -/
inductive Loader where
  /-- The store with this number. -/
  | memory (store : Nat)
  /-- A directory. -/
  | directory (d : ViewDirectory)
  /-- A source that claims to have every view and fails to deliver any. -/
  | failing (error : LoaderError)
  /-- The host's own loader with this number, and what it is called. -/
  | other (name : String) (number : Nat)
  /-- The members in turn, until one has the view. -/
  | chain (members : List Loader)
deriving Repr, Inhabited

namespace Loader

/-- What a loader is called in reports. -/
def name : Loader → String
  | .memory _ => "InMemoryViewLoader"
  | .directory _ => "FilesystemViewLoader"
  | .failing _ => "Failing"
  | .other name _ => name
  | .chain _ => "ChainedViewLoader"

/-- The bytes of a view in a store. -/
def loadMemory (sources : Sources) (store : Nat) (uri : String) : Except LoaderError ByteArray :=
  match (sources.stores[store]?).bind (OrderedMap.get? · uri) with
  | some data => .ok data
  | none => .error (.notFound uri)

/-- The bytes of a view in a directory. -/
def loadDirectory (sources : Sources) (d : ViewDirectory) (uri : String) :
    Except LoaderError ByteArray :=
  match d.target sources.files uri with
  | .outside => .error (.notFound (uri ++ " (outside of view root)"))
  | .inside place =>
    match place.bind sources.files.read? with
    | some data => .ok data
    | none => .error (.notFound uri)

/-- The bytes of a view from a loader of the host's own. -/
def loadOther (sources : Sources) (number : Nat) (uri : String) : Except LoaderError ByteArray :=
  match sources.others[number]? with
  | some host => host.load uri
  | none => .error (.notFound uri)

mutual

/-- The bytes of a view. -/
def load (sources : Sources) (uri : String) : Loader → Except LoaderError ByteArray
  | .memory store => loadMemory sources store uri
  | .directory d => loadDirectory sources d uri
  | .failing error => .error error
  | .other _ number => loadOther sources number uri
  | .chain members => loadFirst sources uri none members

/-- The bytes of a view from the first of some loaders that has it. If none has, the first failure
    that is more than absence is reported. -/
def loadFirst (sources : Sources) (uri : String) :
    Option LoaderError → List Loader → Except LoaderError ByteArray
  | failure, [] => .error (failure.getD (.notFound uri))
  | failure, l :: ls =>
    match load sources uri l with
    | .ok data => .ok data
    | .error e =>
      if e.isNotFound then loadFirst sources uri failure ls
      else loadFirst sources uri (failure <|> some e) ls

end

mutual

/-- Whether a loader says that it has a view. -/
def provides (sources : Sources) (uri : String) : Loader → Bool
  | .memory store => ((sources.stores[store]?).bind (OrderedMap.get? · uri)).isSome
  | .directory d => (d.read? sources.files uri).isSome
  | .failing _ => true
  | .other _ number => (sources.others[number]?).any fun host => host.provides uri
  | .chain members => anyProvides sources uri members

/-- Whether any of some loaders says that it has a view. -/
def anyProvides (sources : Sources) (uri : String) : List Loader → Bool
  | [] => false
  | l :: ls => provides sources uri l || anyProvides sources uri ls

end

end Loader

end ScriptedViews

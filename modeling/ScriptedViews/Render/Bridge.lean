import ScriptedViews.World

set_option autoImplicit false

/-! # The bridge

What code asks of the engine: whether a value counts as present, and what it hands over as
arguments. A wanted text may be given as a number; what is wanted may be left out where that is
said. -/

namespace ScriptedViews

open Script (Value Bytes utf8)

/-- Whether a value counts as present: nil, false, zero, what is no number, and the empty text do
    not. -/
def isPresent : Value → Bool
  | .nil => false
  | .bool b => b
  | .number (.int n) => n != 0
  | .number (.float x) => x != 0.0 && x == x
  | .text bytes => !bytes.isEmpty
  | _ => true

namespace Bridge

/-- The methods of the bridge. -/
inductive Method where
  | print
  | path
  | execute
  | truthy
  | uri
deriving DecidableEq, Repr

/-- The methods by name. -/
def methods : List (Bytes × Method) :=
  [("print", .print), ("path", .path), ("execute", .execute), ("truthy", .truthy),
   ("uri", .uri)].map fun e => (utf8 e.1, e.2)

/-- The object that a method is called on. -/
def receiver? (h : BridgeHeap) : List Value → Option Bridge
  | .object ref :: _ =>
    match h.objects[ref]? with
    | some (.host b) => some b
    | _ => none
  | _ => none

/-- An argument that has to be a text. -/
def textArgument (v : Value) : Except RaisedError String :=
  match v.toText? with
  | none => .error (.callback .argument)
  | some bytes => (Text.decodeUtf8 ⟨bytes.toArray⟩).mapError fun _ => .callback .argument

/-- An argument that is a text or left out. -/
def optionalText (v : Value) : Except RaisedError (Option String) :=
  match v with
  | .nil => .ok none
  | v => (textArgument v).map some

/-- An argument that is a table or left out. -/
def optionalTable (v : Value) : Except RaisedError (Option Nat) :=
  match v with
  | .nil => .ok none
  | .table ref => .ok (some ref)
  | _ => .error (.callback .argument)

/-- The name that a key of a table of attributes stands for, if it is a text. -/
def attributeName? (key : Value) : Option String :=
  match key.toText? with
  | none => none
  | some bytes => (Text.decodeUtf8 ⟨bytes.toArray⟩).toOption

/-- Variables with attributes added: each takes the place of those that have its name. None if a key
    is no text. -/
def addAttributes : List (String × Value) → List (Value × Value) → Option (List (String × Value))
  | scope, [] => some scope
  | scope, (key, value) :: rest =>
    match attributeName? key with
    | none => none
    | some name => addAttributes (scope.filter (fun e => e.1 != name) ++ [(name, value)]) rest

/-- The view that a tag stands for, seen from a URI. -/
def target (base tag : String) : String :=
  Uri.normalize (Uri.resolve base (tag ++ Vocabulary.viewExtension))

end Bridge

end ScriptedViews

import ScriptedViews.OrderedMap
import ScriptedViews.Text.Blank
import ScriptedViews.Tree.QName

set_option autoImplicit false

/-! # Namespaces of a view

The attributes of a view's root say what its prefixes mean. A declaration `xmlns:p` gives `p` its
target; any other attribute `p:name` is recorded with `p` as one that `p` declares. The schema
locations, pairs of a namespace and a URL in one attribute, say where the views of a namespace are
loaded from. -/

namespace ScriptedViews

open Vocabulary (sameName)

/-- What is known of one prefix. -/
structure Namespace where
  /-- What the prefix means; none if it was only used and never declared. -/
  target : Option String := none
  /-- Where the views of the namespace are. -/
  url : Option String := none
  /-- The attributes written with the prefix, by local name. -/
  attributes : OrderedMap String String := []
deriving DecidableEq, Repr, Inhabited

namespace Namespace

/-- Whether the namespace is the one of directives and declared attributes. -/
def isTemplate (n : Namespace) : Bool :=
  n.target.any Vocabulary.isTemplateNamespace

/-- Whether the prefix means `target`, but for the case of ASCII letters. -/
def hasTarget (n : Namespace) (target : String) : Bool :=
  n.target.any (sameName · target)

end Namespace

/-- The prefixes of a view with what is known of them, in order of first appearance. -/
abbrev NamespaceTable := OrderedMap String Namespace

/-- Why the namespaces of a view cannot be told. -/
inductive NamespaceError where
  /-- The schema locations are not pairs: there are `count` words. -/
  | oddSchemaLocation (count : Nat)
deriving DecidableEq, Repr

/-- The text that reports the error. -/
def NamespaceError.message : NamespaceError → String
  | .oddSchemaLocation count =>
    "xsi:schemaLocation must hold namespace/url pairs, found " ++ toString count ++ " token(s)"

namespace NamespaceTable

/-- Record one attribute of the root. Unprefixed ones say nothing of namespaces. -/
def record (table : NamespaceTable) (name value : String) : NamespaceTable :=
  match QName.splitColon name.toList with
  | none => table
  | some (before, after) =>
    let (p, suffix) := (String.ofList before, String.ofList after)
    if sameName p Vocabulary.xmlnsPrefix then
      OrderedMap.modify suffix (fun n => { n with target := some value }) table
    else
      OrderedMap.modify p (fun n => { n with attributes := n.attributes.insert suffix value }) table

/-- The first namespace with the given target. -/
def findByTarget? (table : NamespaceTable) (target : String) : Option Namespace :=
  (table.find? fun entry => entry.2.hasTarget target).map (·.2)

/-- Give the first namespace with the given target a URL. -/
def setUrl (target url : String) : NamespaceTable → NamespaceTable
  | [] => []
  | (p, n) :: rest =>
    if n.hasTarget target then (p, { n with url := some url }) :: rest
    else (p, n) :: setUrl target url rest

/-- Apply pairs of a namespace and a URL, in order. -/
def applyLocations (table : NamespaceTable) : List String → NamespaceTable
  | target :: url :: rest => applyLocations (setUrl target url table) rest
  | _ => table

/-- The words of the schema locations, if the root gives any. -/
def schemaLocations (table : NamespaceTable) : List String :=
  match (table.findByTarget? Vocabulary.xsiNamespace).bind
      (·.attributes.get? Vocabulary.schemaLocation) with
  | some locations => (Text.words locations.toList).map String.ofList
  | none => []

/-- A namespace without a URL is loaded from where its target points. -/
def defaultUrl (n : Namespace) : Namespace :=
  { n with url := n.url <|> n.target }

/-- The table of a list of root attributes, given by written name and value. -/
def resolve (attributes : List (String × String)) : Except NamespaceError NamespaceTable :=
  let table : NamespaceTable := attributes.foldl (fun t a => record t a.1 a.2) []
  let locations := table.schemaLocations
  if locations.length % 2 = 1 then .error (.oddSchemaLocation locations.length)
  else .ok ((table.applyLocations locations).map fun entry => (entry.1, defaultUrl entry.2))

/-- The attributes that the view declares, with their defaults: those of the first prefix that
    means the template namespace. -/
def templateAttributes (table : NamespaceTable) : OrderedMap String String :=
  match table.find? fun entry => entry.2.isTemplate with
  | some entry => entry.2.attributes
  | none => []

end NamespaceTable

end ScriptedViews

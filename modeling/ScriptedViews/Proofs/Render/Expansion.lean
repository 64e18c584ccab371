import ScriptedViews.Proofs.Code.Interpolation
import ScriptedViews.Code.Generate
import ScriptedViews.Render.Bridge

set_option autoImplicit false

/-! # What a view stands for

Views of markup that call each other are macros: text and tags stand for themselves, a call stands
for what the called view does, and the place of the caller's content for the caller's content. The
expansion of a view is told here by recursion on trees, with nothing of code in it. -/

namespace ScriptedViews

/-- Views by their URIs. -/
abbrev Store := String → Option View

namespace Expansion

/-! ## Expansion -/

/-- The attributes of markup. -/
def attributesText : List Attribute → String
  | [] => ""
  | a :: rest => " " ++ a.name.render ++ "=\"" ++ a.value ++ "\"" ++ attributesText rest

/-- The start of a tag of markup, without its end. -/
def startText (tag : String) (attributes : List Attribute) : String :=
  "<" ++ tag ++ attributesText attributes

mutual

/-- What a node of a view stands for, if it stands for anything. `call` tells it of a call from the
    called view's base, its tag and the element's children, and `placed` of the caller's content. -/
def expandNode (v : View) (call : String → String → List Node → Option String)
    (placed : Option String) : Node → Option String
  | .text content => some (Text.minify content)
  | .element name attributes children =>
    match Code.roleOf v.namespaces name with
    | .ok .markup =>
      let start := startText name.render attributes
      if children.isEmpty then some (start ++ "/>")
      else (expandNodes v call placed children).map fun inner =>
        start ++ ">" ++ inner ++ "</" ++ name.render ++ ">"
    | .ok .group => expandNodes v call placed children
    | .ok .childContent => placed
    | .ok (.invocation _ url) => call (Uri.anchor v.uri url) name.localName children
    | _ => none

/-- What nodes of a view stand for, one after the other. -/
def expandNodes (v : View) (call : String → String → List Node → Option String)
    (placed : Option String) : List Node → Option String
  | [] => some ""
  | n :: ns => do
    let first ← expandNode v call placed n
    let rest ← expandNodes v call placed ns
    return first ++ rest

end

/-- What a call stands for in a view: the called view with the element's children in the places of
    its caller's content. Calls may nest as many levels deep, and those in the children nest in this
    one. -/
def expandCall (views : Store) : Nat → View → String → String → List Node → Option String
  | 0, _, _, _, _ => none
  | levels + 1, caller, base, tag, children =>
    (views (Bridge.target base tag)).bind fun v =>
      expandNode v (expandCall views levels v)
        (expandNodes caller (expandCall views levels caller) none children) v.root.toNode

/-- What a view stands for on its own, with calls nested at most so many levels deep. -/
def expand (views : Store) (levels : Nat) (v : View) : Option String :=
  expandNode v (expandCall views levels v) (some "") v.root.toNode

/-! ## Views of markup -/

open Code (HasExpression)

/-- Whether an attribute of markup is free of expressions. -/
def IsPlainAttribute (a : Attribute) : Prop :=
  ¬ HasExpression a.name.render.toList ∧ ¬ HasExpression a.value.toList

mutual

/-- Whether a node is free of expressions and of script, passes no attributes, and places the
    caller's content only where that is not in the content of a call. -/
def IsPlainNode (namespaces : NamespaceTable) (inContent : Bool) : Node → Prop
  | .text content => ¬ HasExpression (Text.minify content).toList
  | .element name attributes children =>
    match Code.roleOf namespaces name with
    | .ok .markup =>
      ¬ HasExpression name.render.toList ∧ (∀ a ∈ attributes, IsPlainAttribute a)
        ∧ ArePlainNodes namespaces inContent children
    | .ok .group => ArePlainNodes namespaces inContent children
    | .ok .childContent => inContent = false
    | .ok (.invocation qualifier _) =>
      (∀ a ∈ attributes, Code.isPassed qualifier a = false)
        ∧ ArePlainNodes namespaces true children
    | _ => False

/-- Whether all of some nodes are plain. -/
def ArePlainNodes (namespaces : NamespaceTable) (inContent : Bool) : List Node → Prop
  | [] => True
  | n :: ns => IsPlainNode namespaces inContent n ∧ ArePlainNodes namespaces inContent ns

end

/-- Whether a view is nothing but markup, calls and places for content, hides none of the functions
    that its code calls, and can be the name of its code. -/
structure IsPlain (v : View) : Prop where
  root : IsPlainNode v.namespaces false v.root.toNode
  load : v.defaults.contains "load" = false
  assert : v.defaults.contains "assert" = false
  uri : '\x00' ∉ v.uri.toList

/-! ## Telling views of markup -/

open Code (splitOpen splitClose)

/-- Whether there is an expression in a text is told by the scan. -/
theorem hasExpression_iff {cs : List Char} :
    ((splitOpen cs).bind fun p => splitClose p.2).isSome = true ↔ HasExpression cs := by
  cases ho : splitOpen cs with
  | none => simp [Code.not_hasExpression_of_splitOpen ho]
  | some p =>
    cases hc : splitClose p.2 with
    | none => simp [Code.not_hasExpression_of_splitClose ho hc, hc]
    | some q => simp [Code.hasExpression_of_splitClose ho hc, hc]

instance (cs : List Char) : Decidable (HasExpression cs) :=
  decidable_of_iff _ hasExpression_iff

instance (a : Attribute) : Decidable (IsPlainAttribute a) :=
  inferInstanceAs (Decidable (_ ∧ _))

mutual

/-- Tell whether a node is plain. -/
def isPlainNode (namespaces : NamespaceTable) (inContent : Bool) : Node → Bool
  | .text content => decide (¬ HasExpression (Text.minify content).toList)
  | .element name attributes children =>
    match Code.roleOf namespaces name with
    | .ok .markup =>
      decide (¬ HasExpression name.render.toList)
        && attributes.all (fun a => decide (IsPlainAttribute a))
        && arePlainNodes namespaces inContent children
    | .ok .group => arePlainNodes namespaces inContent children
    | .ok .childContent => !inContent
    | .ok (.invocation qualifier _) =>
      attributes.all (fun a => !Code.isPassed qualifier a) && arePlainNodes namespaces true children
    | _ => false

/-- Tell whether all of some nodes are plain. -/
def arePlainNodes (namespaces : NamespaceTable) (inContent : Bool) : List Node → Bool
  | [] => true
  | n :: ns => isPlainNode namespaces inContent n && arePlainNodes namespaces inContent ns

end

mutual

theorem isPlainNode_iff (namespaces : NamespaceTable) (inContent : Bool) (n : Node) :
    isPlainNode namespaces inContent n = true ↔ IsPlainNode namespaces inContent n := by
  cases n with
  | text content => simp [isPlainNode, IsPlainNode]
  | element name attributes children =>
    rw [isPlainNode, IsPlainNode]
    cases Code.roleOf namespaces name with
    | error e => simp
    | ok role =>
      cases role with
      | markup =>
        simp [arePlainNodes_iff namespaces inContent children, and_assoc]
      | script => simp
      | group => exact arePlainNodes_iff namespaces inContent children
      | childContent => simp
      | invocation qualifier url => simp [arePlainNodes_iff namespaces true children]

theorem arePlainNodes_iff (namespaces : NamespaceTable) (inContent : Bool) (ns : List Node) :
    arePlainNodes namespaces inContent ns = true ↔ ArePlainNodes namespaces inContent ns := by
  cases ns with
  | nil => simp [arePlainNodes, ArePlainNodes]
  | cons n ns =>
    simp [arePlainNodes, ArePlainNodes, isPlainNode_iff namespaces inContent n,
      arePlainNodes_iff namespaces inContent ns]

end

instance (namespaces : NamespaceTable) (inContent : Bool) (n : Node) :
    Decidable (IsPlainNode namespaces inContent n) :=
  decidable_of_iff _ (isPlainNode_iff namespaces inContent n)

instance (v : View) : Decidable (IsPlain v) :=
  decidable_of_iff (IsPlainNode v.namespaces false v.root.toNode
    ∧ v.defaults.contains "load" = false ∧ v.defaults.contains "assert" = false
    ∧ '\x00' ∉ v.uri.toList)
    ⟨fun ⟨root, load, assert, uri⟩ => ⟨root, load, assert, uri⟩,
      fun h => ⟨h.root, h.load, h.assert, h.uri⟩⟩

end Expansion

end ScriptedViews

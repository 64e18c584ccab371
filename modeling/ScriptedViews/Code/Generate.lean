import ScriptedViews.Code.Builder
import ScriptedViews.Namespace
import ScriptedViews.Text.Minify
import ScriptedViews.Tree.Node
import ScriptedViews.Uri

set_option autoImplicit false

/-! # Code of a view

Turns a view's tree into code. Markup is printed as it stands; elements of the template namespace
are directives; elements of other namespaces call other views, handing them the element's children
as the source of a function that the called view may run where it likes. URLs are anchored on the
URI of the view being compiled, so that such a function reaches the same views wherever it runs. -/

namespace ScriptedViews.Code

open Vocabulary (sameName bridgeBinding childContentBinding)

/-- Why a view has no code. -/
inductive CompileError where
  /-- A tag whose prefix means nothing, or a directive that there is none of. -/
  | unknownTag (tag : String)
deriving DecidableEq, Repr

/-- The text that reports the error. -/
def CompileError.message : CompileError → String
  | .unknownTag tag => "unknown tag [" ++ tag ++ "]"

/-- What an element's tag makes of it. -/
inductive Role where
  /-- Printed as it stands. -/
  | markup
  /-- Its text is code. -/
  | script
  /-- Its children stand for it. -/
  | group
  /-- The caller's content goes here. -/
  | childContent
  /-- A call of the view that the tag names, in the directory of `url`. -/
  | invocation (qualifier url : String)
deriving DecidableEq, Repr

/-- What an element of this name is. -/
def roleOf (namespaces : NamespaceTable) (name : QName) : Except CompileError Role :=
  match name.qualifier with
  | none => .ok .markup
  | some qualifier =>
    match namespaces.get? qualifier with
    | none => .error (.unknownTag name.render)
    | some ns =>
      if ns.isTemplate then
        if sameName name.localName Vocabulary.scriptTag then .ok .script
        else if sameName name.localName Vocabulary.viewTag then .ok .group
        else if sameName name.localName Vocabulary.processChildNodesTag then .ok .childContent
        else .error (.unknownTag name.render)
      else match ns.url with
        | some url => .ok (.invocation qualifier url)
        | none => .error (.unknownTag name.render)

/-! ## Attributes of a call -/

/-- Whether an attribute of a call is handed on: it is no namespace declaration, and is written
    without a prefix or with the element's, but for the case of ASCII letters. -/
def isPassed (qualifier : String) (a : Attribute) : Bool :=
  !a.name.isNamespaceDeclaration && sameName (a.name.qualifier.getD qualifier) qualifier

/-- The code that evaluates attribute number `i` of a call and puts its value into the table. A
    blank attribute stands for the empty string. -/
def passAttribute (i : Nat) (a : Attribute) : String :=
  let variableName := "value_" ++ toString i
  let value := if Text.isBlankText a.value then "\"\"" else a.value
  "local " ++ variableName ++ " = " ++ value ++ " if " ++ bridgeBinding ++ ":truthy("
    ++ variableName ++ ") then map[" ++ literal a.name.localName ++ "] = " ++ variableName ++ " end "

/-- The code of the attributes that are handed on, numbered by their places in the element. -/
def passAttributes (qualifier : String) : Nat → List Attribute → String
  | _, [] => ""
  | i, a :: rest =>
    (if isPassed qualifier a then passAttribute i a else "")
      ++ passAttributes qualifier (i + 1) rest

/-- The expression that gives a call its table of attributes. -/
def callAttributes (qualifier : String) (attributes : List Attribute) : String :=
  "(function() local map = \x7b\x7d " ++ passAttributes qualifier 0 attributes
    ++ "return map end)()"

/-! ## Nodes -/

/-- The statement that runs the caller's content, if there is any. -/
def childContentStatement : String :=
  "if " ++ childContentBinding ++ " then assert(load(\"return \" .. " ++ childContentBinding
    ++ ", \"=children\", \"t\", _ENV))()() end\n"

/-- The statement that calls a view. -/
def invocationStatement (base tag attributes content : String) : String :=
  bridgeBinding ++ ":execute(" ++ literal base ++ ", " ++ literal tag ++ ", " ++ attributes ++ ", "
    ++ literal content ++ ");\n"

/-- Append an attribute of markup. -/
def Builder.markupAttribute (b : Builder) (a : Attribute) : Builder :=
  ((((b.output " ").output a.name.render).output "=\"").output a.value).output "\""

/-- Append the start of a tag with its attributes. -/
def Builder.startTag (b : Builder) (tag : String) (attributes : List Attribute) : Builder :=
  attributes.foldl Builder.markupAttribute ((b.output "<").output tag)

/-- Append text without its formatting white space. -/
def Builder.text (b : Builder) (content : String) : Builder :=
  let minified := Text.minify content
  if minified = "" then b else b.output minified

mutual

/-- Append the code of a node. -/
def generateNode (namespaces : NamespaceTable) (uri : String) (b : Builder) :
    Node → Except CompileError Builder
  | .text content => .ok (b.text content)
  | .element name attributes children =>
    match roleOf namespaces name with
    | .error e => .error e
    | .ok .markup =>
      let b := b.startTag name.render attributes
      if children.isEmpty then .ok (b.output "/>")
      else do
        let b ← generateNodes namespaces uri (b.output ">") children
        return ((b.output "</").output name.render).output ">"
    | .ok .script =>
      .ok (((b.statement "\n").statement (Node.textOfAll children)).statement "\n")
    | .ok .group => generateNodes namespaces uri b children
    | .ok .childContent => .ok (b.statement childContentStatement)
    | .ok (.invocation qualifier url) => do
      let content ← generateNodes namespaces uri (({} : Builder).statement "function()\n") children
      return b.statement (invocationStatement (Uri.anchor uri url) name.localName
        (callAttributes qualifier attributes) (content.statement "end").finish)

/-- Append the code of nodes in order. -/
def generateNodes (namespaces : NamespaceTable) (uri : String) (b : Builder) :
    List Node → Except CompileError Builder
  | [] => .ok b
  | n :: ns => do
    let b ← generateNode namespaces uri b n
    generateNodes namespaces uri b ns

end

/-- The code of the view at `uri` with this root and these namespaces. -/
def generate (root : Element) (namespaces : NamespaceTable) (uri : String) :
    Except CompileError String :=
  (generateNode namespaces uri {} root.toNode).map Builder.finish

end ScriptedViews.Code

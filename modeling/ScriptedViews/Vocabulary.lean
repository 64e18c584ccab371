set_option autoImplicit false

/-! # Reserved names

The names that the template dialect gives a meaning to. Tags and namespaces are matched without
regard to the case of ASCII letters. -/

namespace ScriptedViews.Vocabulary

/-- Target namespace of the directives and of the attributes that a view declares. -/
def templateNamespace : String := "xview"

/-- Groups children without a tag of its own. -/
def viewTag : String := "view"

/-- Statements of script. -/
def scriptTag : String := "script"

/-- The place where the caller's content goes. -/
def processChildNodesTag : String := "process_child_nodes"

/-- The variable that holds the source of the caller's content. -/
def childContentBinding : String := "__process_child_nodes"

/-- The variable that holds the bridge to the engine. -/
def bridgeBinding : String := "xview"

/-- What is added to a tag's name to find the view it stands for. -/
def viewExtension : String := ".xview"

/-- The language of generated code unless the settings name another. -/
def defaultLanguage : String := "lua"

/-- The namespace of XML Schema instances. -/
def xsiNamespace : String := "http://www.w3.org/2001/XMLSchema-instance"

/-- The attribute that says where the views of a namespace are. -/
def schemaLocation : String := "schemaLocation"

/-- The prefix of namespace declarations. -/
def xmlnsPrefix : String := "xmlns"

/-- The text with its ASCII capitals written small. -/
def lowerAscii (s : String) : String :=
  String.ofList (s.toList.map Char.toLower)

/-- Whether two names are equal but for the case of ASCII letters. -/
def sameName (a b : String) : Bool :=
  lowerAscii a == lowerAscii b

/-- Whether `target` is the template namespace. -/
def isTemplateNamespace (target : String) : Bool :=
  sameName target templateNamespace

end ScriptedViews.Vocabulary

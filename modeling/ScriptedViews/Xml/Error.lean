set_option autoImplicit false

/-! # Errors in a document -/

namespace ScriptedViews.Xml

/-- Why a text is no document. -/
inductive XmlError where
  /-- `xmlns:xml` with another URI than its own. -/
  | invalidXmlPrefixUri
  /-- The URI of `xml` bound to another prefix, or as the default. -/
  | unexpectedXmlUri
  /-- The URI of `xmlns` bound to anything. -/
  | unexpectedXmlnsUri
  /-- An element whose prefix is `xmlns`. -/
  | invalidElementNamePrefix
  /-- A prefix that one element binds twice. -/
  | duplicatedNamespace
  /-- A prefix that nothing in scope binds. -/
  | unknownNamespace
  /-- An end tag that closes another element than the innermost open one. -/
  | unexpectedCloseTag
  /-- A reference to an entity that is none of the five predefined ones. -/
  | unknownEntityReference
  /-- Two attributes of one element with the same namespace and local name. -/
  | duplicatedAttribute
  /-- A document without any element. -/
  | noRootNode
  /-- A document that ends inside its root. -/
  | unclosedRootNode
  /-- A document type declaration. -/
  | dtdDetected
  /-- Anything else that the grammar does not allow. -/
  | malformed
deriving DecidableEq, Repr, Inhabited

end ScriptedViews.Xml

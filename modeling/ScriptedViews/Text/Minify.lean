import ScriptedViews.Text.Blank

set_option autoImplicit false

/-! # Minified text

Formatting white space in a text node is noise, but line breaks between lines of text are not.
Minifying trims every line and drops the blank ones. -/

namespace ScriptedViews.Text

/-- The lines of a text that have something on them, each one trimmed. Carriage returns are
    removed first, wherever they stand, so only a line feed ends a line. -/
def filledLines (cs : List Char) : List (List Char) :=
  ((splitOn '\n' (cs.filter (· ≠ '\r'))).map trim).filter (fun line => !line.isEmpty)

/-- The filled lines of `s`, with one line feed between each two. -/
def minify (s : String) : String :=
  String.ofList (List.intercalate ['\n'] (filledLines s.toList))

end ScriptedViews.Text

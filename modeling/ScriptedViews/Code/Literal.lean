set_option autoImplicit false

/-! # Literals of generated code

Text that generated code holds as a string literal in double quotes. -/

namespace ScriptedViews.Code

/-- How one character stands between double quotes: a backslash, a double quote and the two line
    ends are escaped, all else stands for itself. -/
def escapeChar : Char → List Char
  | '\\' => ['\\', '\\']
  | '"' => ['\\', '"']
  | '\n' => ['\\', 'n']
  | '\r' => ['\\', 'r']
  | c => [c]

/-- How text stands between double quotes. -/
def escape (s : String) : String :=
  String.ofList (s.toList.flatMap escapeChar)

/-- The literal of a text. -/
def literal (s : String) : String :=
  "\"" ++ escape s ++ "\""

end ScriptedViews.Code

import ScriptedViews.Script.Grammar

set_option autoImplicit false

/-! # Chunks

Source comes with a name, which reports show in a short form: a name that starts with a sign is the
name of a file or of anything else, and any other is the source itself. -/

namespace ScriptedViews.Script

/-- How long the short form of a name may be, with the byte that ends it. -/
def maxTitle : Nat := 60

/-- The source itself as a name: its first line, or the start of it. -/
def quotedTitle (source : Bytes) : Bytes :=
  let room := maxTitle - 15
  let line := source.takeWhile (· != 0x0a)
  let shown := if line.length = source.length ∧ source.length < room then source
    else line.take room ++ ascii "..."
  ascii "[string \"" ++ shown ++ ascii "\"]"

/-- The short form of a name. -/
def chunkTitle (name : Bytes) : Bytes :=
  match name with
  | [] => quotedTitle []
  | mark :: rest =>
    if mark = 0x3d then rest.take (maxTitle - 1)
    else if mark = 0x40 then
      if rest.length < maxTitle then rest
      else ascii "..." ++ rest.drop (rest.length - (maxTitle - 4))
    else quotedTitle name

/-- A place in source. -/
structure Site where
  /-- The short form of the source's name. -/
  chunk : Bytes
  line : Nat
deriving Repr, DecidableEq

/-- A report about a place. -/
def Site.report (s : Site) (message : Bytes) : Bytes :=
  s.chunk ++ ascii (":" ++ toString s.line ++ ": ") ++ message

/-- The text that reports why source with this short name is no program. -/
def ReadError.report (title : Bytes) : ReadError → Bytes
  | .malformed line reason => Site.report ⟨title, line⟩ (utf8 reason)
  | .tooDeep line => Site.report ⟨title, line⟩ (utf8 "C stack overflow")

end ScriptedViews.Script

import ScriptedViews.Script.Value

set_option autoImplicit false

/-! # Sinks

Where the output of renders goes. A sink keeps what is written to it, write by write; writing
nothing is no write. A sink with a limit takes no write that would go beyond it. -/

namespace ScriptedViews

/-- Where output goes. -/
structure Sink where
  /-- The most bytes that the sink takes. -/
  limit : Option Nat := none
  /-- What was written, the last write first. -/
  writes : List Script.Bytes := []
deriving Inhabited

namespace Sink

/-- Everything that was written. -/
def bytes (s : Sink) : Script.Bytes :=
  s.writes.reverse.flatten

/-- Whether there is room for some more bytes. -/
def hasRoom (s : Sink) (count : Nat) : Bool :=
  match s.limit with
  | none => true
  | some limit => s.bytes.length + count ≤ limit

/-- Write some bytes, or none of them if there is no room. -/
def write? (s : Sink) (bytes : Script.Bytes) : Option Sink :=
  if bytes.isEmpty then some s
  else if s.hasRoom bytes.length then some { s with writes := bytes :: s.writes }
  else none

/-- What was written after the first `count` writes. -/
def since (s : Sink) (count : Nat) : Sink :=
  { writes := s.writes.take (s.writes.length - count) }

/-- The text that describes a sink. -/
def description : String :=
  "OutputSink \x7b .. \x7d"

end Sink

end ScriptedViews

import ScriptedViews.Script.Context

set_option autoImplicit false

/-! # Executables

Code that can run in any context. It is either compiled once, as a function that takes its context
as the table of its global variables, or kept as source and read again for each context. -/

namespace ScriptedViews.Script

/-- Code that can run in any context. -/
inductive Executable where
  /-- A function of the context. -/
  | compiled (f : Value)
  /-- The name of the code and its source. -/
  | interpreted (name source : String)
deriving Inhabited

/-- Whether the code has been compiled. -/
def Executable.isCompiled : Executable → Bool
  | .compiled _ => true
  | .interpreted _ _ => false

/-- The source of the function that some source is compiled into. -/
def functionSource (source : String) : Bytes :=
  ascii "return function(_ENV) " ++ utf8 source ++ ascii "\nend"

/-- The error that source raises that is no program. -/
def ReadError.toRaised (title : Bytes) (e : ReadError) : RaisedError :=
  let report := Text.decodeLossy ⟨(e.report title).toArray⟩
  match e with
  | .malformed _ _ => .malformed report
  | .tooDeep _ => .runtime report

namespace Heap

variable {ω : Type}

/-- Read source for the host. The name shows as it is. -/
def readSource (h : Heap ω) (levels : Nat) (name : String) (source : Bytes)
    (environment : Value) : Except RaisedError (Value × Heap ω) :=
  let chunk := ascii "@" ++ utf8 name
  if chunk.contains 0 then .error (.runtime "invalid chunk name")
  else
    match h.readChunk levels chunk source environment with
    | .ok r => .ok r
    | .error e => .error (e.toRaised (chunkTitle chunk))

/-- The function to call to run code in a context, and what to call it with. -/
def callOf (h : Heap ω) (levels : Nat) (x : Executable) (context : Nat) :
    Except RaisedError (Value × List Value × Heap ω) :=
  match x with
  | .compiled f => .ok (f, [.table context], h)
  | .interpreted name source =>
    match h.readSource levels name (utf8 source) (.table context) with
    | .ok (f, h) => .ok (f, [], h)
    | .error e => .error e

end Heap

end ScriptedViews.Script

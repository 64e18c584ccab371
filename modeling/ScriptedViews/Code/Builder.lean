import ScriptedViews.Code.Literal
import ScriptedViews.Vocabulary

set_option autoImplicit false

/-! # Code under construction

Generated code is written piece by piece. Literal output is held back until a statement follows
or the code is finished, so that neighbouring pieces of output become one print. -/

namespace ScriptedViews.Code

/-- Code written so far, and the literal output that waits to be printed. -/
structure Builder where
  code : String := ""
  pending : String := ""
deriving DecidableEq, Repr, Inhabited

/-- The statement that prints the value of an expression. -/
def printStatement (expression : String) : String :=
  Vocabulary.bridgeBinding ++ ":print(" ++ expression ++ ");\n"

/-- What stands before and after the first mark that opens an expression. -/
def splitOpen : List Char → Option (List Char × List Char)
  | [] => none
  | '$' :: '\x7b' :: cs => some ([], cs)
  | c :: cs => (splitOpen cs).map fun p => (c :: p.1, p.2)

/-- What stands before and after the first closing brace. -/
def splitClose : List Char → Option (List Char × List Char)
  | [] => none
  | '\x7d' :: cs => some ([], cs)
  | c :: cs => (splitClose cs).map fun p => (c :: p.1, p.2)

theorem length_lt_of_splitOpen {cs a b : List Char} (h : splitOpen cs = some (a, b)) :
    b.length < cs.length := by
  fun_induction splitOpen cs generalizing a b with
  | case1 => simp at h
  | case2 cs =>
    simp only [Option.some.injEq, Prod.mk.injEq] at h
    simp only [List.length_cons, ← h.2]
    omega
  | case3 c cs _ ih =>
    obtain ⟨⟨a', b'⟩, hp, heq⟩ := Option.map_eq_some_iff.1 h
    simp only [Prod.mk.injEq] at heq
    have := ih hp
    simp only [List.length_cons, ← heq.2]; omega

theorem length_lt_of_splitClose {cs a b : List Char} (h : splitClose cs = some (a, b)) :
    b.length < cs.length := by
  fun_induction splitClose cs generalizing a b with
  | case1 => simp at h
  | case2 cs => simp only [Option.some.injEq, Prod.mk.injEq] at h; simp [← h.2]
  | case3 c cs _ ih =>
    obtain ⟨⟨a', b'⟩, hp, heq⟩ := Option.map_eq_some_iff.1 h
    simp only [Prod.mk.injEq] at heq
    have := ih hp
    simp only [List.length_cons, ← heq.2]; omega

namespace Builder

/-- Turn the output that waits into one print. -/
def flush (b : Builder) : Builder :=
  if b.pending = "" then b
  else { code := b.code ++ printStatement (literal b.pending), pending := "" }

/-- Append a statement, after all output that waits. -/
def statement (b : Builder) (code : String) : Builder :=
  let b := b.flush
  { b with code := b.code ++ code }

/-- Let more literal output wait. -/
def hold (b : Builder) (cs : List Char) : Builder :=
  { b with pending := b.pending ++ String.ofList cs }

/-- Append output. Each expression between an opening mark and the first closing brace after it
    becomes a print of its own; a mark that is never closed is literal. -/
def outputChars (b : Builder) (cs : List Char) : Builder :=
  match _opened : splitOpen cs with
  | none => b.hold cs
  | some (before, rest) =>
    match _closed : splitClose rest with
    | none => b.hold cs
    | some (expression, rest') =>
      outputChars ((b.hold before).statement (printStatement (String.ofList expression))) rest'
termination_by cs.length
decreasing_by
  have := length_lt_of_splitOpen _opened
  have := length_lt_of_splitClose _closed
  omega

/-- Append output, with its expressions printed in place. -/
def output (b : Builder) (text : String) : Builder :=
  b.outputChars text.toList

/-- The finished code. -/
def finish (b : Builder) : String :=
  b.flush.code

end Builder

end ScriptedViews.Code

import ScriptedViews.Proofs.Code.Interpolation
import ScriptedViews.Proofs.Code.Snippets

set_option autoImplicit false

/-! # Code of text with expressions in it

Text that is put together from literals and snippets in marks is code that prints the ones and the
others in turn: the scan for the marks finds them where they were put, and a literal is printed like
any other expression, but for an empty one, which is not printed. -/

namespace ScriptedViews.Code

/-- Text with expressions in it: literals and expressions in turn, and a literal at the end. No mark
    that opens an expression stands in a literal, nor one in the last literal that is closed there,
    and no closing brace in an expression. -/
structure Template (levels : Nat) where
  /-- Each expression with the literal before it. -/
  parts : List (String × Snippet levels)
  last : String
  literals : ∀ p ∈ parts, ¬ openMark <:+: p.1.toList
  expressions : ∀ p ∈ parts, '\x7d' ∉ p.2.source.toList
  lastLiteral : ¬ HasExpression last.toList

namespace Template

variable {levels : Nat}

/-- Literals and expressions, the latter with their marks, in front of some text. -/
def textFrom (parts : List (String × Snippet levels)) (last : String) : String :=
  match parts with
  | [] => last
  | p :: parts => p.1 ++ ("$\x7b" ++ (p.2.source ++ ("\x7d" ++ textFrom parts last)))

/-- The text itself. -/
def text (t : Template levels) : String :=
  textFrom t.parts t.last

/-- The literals and expressions of a text. -/
def alternation (parts : List (String × Snippet levels)) (last : String) : Alternation :=
  ⟨parts.map fun p => (p.1.toList, p.2.source.toList), last.toList⟩

theorem glue_alternation (parts : List (String × Snippet levels)) (last : String) :
    (alternation parts last).glue = (textFrom parts last).toList := by
  induction parts with
  | nil => simp [alternation, Alternation.glue, textFrom]
  | cons p parts ih =>
    have hcons : alternation (p :: parts) last
        = (alternation parts last).cons p.1.toList p.2.source.toList := rfl
    rw [hcons, Alternation.glue_cons, ih, textFrom]
    simp

/-- The scan for the marks finds the literals and expressions of a text. -/
theorem alternate_text (t : Template levels) :
    alternate t.text.toList = alternation t.parts t.last := by
  have hcuts : (alternation t.parts t.last).Cuts t.text.toList :=
    { glue_eq := glue_alternation t.parts t.last
      literals := by
        intro p hp
        obtain ⟨q, hq, rfl⟩ := List.mem_map.1 hp
        exact t.literals q hq
      expressions := by
        intro p hp
        obtain ⟨q, hq, rfl⟩ := List.mem_map.1 hp
        exact t.expressions q hq
      last := t.lastLiteral }
  exact hcuts.eq_alternate.symm

/-- The print of a literal, unless it is empty. -/
def literalSnippets (levels : Nat) (text : String) : List (Snippet (levels + 1)) :=
  if text = "" then [] else [.ofText levels text]

/-- What is printed, one expression after the other. -/
def snippetsFrom (parts : List (String × Snippet (levels + 1))) (last : String) :
    List (Snippet (levels + 1)) :=
  match parts with
  | [] => literalSnippets levels last
  | p :: parts => literalSnippets levels p.1 ++ p.2 :: snippetsFrom parts last

theorem printSources_literalSnippets_append (text : String) (es : List (Snippet (levels + 1))) :
    Snippet.printSources (literalSnippets levels text ++ es)
      = printText text ++ Snippet.printSources es := by
  unfold literalSnippets printText
  split
  · rw [String.empty_append]
    rfl
  · rfl

/-- The code of a text prints its literals and expressions. -/
theorem build_output (t : Template (levels + 1)) :
    build [.output t.text] = Snippet.printSources (snippetsFrom t.parts t.last) := by
  have hemit (parts : List (String × Snippet (levels + 1))) (last : String) :
      emit (alternation parts last).tokens = Snippet.printSources (snippetsFrom parts last) := by
    induction parts with
    | nil =>
      have hlast : Snippet.printSources (literalSnippets levels last ++ [])
          = printText last ++ Snippet.printSources [] := printSources_literalSnippets_append last []
      rw [List.append_nil] at hlast
      rw [snippetsFrom, hlast, Snippet.printSources, String.append_empty, ← emit_literal_nil]
      simp [alternation, Alternation.tokens]
    | cons p parts ih =>
      have hcons : alternation (p :: parts) last
          = (alternation parts last).cons p.1.toList p.2.source.toList := rfl
      rw [hcons, Alternation.tokens_cons, emit_literal_expression, ih, snippetsFrom,
        printSources_literalSnippets_append, Snippet.printSources, String.append_assoc]
      simp
  rw [build, Builder.foldl_call_eq, Builder.finish_tokens_new, List.flatMap_singleton, Call.tokens,
    alternate_text, hemit]

end Template

end ScriptedViews.Code

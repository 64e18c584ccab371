import Mathlib.Data.List.Forall2
import ScriptedViews.Proofs.Code.Tokens

set_option autoImplicit false

/-! # Expressions inside text

Output is literal text with expressions in it. Said without the scan that finds them: the literals
and the expressions with their marks make up the text, an expression ends at the first closing brace
after its mark, and what is left over at the end has no mark that is closed later. There is one way
to cut a text like that, and the scan finds it. -/

namespace ScriptedViews.Code

/-! ## Cutting text -/

/-- The mark that opens an expression. -/
def openMark : List Char :=
  ['$', '\x7b']

/-- Whether an opening mark with a closing brace after it stands somewhere in a text. -/
def HasExpression (cs : List Char) : Prop :=
  ∃ a b c, cs = a ++ openMark ++ b ++ '\x7d' :: c

/-- Literals and expressions in turn, with a literal at the end. -/
structure Alternation where
  /-- Each expression with the literal before it. -/
  parts : List (List Char × List Char)
  last : List Char

namespace Alternation

/-- The text that is cut: the literals, and the expressions with their marks. -/
def glue (a : Alternation) : List Char :=
  a.parts.flatMap (fun p => p.1 ++ openMark ++ p.2 ++ ['\x7d']) ++ a.last

/-- The literals and expressions as tokens. -/
def tokens (a : Alternation) : List Token :=
  a.parts.flatMap (fun p => [.literal (String.ofList p.1), .expression (String.ofList p.2)])
    ++ [.literal (String.ofList a.last)]

/-- The alternation with one more expression in front. -/
def cons (before expression : List Char) (a : Alternation) : Alternation :=
  ⟨(before, expression) :: a.parts, a.last⟩

/-- Whether an alternation cuts a text as it has to be cut. -/
structure Cuts (a : Alternation) (cs : List Char) : Prop where
  glue_eq : a.glue = cs
  literals : ∀ p ∈ a.parts, ¬ openMark <:+: p.1
  expressions : ∀ p ∈ a.parts, '\x7d' ∉ p.2
  last : ¬ HasExpression a.last

theorem glue_cons (before expression : List Char) (a : Alternation) :
    (a.cons before expression).glue
      = before ++ '$' :: '\x7b' :: (expression ++ '\x7d' :: a.glue) := by
  simp [glue, cons, openMark]

theorem tokens_cons (before expression : List Char) (a : Alternation) :
    (a.cons before expression).tokens
      = .literal (String.ofList before) :: .expression (String.ofList expression) :: a.tokens := by
  simp [tokens, cons]

end Alternation

/-! ## What the scan finds -/

theorem splitOpen_append {a : List Char} (h : ¬ openMark <:+: a) (b : List Char) :
    splitOpen (a ++ '$' :: '\x7b' :: b) = some (a, b) := by
  induction a with
  | nil => rfl
  | cons c a ih =>
    have ha : ¬ openMark <:+: a := fun hi => h (hi.trans (List.suffix_cons c a).isInfix)
    have hne : ¬ (c = '$' ∧ ∃ r, a ++ '$' :: '\x7b' :: b = '\x7b' :: r) := by
      rintro ⟨rfl, r, hr⟩
      cases a with
      | nil => simp at hr
      | cons d a =>
        simp only [List.cons_append, List.cons.injEq] at hr
        exact h ⟨[], a, by simp [openMark, hr.1]⟩
    rw [List.cons_append, splitOpen]
    · rw [ih ha]; rfl
    · intro r hc hr
      exact hne ⟨hc, r, hr⟩

theorem append_of_splitOpen {cs a b : List Char} (h : splitOpen cs = some (a, b)) :
    cs = a ++ '$' :: '\x7b' :: b ∧ ¬ openMark <:+: a := by
  fun_induction splitOpen cs generalizing a b with
  | case1 => simp at h
  | case2 cs =>
    simp only [Option.some.injEq, Prod.mk.injEq] at h
    obtain ⟨rfl, rfl⟩ := h
    exact ⟨rfl, by simp [openMark]⟩
  | case3 c cs hne ih =>
    obtain ⟨⟨a', b'⟩, hp, heq⟩ := Option.map_eq_some_iff.1 h
    simp only [Prod.mk.injEq] at heq
    obtain ⟨rfl, rfl⟩ := heq
    obtain ⟨hcs, ha⟩ := ih hp
    refine ⟨by rw [hcs, List.cons_append], fun hi => ?_⟩
    rcases List.infix_cons_iff.1 hi with hpre | hin
    · obtain ⟨r, hr⟩ := hpre
      simp only [openMark, List.cons_append, List.nil_append, List.cons.injEq] at hr
      obtain ⟨rfl, hr⟩ := hr
      exact hne (r ++ '$' :: '\x7b' :: b') rfl (by rw [hcs, ← hr, List.cons_append])
    · exact ha hin

theorem not_infix_of_splitOpen {cs : List Char} (h : splitOpen cs = none) :
    ¬ openMark <:+: cs := by
  rintro ⟨a, b, rfl⟩
  induction a with
  | nil => simp [openMark, splitOpen] at h
  | cons c a ih =>
    simp only [List.cons_append] at h
    rw [splitOpen.eq_def] at h
    split at h
    · simp at *
    · simp at h
    · rename_i heq
      simp only [List.cons.injEq] at heq
      obtain ⟨rfl, rfl⟩ := heq
      exact ih (Option.map_eq_none_iff.1 h)

theorem splitClose_append {a : List Char} (h : '\x7d' ∉ a) (b : List Char) :
    splitClose (a ++ '\x7d' :: b) = some (a, b) := by
  induction a with
  | nil => rfl
  | cons c a ih =>
    simp only [List.mem_cons, not_or] at h
    rw [List.cons_append, splitClose]
    · rw [ih h.2]; rfl
    · exact fun hc => h.1 hc.symm

theorem append_of_splitClose {cs a b : List Char} (h : splitClose cs = some (a, b)) :
    cs = a ++ '\x7d' :: b ∧ '\x7d' ∉ a := by
  fun_induction splitClose cs generalizing a b with
  | case1 => simp at h
  | case2 cs =>
    simp only [Option.some.injEq, Prod.mk.injEq] at h
    obtain ⟨rfl, rfl⟩ := h
    exact ⟨rfl, List.not_mem_nil⟩
  | case3 c cs hne ih =>
    obtain ⟨⟨a', b'⟩, hp, heq⟩ := Option.map_eq_some_iff.1 h
    simp only [Prod.mk.injEq] at heq
    obtain ⟨rfl, rfl⟩ := heq
    obtain ⟨hcs, ha⟩ := ih hp
    refine ⟨by rw [hcs, List.cons_append], ?_⟩
    simp only [List.mem_cons, not_or]
    exact ⟨fun hc => hne hc.symm, ha⟩

theorem not_mem_of_splitClose {cs : List Char} (h : splitClose cs = none) : '\x7d' ∉ cs := by
  fun_induction splitClose cs with
  | case1 => exact List.not_mem_nil
  | case2 cs => simp at h
  | case3 c cs hne ih =>
    simp only [List.mem_cons, not_or]
    exact ⟨fun hc => hne hc.symm, ih (Option.map_eq_none_iff.1 h)⟩

/-- A text without an opening mark has no expression. -/
theorem not_hasExpression_of_splitOpen {cs : List Char} (h : splitOpen cs = none) :
    ¬ HasExpression cs := by
  rintro ⟨a, b, c, rfl⟩
  exact not_infix_of_splitOpen h ⟨a, b ++ '\x7d' :: c, by simp⟩

/-- Nor has one whose first opening mark is never closed: any later mark stands after the first. -/
theorem not_hasExpression_of_splitClose {cs before rest : List Char}
    (ho : splitOpen cs = some (before, rest)) (hc : splitClose rest = none) :
    ¬ HasExpression cs := by
  rintro ⟨a, b, c, hcs⟩
  obtain ⟨hcs', hbefore⟩ := append_of_splitOpen ho
  rw [hcs'] at hcs
  simp only [openMark, List.append_assoc, List.cons_append, List.nil_append] at hcs
  rcases List.append_eq_append_iff.1 hcs with ⟨m, rfl, hm⟩ | ⟨m, rfl, hm⟩
  · have hlater : '\x7d' ∈ '$' :: '\x7b' :: rest := by rw [hm]; simp
    simp only [List.mem_cons] at hlater
    rcases hlater with h | h | h
    · exact absurd h (by decide)
    · exact absurd h (by decide)
    · exact not_mem_of_splitClose hc h
  · cases m with
    | nil =>
      simp only [List.nil_append, List.cons.injEq, true_and] at hm
      exact not_mem_of_splitClose hc (by rw [← hm]; simp)
    | cons d m =>
      cases m with
      | nil =>
        simp only [List.cons_append, List.nil_append, List.cons.injEq] at hm
        exact absurd hm.2.1 (by decide)
      | cons e m =>
        simp only [List.cons_append, List.cons.injEq] at hm
        obtain ⟨rfl, rfl, -⟩ := hm
        exact hbefore ⟨a, m, by simp [openMark]⟩

/-- A text in which something precedes a closed mark has an expression, wherever the mark is. -/
theorem hasExpression_of_splitClose {cs before rest expression rest' : List Char}
    (ho : splitOpen cs = some (before, rest)) (hc : splitClose rest = some (expression, rest')) :
    HasExpression cs := by
  refine ⟨before, expression, rest', ?_⟩
  rw [(append_of_splitOpen ho).1, (append_of_splitClose hc).1]
  simp [openMark]

/-- The literals and expressions that the scan finds in a text. -/
def alternate (cs : List Char) : Alternation :=
  match _opened : splitOpen cs with
  | none => ⟨[], cs⟩
  | some (before, rest) =>
    match _closed : splitClose rest with
    | none => ⟨[], cs⟩
    | some (expression, rest') => (alternate rest').cons before expression
termination_by cs.length
decreasing_by
  have := length_lt_of_splitOpen _opened
  have := length_lt_of_splitClose _closed
  omega

theorem alternate_of_not_hasExpression {cs : List Char} (h : ¬ HasExpression cs) :
    alternate cs = ⟨[], cs⟩ := by
  rw [alternate]
  split
  · rfl
  · rename_i before rest ho
    split
    · rfl
    · rename_i expression rest' hc
      exact absurd (hasExpression_of_splitClose ho hc) h

theorem alternate_append {before expression : List Char} (hb : ¬ openMark <:+: before)
    (he : '\x7d' ∉ expression) (rest : List Char) :
    alternate (before ++ '$' :: '\x7b' :: (expression ++ '\x7d' :: rest))
      = (alternate rest).cons before expression := by
  rw [alternate]
  split
  · rename_i ho
    rw [splitOpen_append hb] at ho
    exact absurd ho (by simp)
  · rename_i before' rest' ho
    rw [splitOpen_append hb] at ho
    simp only [Option.some.injEq, Prod.mk.injEq] at ho
    obtain ⟨rfl, rfl⟩ := ho
    split
    · rename_i hc
      rw [splitClose_append he] at hc
      exact absurd hc (by simp)
    · rename_i expression' rest'' hc
      rw [splitClose_append he] at hc
      simp only [Option.some.injEq, Prod.mk.injEq] at hc
      obtain ⟨rfl, rfl⟩ := hc
      rfl

/-- The scan cuts a text as it has to be cut. -/
theorem alternate_cuts (cs : List Char) : (alternate cs).Cuts cs := by
  fun_induction alternate cs with
  | case1 cs ho =>
    exact ⟨by simp [Alternation.glue], by simp, by simp, not_hasExpression_of_splitOpen ho⟩
  | case2 cs before rest ho hc =>
    exact ⟨by simp [Alternation.glue], by simp, by simp, not_hasExpression_of_splitClose ho hc⟩
  | case3 cs before rest ho expression rest' hc ih =>
    obtain ⟨hcs, hbefore⟩ := append_of_splitOpen ho
    obtain ⟨hrest, hexpression⟩ := append_of_splitClose hc
    refine ⟨?_, ?_, ?_, ih.last⟩
    · rw [Alternation.glue_cons, ih.glue_eq, hcs, hrest]
    · intro p hp
      rcases List.mem_cons.1 hp with rfl | hp
      · exact hbefore
      · exact ih.literals p hp
    · intro p hp
      rcases List.mem_cons.1 hp with rfl | hp
      · exact hexpression
      · exact ih.expressions p hp

/-- There is no other way to cut a text. -/
theorem Alternation.Cuts.eq_alternate {a : Alternation} {cs : List Char} (h : a.Cuts cs) :
    a = alternate cs := by
  obtain ⟨parts, last⟩ := a
  induction parts generalizing cs with
  | nil =>
    have hglue := h.glue_eq
    simp only [glue, List.flatMap_nil, List.nil_append] at hglue
    rw [← hglue, alternate_of_not_hasExpression h.last]
  | cons p parts ih =>
    have hrest : Cuts ⟨parts, last⟩ (glue ⟨parts, last⟩) :=
      ⟨rfl, fun q hq => h.literals q (List.mem_cons_of_mem p hq),
        fun q hq => h.expressions q (List.mem_cons_of_mem p hq), h.last⟩
    have hglue : (cons p.1 p.2 ⟨parts, last⟩).glue = cs := h.glue_eq
    rw [← hglue, glue_cons,
      alternate_append (h.literals p List.mem_cons_self) (h.expressions p List.mem_cons_self),
      ← ih hrest]
    rfl

/-! ## Tokens of calls -/

/-- The tokens that a call adds. -/
inductive Call.Adds : Call → List Token → Prop where
  | output {text : String} {a : Alternation} (h : a.Cuts text.toList) :
    Adds (.output text) a.tokens
  | statement (code : String) : Adds (.statement code) [.statement code]

/-- The tokens that a call adds, as the scan finds them. -/
def Call.tokens : Call → List Token
  | .output text => (alternate text.toList).tokens
  | .statement code => [.statement code]

theorem Call.adds_iff {c : Call} {ts : List Token} : c.Adds ts ↔ ts = c.tokens := by
  constructor
  · intro h
    cases h with
    | output h => rw [h.eq_alternate]; rfl
    | statement code => rfl
  · rintro rfl
    cases c with
    | output text => exact .output (alternate_cuts text.toList)
    | statement code => exact .statement code

theorem Call.forall₂_adds_iff {calls : List Call} {tss : List (List Token)} :
    List.Forall₂ Call.Adds calls tss ↔ tss = calls.map Call.tokens := by
  induction calls generalizing tss with
  | nil => simp
  | cons c calls ih =>
    rw [List.forall₂_cons_left_iff, List.map_cons]
    constructor
    · rintro ⟨ts, tss, hts, htss, rfl⟩
      rw [Call.adds_iff.1 hts, ih.1 htss]
    · rintro rfl
      exact ⟨c.tokens, _, Call.adds_iff.2 rfl, ih.2 rfl, rfl⟩

/-- Output is read as the tokens that the scan finds in it, whatever waits in the builder. -/
theorem Builder.outputChars_eq (b : Builder) (cs : List Char) :
    b.outputChars cs = b.tokens (alternate cs).tokens := by
  fun_induction Builder.outputChars b cs with
  | case1 b cs ho =>
    rw [alternate_of_not_hasExpression (not_hasExpression_of_splitOpen ho)]
    rfl
  | case2 b cs before rest ho hc =>
    rw [alternate_of_not_hasExpression (not_hasExpression_of_splitClose ho hc)]
    rfl
  | case3 b cs before rest ho expression rest' hc ih =>
    obtain ⟨hcs, hbefore⟩ := append_of_splitOpen ho
    obtain ⟨hrest, hexpression⟩ := append_of_splitClose hc
    rw [ih, hcs, hrest, alternate_append hbefore hexpression, Alternation.tokens_cons]
    rfl

theorem Builder.call_eq (b : Builder) (c : Call) : b.call c = b.tokens c.tokens := by
  cases c with
  | output text => exact b.outputChars_eq text.toList
  | statement code => rfl

theorem Builder.foldl_call_eq (b : Builder) (calls : List Call) :
    calls.foldl Builder.call b = b.tokens (calls.flatMap Call.tokens) := by
  induction calls generalizing b with
  | nil => rfl
  | cons c calls ih =>
    rw [List.foldl_cons, ih, Builder.call_eq, List.flatMap_cons, Builder.tokens_append]

/-- Text without an expression that is closed inside it adds one literal. -/
theorem Call.adds_of_not_hasExpression {text : String} (h : ¬ HasExpression text.toList) :
    (Call.output text).Adds [.literal text] := by
  have ha : (Alternation.mk [] text.toList).Cuts text.toList :=
    ⟨by simp [Alternation.glue], by simp, by simp, h⟩
  have := Call.Adds.output ha
  simpa [Alternation.tokens] using this

/-- The finished code is the emission of the tokens of the calls, one call after the other. The
    tokens of a call are told by that call alone and in one way, so an expression that one call
    leaves open is literal text, whatever the later calls hold. -/
theorem build_eq_emit (calls : List Call) :
    (∃ tss : List (List Token),
      List.Forall₂ Call.Adds calls tss
        ∧ (∀ tss', List.Forall₂ Call.Adds calls tss' → tss' = tss)
        ∧ build calls = emit tss.flatten)
      ∧ ∀ text : String, ¬ HasExpression text.toList →
        ∀ ts, (Call.output text).Adds ts ↔ ts = [.literal text] := by
  constructor
  · refine ⟨calls.map Call.tokens, Call.forall₂_adds_iff.2 rfl, ?_, ?_⟩
    · intro tss' h
      exact Call.forall₂_adds_iff.1 h
    · rw [build, Builder.foldl_call_eq, Builder.finish_tokens_new, List.flatMap_def]
  · intro text h ts
    rw [Call.adds_iff, ← Call.adds_iff.1 (Call.adds_of_not_hasExpression h)]

example : build [.output "a$\x7b1", .output "+1\x7db"]
    = "xview:print(\"a$\x7b1+1\x7db\");\n" := by cbv

end ScriptedViews.Code

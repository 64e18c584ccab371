import ScriptedViews.Proofs.Code.Reading
import ScriptedViews.Proofs.Script.Inside

set_option autoImplicit false

/-! # Expressions inside generated code

Expressions of a view are pasted into generated code as they stand. A snippet is source that is one
expression on its own, and it is read as the same expression where it is pasted, if a closing
parenthesis or a blank follows it. -/

namespace ScriptedViews.Code

open Script (Bytes utf8 utf8_append tokensFrom Expr Stmt Scans scanToken_literal)
open Script.Grammar (Phrase Cursor Setting Surroundings readsInside enoughFuel)

/-! ## Snippets -/

/-- Source that is one expression on its own: it holds no comment, it is read up to its end with so
    many levels left, and it does not use the arguments of a function around it. -/
structure Snippet (levels : Nat) where
  source : String
  tokens : List Script.Token
  /-- How many line ends it holds. -/
  lines : Nat
  tree : Expr
  scans : Scans 1 (utf8 source) tokens (lines + 1)
  reads : ∃ last, Reads (Script.Grammar.expression (enoughFuel (tokens ++ [stopToken (lines + 1)]))
    { isVararg := false, levels } 0) ⟨tokens ++ [stopToken (lines + 1)], 1⟩ tree
      ⟨[stopToken (lines + 1)], last⟩

/-- The line that a snippet ends on, if it begins on the first one. -/
def Snippet.stop {levels : Nat} (e : Snippet levels) : Nat :=
  e.lines + 1

theorem reads_accept_of_ne {s : Script.Sign} {t : Script.Token} {ts : List Script.Token}
    {last : Nat} (h : t.symbol ≠ .sign s) :
    Reads (Script.Grammar.accept s) ⟨t :: ts, last⟩ false ⟨t :: ts, last⟩ := by
  have := Script.Grammar.Inside.run_accept s t ts last
  rwa [Script.Grammar.Inside.isSign_of_ne h] at this

namespace Snippet

variable {levels : Nat} (e : Snippet levels)

theorem not_reads_nil {s : Setting} {fuel line last : Nat} {a : Expr} {c : Cursor} :
    ¬ Reads (Script.Grammar.expression (fuel + 3) s 0) ⟨[stopToken line], last⟩ a c := by
  obtain ⟨isVararg, inLoop, locals, levels⟩ := s
  cases levels <;> exact fun h => by cases h

theorem not_reads_rightParen {s : Setting} {fuel line last : Nat} {ts : List Script.Token} {a : Expr}
    {c : Cursor} : ¬ Reads (Script.Grammar.expression (fuel + 3) s 0)
      ⟨signToken line .rightParen :: ts, last⟩ a c := by
  obtain ⟨isVararg, inLoop, locals, levels⟩ := s
  cases levels <;> exact fun h => by cases h

/-- An expression begins with a token, which is no closing parenthesis. -/
theorem exists_cons : ∃ t ts, e.tokens = t :: ts ∧ IsGood t ∧ t.symbol ≠ .sign .rightParen := by
  obtain ⟨source, tokens, lines, tree, scans, last, reads⟩ := e
  have hfuel : enoughFuel (tokens ++ [stopToken (lines + 1)]) = 16 * (tokens.length + 2) - 3 + 3 := by
    simp only [enoughFuel, List.length_append, List.length_singleton]
    omega
  rw [hfuel] at reads
  cases scans with
  | stop => exact absurd reads not_reads_nil
  | token blank comment scan good more rest =>
    refine ⟨_, _, rfl, good, fun h => ?_⟩
    cases h
    exact absurd reads not_reads_rightParen

theorem exists_cons_append (d : Nat) (v : Script.Token) (vs : List Script.Token) :
    ∃ t ts, e.tokens.map (Script.Token.shift d) ++ v :: vs = t :: ts ∧ IsGood t
      ∧ t.symbol ≠ .sign .rightParen := by
  obtain ⟨t, ts, ht, hgood, hparen⟩ := e.exists_cons
  exact ⟨t.shift d, _, by rw [ht, List.map_cons, List.cons_append], hgood, hparen⟩

/-- An expression is read inside other source as it is on its own. -/
theorem reads_inside {s : Setting} (hlevels : levels ≤ s.levels) (d : Nat) {sign : Script.Sign}
    (hsign : sign = .rightParen ∨ sign = .kwIf) (line : Nat) (rest : List Script.Token) {fuel : Nat}
    (hfuel : 16 * e.tokens.length + 3 ≤ fuel) :
    ∃ last, Reads (Script.Grammar.expression fuel s 0)
      ⟨e.tokens.map (Script.Token.shift d) ++ signToken line sign :: rest, 1 + d⟩ (e.tree.shift d)
      ⟨signToken line sign :: rest, last⟩ := by
  obtain ⟨last, hreads⟩ := e.reads
  have hcloses : sign ∈ Script.Grammar.closingSigns := by
    rcases hsign with rfl | rfl <;> decide
  let F : Surroundings := ⟨d, e.stop, .sign sign, line, rest, .inr ⟨sign, hcloses, rfl⟩⟩
  have hallows : Setting.Allows { isVararg := false, levels } s := ⟨by simp, hlevels⟩
  have henough : 16 * e.tokens.length + 3 ≤ enoughFuel (e.tokens ++ [stopToken e.stop]) := by
    simp only [enoughFuel, List.length_append, List.length_singleton]
    omega
  obtain ⟨left, last', hleft, -, haround⟩ :=
    (readsInside F _).expression 0 hallows henough hfuel 1 _ _ hreads
  have hnil : left = [] := by
    have := congrArg (fun c : Cursor => c.tokens.length) hleft
    simp only [Surroundings.alone, List.length_append, List.length_singleton] at this
    exact List.length_eq_zero_iff.1 (by omega)
  subst hnil
  exact ⟨last' + d, haround (.inl rfl)⟩

/-- The literal of a text. -/
def ofText (levels : Nat) (t : String) : Snippet (levels + 1) where
  source := literal t
  tokens := [textToken 1 t]
  lines := 0
  tree := .text (utf8 t)
  scans := by
    have hscan := scanToken_literal t 1 []
    obtain ⟨bs, hbs⟩ : ∃ bs, utf8 (literal t) = 0x22 :: bs :=
      ⟨_, by rw [Script.utf8_literal, List.cons_append]⟩
    rw [List.append_nil] at hscan
    rw [hbs] at hscan ⊢
    exact .token rfl (by simp) hscan (by simp) (by simp) (.stop rfl)
  reads := ⟨1, rfl⟩

/-! ## Prints -/

/-- The tokens of the print of an expression with so many lines above it. -/
def printTokens (d : Nat) : List Script.Token :=
  nameToken (d + 1) "xview" :: signToken (d + 1) .colon :: nameToken (d + 1) "print"
    :: signToken (d + 1) .leftParen :: (e.tokens.map (Script.Token.shift d)
      ++ [signToken (e.stop + d) .rightParen, signToken (e.stop + d) .semicolon])

/-- The print of an expression with so many lines above it, as a part of a program. -/
def printStmt (d : Nat) : Stmt :=
  bridgeCall (d + 1) "print" [e.tree.shift d]

theorem length_printTokens (d : Nat) : (e.printTokens d).length = e.tokens.length + 6 := by
  simp [printTokens]

theorem length_tokens_le : e.tokens.length + 6 ≤ (utf8 (printStatement e.source)).length := by
  have hsource := e.scans.length_le
  have hprint : (utf8 "xview:print(").length = 12 := by decide
  rw [utf8_printStatement]
  simp only [List.length_append]
  omega

/-- A print is scanned as its tokens, and the line ends with it. -/
theorem tokensFrom_printStatement (d fuel : Nat) {rest : Bytes} (h : rest.head? ≠ some 0x0d) :
    tokensFrom (fuel + 1 + (e.printTokens d).length) (d + 1)
        (utf8 (printStatement e.source) ++ rest)
      = e.printTokens d ++ tokensFrom (fuel + 1) (e.stop + d + 1) rest := by
  have hend : utf8 ");\n" ++ rest = 0x29 :: ((utf8 ");\n").tail ++ rest) := by
    rw [← List.cons_append]
    rfl
  rw [length_printTokens, utf8_printStatement, List.append_assoc, List.append_assoc,
    show fuel + 1 + (e.tokens.length + 6) = (fuel + 2 + 1 + e.tokens.length) + 4 by omega,
    tokensFrom_print, hend, Nat.add_comm d 1, e.scans.tokensFrom_append (.inl rfl) rfl d, ← hend,
    tokensFrom_semicolon, tokensFrom_newline h]
  simp [printTokens, stop, Nat.add_comm d 1]

/-- The print of an expression is read. -/
theorem reads_printStmt {s : Setting} (hlevels : levels ≤ s.levels) (d last : Nat) {fuel : Nat}
    (hfuel : 16 * e.tokens.length + 3 ≤ fuel) (t : Script.Token) (more : List Script.Token) :
    Reads (Script.Grammar.statement (fuel + 5) s) ⟨e.printTokens d ++ t :: more, last⟩
      ([e.printStmt d], 0) ⟨signToken (e.stop + d) .semicolon :: t :: more, e.stop + d⟩ := by
  let close := signToken (e.stop + d) .rightParen
  let after := signToken (e.stop + d) .semicolon :: t :: more
  let object : Expr := .name (d + 1) bridgeName
  let call : Expr := .methodCall (d + 1) (d + 1) object (utf8 "print") [e.tree.shift d]
  obtain ⟨u, us, hus, hgood, hparen⟩ := e.exists_cons_append d close after
  obtain ⟨last', hreads⟩ := e.reads_inside hlevels d (.inl rfl) (e.stop + d) after hfuel
  rw [Nat.add_comm 1 d, hus] at hreads
  have hexpressions : Reads (Script.Grammar.expressions (fuel + 1) s) ⟨u :: us, d + 1⟩
      [e.tree.shift d] ⟨close :: after, last'⟩ := by
    rw [Script.Grammar.expressions]
    exact hreads.bind (.andThen false _ rfl rfl)
  have harguments : Reads (Script.Grammar.arguments (fuel + 2) s)
      ⟨signToken (d + 1) .leftParen :: u :: us, d + 1⟩ [e.tree.shift d] ⟨after, e.stop + d⟩ := by
    rw [Script.Grammar.arguments]
    refine .andThen (signToken (d + 1) .leftParen) _ rfl ?_
    refine (reads_advance hgood).bind ((reads_accept_of_ne hparen).bind (hexpressions.bind ?_))
    exact .andThen () _ rfl rfl
  have hsuffixes : Reads (Script.Grammar.suffixes (fuel + 3) s object)
      ⟨signToken (d + 1) .colon :: nameToken (d + 1) "print" :: signToken (d + 1) .leftParen
        :: u :: us, d + 1⟩ call ⟨after, e.stop + d⟩ := by
    rw [Script.Grammar.suffixes]
    refine .andThen (signToken (d + 1) .colon) _ rfl (.andThen (signToken (d + 1) .colon) _ rfl ?_)
    refine .andThen () _ rfl (.andThen (utf8 "print") _ rfl (.andThen (d + 1) _ rfl ?_))
    refine .andThen (signToken (d + 1) .leftParen) _ rfl (harguments.bind ?_)
    rfl
  have hsuffixed : Reads (Script.Grammar.suffixed (fuel + 4) s)
      ⟨nameToken (d + 1) "xview" :: signToken (d + 1) .colon :: nameToken (d + 1) "print"
        :: signToken (d + 1) .leftParen :: u :: us, last⟩ call ⟨after, e.stop + d⟩ := by
    rw [Script.Grammar.suffixed]
    exact .andThen (nameToken (d + 1) "xview") _ rfl (.andThen (nameToken (d + 1) "xview") _ rfl
      (.andThen () _ rfl hsuffixes))
  have htokens : e.printTokens d ++ t :: more
      = nameToken (d + 1) "xview" :: signToken (d + 1) .colon :: nameToken (d + 1) "print"
        :: signToken (d + 1) .leftParen :: u :: us := by
    rw [← hus]
    simp [printTokens, close, after]
  rw [htokens, Script.Grammar.statement]
  refine .andThen (nameToken (d + 1) "xview") _ rfl (.andThen (nameToken (d + 1) "xview") _ rfl ?_)
  exact hsuffixed.bind (.andThen false _ rfl (.andThen false _ rfl rfl))

/-! ## Several prints -/

/-- The code that prints some expressions, one after the other. -/
def printSources : List (Snippet levels) → String
  | [] => ""
  | e :: es => printStatement e.source ++ printSources es

/-- The tokens of some prints with so many lines above them. -/
def allTokens : Nat → List (Snippet levels) → List Script.Token
  | _, [] => []
  | d, e :: es => e.printTokens d ++ allTokens (e.stop + d) es

/-- Some prints with so many lines above them, as a part of a program. -/
def printStmts : Nat → List (Snippet levels) → List Stmt
  | _, [] => []
  | d, e :: es => e.printStmt d :: printStmts (e.stop + d) es

/-- How many lines there are up to the end of some prints. -/
def linesAfter : Nat → List (Snippet levels) → Nat
  | d, [] => d
  | d, e :: es => linesAfter (e.stop + d) es

theorem printStmts_append (d : Nat) (es es' : List (Snippet levels)) :
    printStmts d (es ++ es') = printStmts d es ++ printStmts (linesAfter d es) es' := by
  induction es generalizing d with
  | nil => rfl
  | cons e es ih => rw [List.cons_append, printStmts, ih, printStmts, linesAfter, List.cons_append]

theorem length_allTokens_le (d : Nat) (es : List (Snippet levels)) :
    (allTokens d es).length ≤ (utf8 (printSources es)).length := by
  induction es generalizing d with
  | nil => exact Nat.zero_le _
  | cons e es ih =>
    have := e.length_tokens_le
    have := ih (e.stop + d)
    rw [allTokens, printSources, utf8_append, List.length_append, List.length_append,
      length_printTokens]
    omega

/-- Prints are scanned one after the other. -/
theorem tokensFrom_printSources (es : List (Snippet levels)) (d fuel : Nat) {rest : Bytes}
    (h : rest.head? ≠ some 0x0d) :
    tokensFrom (fuel + 1 + (allTokens d es).length) (d + 1) (utf8 (printSources es) ++ rest)
      = allTokens d es ++ tokensFrom (fuel + 1) (linesAfter d es + 1) rest := by
  induction es generalizing d with
  | nil => rfl
  | cons e es ih =>
    have hhead : (utf8 (printSources es) ++ rest).head? ≠ some 0x0d := by
      cases es with
      | nil => exact h
      | cons e es =>
        have hx : utf8 "xview:print(" = 0x78 :: (utf8 "xview:print(").tail := by decide
        rw [printSources, utf8_append, utf8_printStatement, hx]
        simp
    rw [printSources, utf8_append, List.append_assoc, allTokens, List.length_append,
      show fuel + 1 + ((e.printTokens d).length + (allTokens (e.stop + d) es).length)
        = fuel + (allTokens (e.stop + d) es).length + 1 + (e.printTokens d).length by omega,
      e.tokensFrom_printStatement d _ hhead, Nat.add_right_comm, ih (e.stop + d), linesAfter,
      List.append_assoc]

theorem exists_cons_allTokens (d : Nat) (es : List (Snippet levels)) {t : Script.Token}
    (ht : IsGood t) (more : List Script.Token) :
    ∃ u us, allTokens d es ++ t :: more = u :: us ∧ IsGood u := by
  cases es with
  | nil => exact ⟨t, more, rfl, ht⟩
  | cons e es => exact ⟨nameToken (d + 1) "xview", _, rfl, by simp [IsGood, nameToken]⟩

/-- The statements that print some expressions are read up to the token that ends their block. -/
theorem reads_printStmts {s : Setting} (hlocals : s.locals ≤ Script.Grammar.maxLocals)
    (hlevels : levels < s.levels) (es : List (Snippet levels)) {t : Script.Token}
    (ht : IsGood t) (hends : Script.Grammar.endsBlock t.symbol = true) (more : List Script.Token)
    (d last : Nat) {fuel : Nat} (hfuel : 16 * (allTokens d es).length + 1 ≤ fuel) :
    ∃ last', Reads (Script.Grammar.block fuel s) ⟨allTokens d es ++ t :: more, last⟩
      (printStmts d es) ⟨t :: more, last'⟩ := by
  induction es generalizing d last fuel with
  | nil =>
    obtain ⟨fuel, rfl⟩ : ∃ n, fuel = n + 1 := ⟨fuel - 1, by omega⟩
    exact ⟨last, reads_block_nil hends more fuel last⟩
  | cons e es ih =>
    rw [allTokens, List.length_append, length_printTokens] at hfuel
    obtain ⟨fuel, rfl⟩ : ∃ n, fuel = n + 3 := ⟨fuel - 3, by omega⟩
    obtain ⟨left, hleft⟩ : ∃ n, s.levels = n + 1 := ⟨s.levels - 1, by omega⟩
    obtain ⟨u, us, hu, hgood⟩ := exists_cons_allTokens (e.stop + d) es ht more
    obtain ⟨last', hrest⟩ := ih (e.stop + d) (e.stop + d) (by omega : _ ≤ fuel + 1)
    have hinner : levels ≤ left := by omega
    have hfirst := e.reads_printStmt (s := { s with levels := left }) hinner d last
      (by omega : _ ≤ fuel - 3) u us
    rw [show fuel - 3 + 5 = fuel + 2 by omega] at hfirst
    rw [hu] at hrest
    rw [allTokens, List.append_assoc, hu]
    exact ⟨last', reads_block_semicolon hlocals hleft rfl (by simp [nameToken]) hfirst hgood hrest⟩

theorem isBody_allTokens {left : Nat} (hleft : levels < left) (d : Nat) (es : List (Snippet levels)) :
    IsBody left (allTokens d es) (printStmts d es) where
  head ht more := exists_cons_allTokens d es ht more
  reads hlocals hs _ ht hends more last _ hfuel :=
    reads_printStmts (by simp only [Script.Grammar.maxLocals]; omega) (hs ▸ hleft) es ht hends more d
      last hfuel

/-- The code that prints some expressions is read as a program of their prints. -/
theorem readProgram_printSources {nested : Nat} (h : nested + levels < Script.Grammar.maxLevels)
    (es : List (Snippet levels)) :
    Script.readProgram nested (utf8 (printSources es)) = .ok (.mk [] true (printStmts 0 es)) := by
  have htokens : Script.tokens (utf8 (printSources es))
      = allTokens 0 es ++ [stopToken (linesAfter 0 es + 1)] := by
    have hlength := length_allTokens_le 0 es
    have hscan := tokensFrom_printSources es 0
      ((utf8 (printSources es)).length - (allTokens 0 es).length)
      (show ([] : Bytes).head? ≠ some 0x0d by simp)
    rwa [List.append_nil, show (utf8 (printSources es)).length - (allTokens 0 es).length + 1
      + (allTokens 0 es).length = (utf8 (printSources es)).length + 1 by omega] at hscan
  exact readProgram_of_isBody (isBody_allTokens (by omega) 0 es) htokens

/-- The function that the code is compiled into is read as the prints as well. -/
theorem readProgram_functionSource_printSources {nested : Nat}
    (h : nested + levels + 2 < Script.Grammar.maxLevels) (es : List (Snippet levels)) :
    Script.readProgram nested (Script.functionSource (printSources es))
      = .ok (.mk [] true [.return [.function (.mk [utf8 "_ENV"] false (printStmts 0 es))]]) :=
  readProgram_functionSource_of_isBody (by omega) (isBody_allTokens (by omega) 0 es)
    (length_allTokens_le 0 es) fun fuel _ hrest => tokensFrom_printSources es 0 fuel hrest

end Snippet

end ScriptedViews.Code

import ScriptedViews.Proofs.Code.Directives
import ScriptedViews.Proofs.Script.Literal
import ScriptedViews.Script.Executable

set_option autoImplicit false

/-! # Code of plain views as it is read

The statements of a plain view's code as tokens and as a program. Each statement has fixed tokens
but for the texts of its literals, so its tokens and its tree are told by computation, and a list of
statements is read one after the other. -/

namespace ScriptedViews.Code

open Script (Bytes utf8 utf8_append tokensFrom scanToken scanToken_literal Expr Stmt)

/-! ## Tokens -/

/-- The variable that holds the bridge. -/
def bridgeName : Script.Name :=
  utf8 "xview"

/-- The variable that holds the source of the caller's content. -/
def contentName : Script.Name :=
  utf8 "__process_child_nodes"

/-- A name as a token. -/
def nameToken (line : Nat) (n : String) : Script.Token :=
  ⟨.name (utf8 n), line⟩

/-- A sign as a token. -/
def signToken (line : Nat) (s : Script.Sign) : Script.Token :=
  ⟨.sign s, line⟩

/-- A text as a token. -/
def textToken (line : Nat) (t : String) : Script.Token :=
  ⟨.text (utf8 t), line⟩

/-- The tokens of the table of attributes of a call that passes none. -/
def noAttributesTokens (line : Nat) : List Script.Token :=
  [signToken line .leftParen, signToken line .kwFunction, signToken line .leftParen,
   signToken line .rightParen, signToken line .kwLocal, nameToken line "map",
   signToken line .equal, signToken line .leftBrace, signToken line .rightBrace,
   signToken line .kwReturn, nameToken line "map", signToken line .kwEnd,
   signToken line .rightParen, signToken line .leftParen, signToken line .rightParen]

/-- The tokens of a statement. All of them stand on one line. -/
def Directive.tokens (line : Nat) : Directive → List Script.Token
  | .print text =>
    [nameToken line "xview", signToken line .colon, nameToken line "print",
     signToken line .leftParen, textToken line text, signToken line .rightParen,
     signToken line .semicolon]
  | .place =>
    [signToken line .kwIf, nameToken line "__process_child_nodes", signToken line .kwThen,
     nameToken line "assert", signToken line .leftParen, nameToken line "load",
     signToken line .leftParen, textToken line "return ", signToken line .doubleDot,
     nameToken line "__process_child_nodes", signToken line .comma, textToken line "=children",
     signToken line .comma, textToken line "t", signToken line .comma, nameToken line "_ENV",
     signToken line .rightParen, signToken line .rightParen, signToken line .leftParen,
     signToken line .rightParen, signToken line .leftParen, signToken line .rightParen,
     signToken line .kwEnd]
  | .call base tag _ content =>
    [nameToken line "xview", signToken line .colon, nameToken line "execute",
     signToken line .leftParen, textToken line base, signToken line .comma, textToken line tag,
     signToken line .comma] ++ noAttributesTokens line
      ++ [signToken line .comma, textToken line content, signToken line .rightParen,
          signToken line .semicolon]

/-- The tokens of statements, one on a line. -/
def Directive.allTokens : Nat → List Directive → List Script.Token
  | _, [] => []
  | line, d :: ds => d.tokens line ++ allTokens (line + 1) ds

/-! ## Scanning -/

/-- A line feed ends a line, unless a carriage return follows, which would belong to it. -/
theorem tokensFrom_newline {rest : Bytes} (h : rest.head? ≠ some 0x0d) (fuel line : Nat) :
    tokensFrom (fuel + 1) line (0x0a :: rest) = tokensFrom (fuel + 1) (line + 1) rest := by
  have hafter : Script.afterNewline 0x0a rest = rest := by
    cases rest with
    | nil => rfl
    | cons c rest =>
      have hc : c ≠ 0x0d := fun hc => h (by rw [hc]; rfl)
      rw [Script.afterNewline]
      by_cases ha : c = 0x0a
      · simp [ha]
      · simp [Script.isNewlineByte, ha, hc]
  have hskip : Script.skipBlank (0x0a :: rest).length line (0x0a :: rest)
      = Script.skipBlank rest.length (line + 1) rest := by
    rw [List.length_cons, Script.skipBlank, hafter]
    rfl
  rw [tokensFrom, tokensFrom, hskip]

theorem tokensFrom_space (fuel line : Nat) (rest : Bytes) :
    tokensFrom (fuel + 1) line (0x20 :: rest) = tokensFrom (fuel + 1) line rest := by
  have hskip : Script.skipBlank (0x20 :: rest).length line (0x20 :: rest)
      = Script.skipBlank rest.length line rest := rfl
  rw [tokensFrom, tokensFrom, hskip]

theorem tokensFrom_literal (t : String) (fuel line : Nat) (rest : Bytes) :
    tokensFrom (fuel + 1) line (utf8 (literal t) ++ rest)
      = textToken line t :: tokensFrom fuel line rest := by
  have hscan := scanToken_literal t line rest
  obtain ⟨bs, hbs⟩ : ∃ bs, utf8 (literal t) ++ rest = 0x22 :: bs :=
    ⟨_, by rw [Script.utf8_literal, List.cons_append, List.cons_append]⟩
  rw [hbs] at hscan ⊢
  have hblank : Script.skipBlank (0x22 :: bs).length line (0x22 :: bs) = (line, 0x22 :: bs) := rfl
  rw [tokensFrom, hblank]
  simp [hscan, textToken]

/-- The start of a print. -/
theorem tokensFrom_print (fuel line : Nat) (rest : Bytes) :
    tokensFrom (fuel + 4) line (utf8 "xview:print(" ++ rest)
      = nameToken line "xview" :: signToken line .colon :: nameToken line "print"
        :: signToken line .leftParen :: tokensFrom fuel line rest := by
  have h : utf8 "xview:print("
      = [0x78, 0x76, 0x69, 0x65, 0x77, 0x3a, 0x70, 0x72, 0x69, 0x6e, 0x74, 0x28] := by decide
  rw [h]
  rfl

/-- The start of a call. -/
theorem tokensFrom_execute (fuel line : Nat) (rest : Bytes) :
    tokensFrom (fuel + 4) line (utf8 "xview:execute(" ++ rest)
      = nameToken line "xview" :: signToken line .colon :: nameToken line "execute"
        :: signToken line .leftParen :: tokensFrom fuel line rest := by
  have h : utf8 "xview:execute(" = [0x78, 0x76, 0x69, 0x65, 0x77, 0x3a, 0x65, 0x78, 0x65, 0x63,
      0x75, 0x74, 0x65, 0x28] := by decide
  rw [h]
  rfl

theorem tokensFrom_comma (fuel line : Nat) (rest : Bytes) :
    tokensFrom (fuel + 2) line (utf8 ", " ++ rest)
      = signToken line .comma :: tokensFrom (fuel + 1) line rest := by
  have h : utf8 ", " = [0x2c, 0x20] := by decide
  rw [h, ← tokensFrom_space fuel line rest]
  rfl

/-- The end of a statement. -/
theorem tokensFrom_semicolon (fuel line : Nat) (rest : Bytes) :
    tokensFrom (fuel + 2) line (utf8 ");\n" ++ rest)
      = signToken line .rightParen :: signToken line .semicolon
        :: tokensFrom fuel line (0x0a :: rest) := by
  have h : utf8 ");\n" = [0x29, 0x3b, 0x0a] := by decide
  rw [h]
  rfl

/-- The table of attributes of a call that passes none. -/
theorem tokensFrom_noAttributes (fuel line : Nat) (rest : Bytes) :
    tokensFrom (fuel + 15) line (utf8 Directive.noAttributes ++ rest)
      = noAttributesTokens line ++ tokensFrom fuel line rest := by
  have h : utf8 Directive.noAttributes
      = [0x28, 0x66, 0x75, 0x6e, 0x63, 0x74, 0x69, 0x6f, 0x6e, 0x28, 0x29, 0x20, 0x6c, 0x6f, 0x63,
         0x61, 0x6c, 0x20, 0x6d, 0x61, 0x70, 0x20, 0x3d, 0x20, 0x7b, 0x7d, 0x20, 0x72, 0x65, 0x74,
         0x75, 0x72, 0x6e, 0x20, 0x6d, 0x61, 0x70, 0x20, 0x65, 0x6e, 0x64, 0x29, 0x28, 0x29] := by
    decide
  rw [h]
  rfl

/-- The place of the caller's content. -/
theorem tokensFrom_place (fuel line : Nat) (rest : Bytes) :
    tokensFrom (fuel + 23) line (utf8 childContentStatement ++ rest)
      = Directive.place.tokens line ++ tokensFrom fuel line (0x0a :: rest) := by
  have h : utf8 childContentStatement
      = [0x69, 0x66, 0x20, 0x5f, 0x5f, 0x70, 0x72, 0x6f, 0x63, 0x65, 0x73, 0x73, 0x5f, 0x63, 0x68,
         0x69, 0x6c, 0x64, 0x5f, 0x6e, 0x6f, 0x64, 0x65, 0x73, 0x20, 0x74, 0x68, 0x65, 0x6e, 0x20,
         0x61, 0x73, 0x73, 0x65, 0x72, 0x74, 0x28, 0x6c, 0x6f, 0x61, 0x64, 0x28, 0x22, 0x72, 0x65,
         0x74, 0x75, 0x72, 0x6e, 0x20, 0x22, 0x20, 0x2e, 0x2e, 0x20, 0x5f, 0x5f, 0x70, 0x72, 0x6f,
         0x63, 0x65, 0x73, 0x73, 0x5f, 0x63, 0x68, 0x69, 0x6c, 0x64, 0x5f, 0x6e, 0x6f, 0x64, 0x65,
         0x73, 0x2c, 0x20, 0x22, 0x3d, 0x63, 0x68, 0x69, 0x6c, 0x64, 0x72, 0x65, 0x6e, 0x22, 0x2c,
         0x20, 0x22, 0x74, 0x22, 0x2c, 0x20, 0x5f, 0x45, 0x4e, 0x56, 0x29, 0x29, 0x28, 0x29, 0x28,
         0x29, 0x20, 0x65, 0x6e, 0x64, 0x0a] := by decide
  rw [h]
  rfl

theorem utf8_printStatement (source : String) :
    utf8 (printStatement source) = utf8 "xview:print(" ++ (utf8 source ++ utf8 ");\n") := by
  have h : utf8 "xview:print(" = utf8 "xview" ++ utf8 ":print(" := by decide
  rw [h]
  simp only [printStatement, show Vocabulary.bridgeBinding = "xview" from rfl, utf8_append,
    List.append_assoc]

theorem utf8_invocationStatement (base tag attributes content : String) :
    utf8 (invocationStatement base tag attributes content)
      = utf8 "xview:execute(" ++ (utf8 (literal base) ++ (utf8 ", " ++ (utf8 (literal tag)
        ++ (utf8 ", " ++ (utf8 attributes ++ (utf8 ", " ++ (utf8 (literal content)
          ++ utf8 ");\n"))))))) := by
  have h : utf8 "xview:execute(" = utf8 "xview" ++ utf8 ":execute(" := by decide
  rw [h]
  simp only [invocationStatement, show Vocabulary.bridgeBinding = "xview" from rfl, utf8_append,
    List.append_assoc]

theorem utf8_source_call (base tag : String) (children : List Node) (content : String) :
    utf8 (Directive.call base tag children content).source
      = utf8 "xview:execute(" ++ (utf8 (literal base) ++ (utf8 ", " ++ (utf8 (literal tag)
        ++ (utf8 ", " ++ (utf8 Directive.noAttributes ++ (utf8 ", " ++ (utf8 (literal content)
          ++ utf8 ");\n"))))))) :=
  utf8_invocationStatement base tag Directive.noAttributes content

/-- A statement is scanned as its tokens, and the line ends with it. -/
theorem tokensFrom_source (d : Directive) :
    ∃ n ≤ (utf8 d.source).length, ∀ fuel line rest, rest.head? ≠ some 0x0d →
      tokensFrom (fuel + 1 + n) line (utf8 d.source ++ rest)
        = d.tokens line ++ tokensFrom (fuel + 1) (line + 1) rest := by
  cases d with
  | print text =>
    refine ⟨7, ?_, fun fuel line rest h => ?_⟩
    · rw [Directive.source, utf8_printStatement, List.length_append]
      exact Nat.le_trans (by decide) (Nat.le_add_right _ _)
    · rw [Directive.source, utf8_printStatement, List.append_assoc, List.append_assoc,
        show fuel + 1 + 7 = (fuel + 1 + 3) + 4 from rfl, tokensFrom_print,
        tokensFrom_literal, tokensFrom_semicolon, tokensFrom_newline h]
      rfl
  | place =>
    refine ⟨23, by decide, fun fuel line rest h => ?_⟩
    rw [show Directive.place.source = childContentStatement from rfl, tokensFrom_place,
      tokensFrom_newline h]
  | call base tag children content =>
    refine ⟨27, ?_, fun fuel line rest h => ?_⟩
    · rw [utf8_source_call]
      simp only [List.length_append]
      have h₁ : (utf8 "xview:execute(").length = 14 := by decide
      have h₂ : (utf8 Directive.noAttributes).length = 44 := by decide
      omega
    · rw [utf8_source_call]
      simp only [List.append_assoc]
      rw [show fuel + 1 + 27 = (fuel + 1 + 23) + 4 from rfl, tokensFrom_execute,
        show fuel + 1 + 23 = (fuel + 1 + 22) + 1 from rfl, tokensFrom_literal,
        show fuel + 1 + 22 = (fuel + 1 + 20) + 2 from rfl, tokensFrom_comma,
        show fuel + 1 + 20 + 1 = (fuel + 1 + 20) + 1 from rfl, tokensFrom_literal,
        show fuel + 1 + 20 = (fuel + 1 + 18) + 2 from rfl, tokensFrom_comma,
        show fuel + 1 + 18 + 1 = (fuel + 1 + 4) + 15 from rfl, tokensFrom_noAttributes,
        show fuel + 1 + 4 = (fuel + 1 + 2) + 2 from rfl, tokensFrom_comma,
        tokensFrom_literal, tokensFrom_semicolon, tokensFrom_newline h]
      simp only [Directive.tokens, List.cons_append, List.nil_append, List.append_assoc]

theorem head?_source_append (d : Directive) (rest : Bytes) :
    (utf8 d.source ++ rest).head? ≠ some 0x0d := by
  cases d with
  | print text =>
    have h : utf8 "xview:print(" = 0x78 :: (utf8 "xview:print(").tail := by decide
    rw [Directive.source, utf8_printStatement, h]
    simp
  | place =>
    have h : utf8 childContentStatement = 0x69 :: (utf8 childContentStatement).tail := by decide
    rw [show Directive.place.source = childContentStatement from rfl, h]
    simp
  | call base tag children content =>
    have h : utf8 "xview:execute(" = 0x78 :: (utf8 "xview:execute(").tail := by decide
    rw [utf8_source_call, h]
    simp

/-- Statements are scanned one after the other. -/
theorem tokensFrom_sources (ds : List Directive) :
    ∃ n ≤ (utf8 (Directive.sources ds)).length, ∀ fuel line rest, rest.head? ≠ some 0x0d →
      tokensFrom (fuel + 1 + n) line (utf8 (Directive.sources ds) ++ rest)
        = Directive.allTokens line ds ++ tokensFrom (fuel + 1) (line + ds.length) rest := by
  induction ds with
  | nil => exact ⟨0, Nat.zero_le _, fun fuel line rest _ => rfl⟩
  | cons d ds ih =>
    obtain ⟨n, hn, hds⟩ := ih
    obtain ⟨m, hm, hd⟩ := tokensFrom_source d
    refine ⟨n + m, ?_, fun fuel line rest h => ?_⟩
    · rw [Directive.sources, utf8_append, List.length_append]
      omega
    · have hhead : (utf8 (Directive.sources ds) ++ rest).head? ≠ some 0x0d := by
        cases ds with
        | nil => exact h
        | cons e es =>
          rw [Directive.sources, utf8_append, List.append_assoc]
          exact head?_source_append e _
      rw [Directive.sources, utf8_append, List.append_assoc,
        show fuel + 1 + (n + m) = (fuel + n) + 1 + m by omega, hd _ _ _ hhead,
        show fuel + n + 1 = fuel + 1 + n by omega, hds _ _ _ h, Directive.allTokens,
        List.append_assoc, List.length_cons, show line + 1 + ds.length = line + (ds.length + 1) by omega]

/-! ## Statements as a program -/

/-- The expression that gives the table of attributes of a call that passes none. -/
def noAttributesExpr (line : Nat) : Expr :=
  .call line (.single (.function (.mk [] false
    [.local [utf8 "map"] [.table []], .return [.name line (utf8 "map")]]))) []

/-- The expression that reads the caller's content, without running it. -/
def loadExpr (line : Nat) : Expr :=
  .call line (.name line (utf8 "load"))
    [.binary line .concat (.text (utf8 "return ")) (.name line contentName),
     .text (utf8 "=children"), .text (utf8 "t"), .name line (utf8 "_ENV")]

/-- The statement that runs the caller's content. -/
def placeStmt (line : Nat) : Stmt :=
  .call (.call line (.call line (.call line (.name line (utf8 "assert")) [loadExpr line]) []) [])

/-- The call of a method of the bridge. -/
def bridgeCall (line : Nat) (method : String) (args : List Expr) : Stmt :=
  .call (.methodCall line line (.name line bridgeName) (utf8 method) args)

/-- A statement as a part of a program. -/
def Directive.stmt (line : Nat) : Directive → Stmt
  | .print text => bridgeCall line "print" [.text (utf8 text)]
  | .place => .cond (.name line contentName) [placeStmt line] []
  | .call base tag _ content =>
    bridgeCall line "execute"
      [.text (utf8 base), .text (utf8 tag), noAttributesExpr line, .text (utf8 content)]

/-- Statements, one on a line, as a part of a program. -/
def Directive.stmts : Nat → List Directive → List Stmt
  | _, [] => []
  | line, d :: ds => d.stmt line :: stmts (line + 1) ds

/-! ## Reading -/

open Script.Grammar (Phrase Cursor Setting)

/-- Whether a token can follow a statement. -/
def IsGood (t : Script.Token) : Prop :=
  ∀ reason, t.symbol ≠ .bad reason

/-- Whether a phrase is read from some tokens. -/
def Reads {α : Type} (p : Phrase α) (c : Cursor) (a : α) (c' : Cursor) : Prop :=
  p.run c = .ok (a, c')

theorem Reads.bind {α β : Type} {p : Phrase α} {f : α → Phrase β} {c c' c'' : Cursor} {a : α} {b : β}
    (hp : Reads p c a c') (hf : Reads (f a) c' b c'') : Reads (p >>= f) c b c'' := by
  unfold Reads at *
  rw [StateT.run_bind, hp]
  exact hf

/-- A phrase with nothing unknown in it is read by computation. -/
theorem Reads.andThen {α β : Type} {p : Phrase α} {f : α → Phrase β} {c c'' : Cursor} {b : β} (a : α)
    (c' : Cursor) (hp : Reads p c a c') (hf : Reads (f a) c' b c'') : Reads (p >>= f) c b c'' :=
  hp.bind hf

/-- A token is passed if the next one is one. -/
theorem reads_advance {t u : Script.Token} {us : List Script.Token} {last : Nat} (hu : IsGood u) :
    Reads Script.Grammar.advance ⟨t :: u :: us, last⟩ () ⟨u :: us, t.line⟩ := by
  obtain ⟨symbol, line⟩ := u
  cases symbol with
  | bad reason => exact absurd rfl (hu reason)
  | _ => rfl

/-- The tokens of a statement without the semicolon at its end, and whether it has one. -/
theorem reads_statement (d : Directive) {s : Setting} (hlocals : s.locals = 0 ∨ s.locals = 1)
    {levels : Nat} (hlevels : s.levels = levels + 4) (fuel line last : Nat) (t : Script.Token)
    (more : List Script.Token) (ht : IsGood t) :
    ∃ more', Reads (Script.Grammar.statement (fuel + 40) s) ⟨d.tokens line ++ t :: more, last⟩
        ([d.stmt line], 0) ⟨more', line⟩
      ∧ (more' = t :: more ∨ more' = Script.Token.mk (.sign .semicolon) line :: t :: more) := by
  obtain ⟨isVararg, inLoop, locals, _⟩ := s
  subst hlevels
  cases d with
  | print text =>
    refine ⟨_, ?_, .inr rfl⟩
    rcases hlocals with rfl | rfl <;> rfl
  | place =>
    refine ⟨_, ?_, .inl rfl⟩
    obtain ⟨symbol, l⟩ := t
    rcases hlocals with rfl | rfl
    · cases symbol with
      | bad reason => exact absurd rfl (ht reason)
      | _ => rfl
    · cases symbol with
      | bad reason => exact absurd rfl (ht reason)
      | _ => rfl
  | call base tag children content =>
    refine ⟨_, ?_, .inr rfl⟩
    rcases hlocals with rfl | rfl <;> rfl

/-- A block goes on after a statement, with the variables that the statement declares. -/
theorem reads_block_declaring {s : Setting} {n : Nat}
    (hlocals : s.locals + n ≤ Script.Grammar.maxLocals) {levels : Nat}
    (hlevels : s.levels = levels + 1) {fuel last : Nat} {t : Script.Token}
    {ts : List Script.Token} (hends : Script.Grammar.endsBlock t.symbol = false)
    (hreturn : t.symbol ≠ .sign .kwReturn) {stmts rest : List Stmt} {c c' : Cursor}
    (hfirst : Reads (Script.Grammar.statement fuel { s with levels }) ⟨t :: ts, last⟩ (stmts, n) c)
    (hrest : Reads (Script.Grammar.block fuel { s with locals := s.locals + n }) c rest c') :
    Reads (Script.Grammar.block (fuel + 1) s) ⟨t :: ts, last⟩ (stmts ++ rest) c' := by
  have hpeek : Reads Script.Grammar.peek ⟨t :: ts, last⟩ t ⟨t :: ts, last⟩ := rfl
  have hsees : Reads (Script.Grammar.sees .kwReturn) ⟨t :: ts, last⟩ false ⟨t :: ts, last⟩ := by
    obtain ⟨symbol, line⟩ := t
    cases symbol with
    | sign g =>
      have hg : (Script.Sign.kwReturn == g) = false := by
        rw [beq_eq_false_iff_ne]
        exact fun h => hreturn (by rw [h])
      show Except.ok ((Script.Sign.kwReturn == g), _) = _
      rw [hg]
    | _ => rfl
  have henter : Reads (Script.Grammar.enter s) ⟨t :: ts, last⟩ { s with levels } ⟨t :: ts, last⟩ := by
    obtain ⟨isVararg, inLoop, locals, _⟩ := s
    subst hlevels
    rfl
  have hdeclare : Reads (Script.Grammar.declare s n) c { s with locals := s.locals + n } c := by
    rw [Script.Grammar.declare, if_neg (Nat.not_lt.2 hlocals)]
    rfl
  rw [Script.Grammar.block]
  refine hpeek.bind ?_
  simp only [hends, Bool.false_eq_true, if_false]
  refine hsees.bind ?_
  simp only [Bool.false_eq_true, if_false]
  exact henter.bind (hfirst.bind (hdeclare.bind (hrest.bind rfl)))

/-- A block goes on after a statement that declares nothing. -/
theorem reads_block_cons {s : Setting} (hlocals : s.locals ≤ Script.Grammar.maxLocals) {levels : Nat}
    (hlevels : s.levels = levels + 1) {fuel last : Nat} {t : Script.Token}
    {ts : List Script.Token} (hends : Script.Grammar.endsBlock t.symbol = false)
    (hreturn : t.symbol ≠ .sign .kwReturn) {stmts rest : List Stmt} {c c' : Cursor}
    (hfirst : Reads (Script.Grammar.statement fuel { s with levels }) ⟨t :: ts, last⟩ (stmts, 0) c)
    (hrest : Reads (Script.Grammar.block fuel s) c rest c') :
    Reads (Script.Grammar.block (fuel + 1) s) ⟨t :: ts, last⟩ (stmts ++ rest) c' :=
  reads_block_declaring hlocals hlevels hends hreturn hfirst hrest

/-- A block ends where a token stands that ends it. -/
theorem reads_block_nil {s : Setting} {t : Script.Token}
    (hends : Script.Grammar.endsBlock t.symbol = true) (more : List Script.Token) (fuel last : Nat) :
    Reads (Script.Grammar.block (fuel + 1) s) ⟨t :: more, last⟩ [] ⟨t :: more, last⟩ := by
  rw [Script.Grammar.block]
  refine .andThen t _ rfl ?_
  simp only [hends, if_true]
  rfl

/-- A block goes on after a statement that declares nothing and the semicolon that ends it. -/
theorem reads_block_semicolon {s : Setting} (hlocals : s.locals ≤ Script.Grammar.maxLocals)
    {levels : Nat}
    (hlevels : s.levels = levels + 1) {fuel line last last' : Nat} {t u : Script.Token}
    {ts us : List Script.Token} (hends : Script.Grammar.endsBlock t.symbol = false)
    (hreturn : t.symbol ≠ .sign .kwReturn) {stmts rest : List Stmt} {c : Cursor}
    (hfirst : Reads (Script.Grammar.statement (fuel + 2) { s with levels }) ⟨t :: ts, last⟩ (stmts, 0)
      ⟨signToken line .semicolon :: u :: us, last'⟩) (hu : IsGood u)
    (hrest : Reads (Script.Grammar.block (fuel + 1) s) ⟨u :: us, line⟩ rest c) :
    Reads (Script.Grammar.block (fuel + 3) s) ⟨t :: ts, last⟩ (stmts ++ rest) c := by
  have hsemicolon : Reads (Script.Grammar.statement (fuel + 1) { s with levels })
      ⟨signToken line .semicolon :: u :: us, last'⟩ ([], 0) ⟨u :: us, line⟩ := by
    rw [Script.Grammar.statement]
    refine .andThen (signToken line .semicolon) _ rfl
      (.andThen (signToken line .semicolon) _ rfl ?_)
    exact (reads_advance hu).bind rfl
  have hblock := reads_block_cons hlocals hlevels rfl (by simp [signToken]) hsemicolon hrest
  exact reads_block_cons hlocals hlevels hends hreturn hfirst hblock

theorem isGood_signToken (line : Nat) (sign : Script.Sign) : IsGood (signToken line sign) := by
  simp [IsGood, signToken]

theorem isGood_head_tokens (d : Directive) (line : Nat) :
    ∃ t ts, d.tokens line = t :: ts ∧ IsGood t ∧ Script.Grammar.endsBlock t.symbol = false
      ∧ t.symbol ≠ .sign .kwReturn := by
  cases d <;> exact ⟨_, _, rfl, by simp [IsGood, nameToken, signToken], rfl,
    by simp [nameToken, signToken]⟩

theorem isGood_head_allTokens (line : Nat) (ds : List Directive) {t : Script.Token} (ht : IsGood t)
    (more : List Script.Token) :
    ∃ u us, Directive.allTokens line ds ++ t :: more = u :: us ∧ IsGood u := by
  cases ds with
  | nil => exact ⟨t, more, rfl, ht⟩
  | cons d ds =>
    obtain ⟨u, us, hu, hgood, -⟩ := isGood_head_tokens d line
    exact ⟨u, _, by rw [Directive.allTokens, hu, List.cons_append, List.cons_append], hgood⟩

/-- The statements of a block are read up to the token that ends it. -/
theorem reads_block {s : Setting} (hlocals : s.locals = 0 ∨ s.locals = 1) {levels : Nat}
    (hlevels : s.levels = levels + 5) (ds : List Directive) {t : Script.Token} (ht : IsGood t)
    (hends : Script.Grammar.endsBlock t.symbol = true) (more : List Script.Token)
    (fuel : Nat) (hfuel : 42 * ds.length + 1 ≤ fuel) (line last : Nat) :
    ∃ last', Reads (Script.Grammar.block fuel s) ⟨Directive.allTokens line ds ++ t :: more, last⟩
      (Directive.stmts line ds) ⟨t :: more, last'⟩ := by
  have hmost : s.locals ≤ Script.Grammar.maxLocals := by
    simp only [Script.Grammar.maxLocals]
    omega
  induction ds generalizing fuel line last with
  | nil =>
    obtain ⟨fuel, rfl⟩ : ∃ n, fuel = n + 1 := ⟨fuel - 1, by omega⟩
    exact ⟨last, reads_block_nil hends more fuel last⟩
  | cons d ds ih =>
    rw [List.length_cons] at hfuel
    obtain ⟨fuel, rfl⟩ : ∃ n, fuel = n + 1 + 1 := ⟨fuel - 2, by omega⟩
    obtain ⟨u, us, hu, hgood⟩ := isGood_head_allTokens (line + 1) ds ht more
    obtain ⟨more', hfirst, hmore⟩ := reads_statement d (s := { s with levels := levels + 4 })
      hlocals rfl (fuel + 1 - 40) line last u us hgood
    rw [show fuel + 1 - 40 + 40 = fuel + 1 by omega] at hfirst
    obtain ⟨v, vs, hv, -, hends', hreturn⟩ := isGood_head_tokens d line
    rw [Directive.allTokens, List.append_assoc, hu, Directive.stmts]
    rw [hv, List.cons_append] at hfirst ⊢
    rcases hmore with rfl | rfl
    · obtain ⟨last', hrest⟩ := ih (fuel + 1) (by omega) (line + 1) line
      rw [hu] at hrest
      exact ⟨last', reads_block_cons hmost hlevels hends' hreturn hfirst hrest⟩
    · obtain ⟨last', hrest⟩ := ih fuel (by omega) (line + 1) line
      obtain ⟨fuel, rfl⟩ : ∃ n, fuel = n + 1 := ⟨fuel - 1, by omega⟩
      rw [hu] at hrest
      exact ⟨last', reads_block_semicolon hmost hlevels hends' hreturn hfirst hgood hrest⟩

/-! ## Programs -/

theorem length_allTokens (line : Nat) (ds : List Directive) :
    7 * ds.length ≤ (Directive.allTokens line ds).length := by
  induction ds generalizing line with
  | nil => exact Nat.le_refl _
  | cons d ds ih =>
    have hd : 7 ≤ (d.tokens line).length := by
      cases d <;> simp [Directive.tokens]
    have := ih (line + 1)
    rw [Directive.allTokens, List.length_append, List.length_cons]
    omega

/-- The end of the source. -/
def stopToken (line : Nat) : Script.Token :=
  ⟨.stop, line⟩

theorem isGood_stopToken (line : Nat) : IsGood (stopToken line) := by
  simp [IsGood, stopToken]

/-- Whether some tokens are read as the statements of a block, with so many levels left, up to any
    token that ends the block. -/
structure IsBody (levels : Nat) (body : List Script.Token) (stmts : List Stmt) : Prop where
  head {t : Script.Token} (ht : IsGood t) (more : List Script.Token) :
    ∃ u us, body ++ t :: more = u :: us ∧ IsGood u
  reads {s : Setting} (hlocals : s.locals = 0 ∨ s.locals = 1) (hlevels : s.levels = levels)
    {t : Script.Token} (ht : IsGood t) (hends : Script.Grammar.endsBlock t.symbol = true)
    (more : List Script.Token) (last : Nat) {fuel : Nat} (hfuel : 16 * body.length + 1 ≤ fuel) :
    ∃ last', Reads (Script.Grammar.block fuel s) ⟨body ++ t :: more, last⟩ stmts ⟨t :: more, last'⟩

theorem isBody_allTokens {levels : Nat} (hlevels : 5 ≤ levels) (line : Nat) (ds : List Directive) :
    IsBody levels (Directive.allTokens line ds) (Directive.stmts line ds) where
  head ht more := isGood_head_allTokens line ds ht more
  reads := by
    intro s hlocals hs t ht hends more last fuel hfuel
    have hlength := length_allTokens line ds
    exact reads_block hlocals (show _ = levels - 5 + 5 by omega) ds ht hends more fuel (by omega)
      line last

/-- A function is read from its parameters, the block of its statements and its end. -/
theorem reads_functionBody_of_block {names : List Script.Name} {s : Setting} {stmts : List Stmt}
    (hnames : names.length ≤ Script.Grammar.maxLocals) {fuel stop last : Nat} {t : Script.Token}
    {more : List Script.Token} {c c' : Cursor}
    (hparams : Reads (Script.Grammar.paramList fuel) c (names, false) c')
    (hblock : Reads (Script.Grammar.block fuel
        { isVararg := false, locals := names.length, levels := s.levels }) c' stmts
      ⟨signToken stop .kwEnd :: t :: more, last⟩) (ht : IsGood t) :
    Reads (Script.Grammar.functionBody (fuel + 1) s []) c (.mk names false stmts)
      ⟨t :: more, stop⟩ := by
  have hdeclare : Reads (Script.Grammar.declare { isVararg := false, levels := s.levels }
      (([] : List Script.Name).length + names.length)) c'
      { isVararg := false, locals := names.length, levels := s.levels } c' := by
    rw [List.length_nil, Nat.zero_add, Script.Grammar.declare, Nat.zero_add,
      if_neg (Nat.not_lt.2 hnames)]
    rfl
  have hexpect : Reads (Script.Grammar.expect .kwEnd "'end' expected")
      ⟨signToken stop .kwEnd :: t :: more, last⟩ () ⟨t :: more, stop⟩ := by
    obtain ⟨symbol, l⟩ := t
    cases symbol with
    | bad reason => exact absurd rfl (ht reason)
    | _ => rfl
  rw [Script.Grammar.functionBody]
  exact hparams.bind (hdeclare.bind (hblock.bind (hexpect.bind rfl)))

/-- A function is read from its parameters, its statements and its end. -/
theorem reads_functionBody {names : List Script.Name} {s : Setting} (hnames : names.length ≤ 1)
    {params body : List Script.Token} {stmts : List Stmt} (hbody : IsBody s.levels body stmts)
    {line : Nat} (fuel last : Nat)
    (hparams : ∀ u us, IsGood u → Reads (Script.Grammar.paramList fuel) ⟨params ++ u :: us, last⟩
      (names, false) ⟨u :: us, line⟩)
    (hfuel : 16 * body.length + 1 ≤ fuel) (stop : Nat) {t : Script.Token} (ht : IsGood t)
    (more : List Script.Token) :
    Reads (Script.Grammar.functionBody (fuel + 1) s [])
      ⟨params ++ (body ++ signToken stop .kwEnd :: t :: more), last⟩
      (.mk names false stmts) ⟨t :: more, stop⟩ := by
  have hend : IsGood (signToken stop .kwEnd) := isGood_signToken stop .kwEnd
  obtain ⟨u, us, hu, hgood⟩ := hbody.head hend (t :: more)
  have hlocals : names.length = 0 ∨ names.length = 1 := by omega
  obtain ⟨last', hblock⟩ := hbody.reads
    (s := { isVararg := false, locals := names.length, levels := s.levels }) hlocals rfl hend rfl
    (t :: more) line hfuel
  rw [hu] at hblock ⊢
  exact reads_functionBody_of_block (by simp only [Script.Grammar.maxLocals]; omega)
    (hparams u us hgood) hblock ht

/-- A program that returns a function is read. -/
theorem reads_return_function {s : Setting} {levels : Nat} (hlevels : s.levels = levels + 2)
    {fuel line last' : Nat} {t : Script.Token} {ts more : List Script.Token} (ht : IsGood t)
    {f : Script.Function}
    (hf : Reads (Script.Grammar.functionBody fuel { s with levels } []) ⟨t :: ts, line⟩ f
      ⟨stopToken last' :: more, last'⟩) (last : Nat) :
    Reads (Script.Grammar.block (fuel + 4) s)
      ⟨signToken line .kwReturn :: signToken line .kwFunction :: t :: ts, last⟩
      [.return [.function f]] ⟨stopToken last' :: more, last'⟩ := by
  obtain ⟨isVararg, inLoop, locals, _⟩ := s
  subst hlevels
  have hsimple : Reads (Script.Grammar.simple (fuel + 1)
      { isVararg, inLoop, locals, levels }) ⟨signToken line .kwFunction :: t :: ts, line⟩
      (.function f) ⟨stopToken last' :: more, last'⟩ := by
    rw [Script.Grammar.simple]
    exact Reads.andThen (signToken line .kwFunction) ⟨signToken line .kwFunction :: t :: ts, line⟩
      rfl ((reads_advance ht).bind (hf.bind rfl))
  have hexpression : Reads (Script.Grammar.expression (fuel + 2)
      { isVararg, inLoop, locals, levels := levels + 1 } 0)
      ⟨signToken line .kwFunction :: t :: ts, line⟩ (.function f)
      ⟨stopToken last' :: more, last'⟩ := by
    rw [Script.Grammar.expression]
    refine Reads.andThen ⟨isVararg, inLoop, locals, levels⟩
      ⟨signToken line .kwFunction :: t :: ts, line⟩ rfl ?_
    exact Reads.andThen (signToken line .kwFunction)
      ⟨signToken line .kwFunction :: t :: ts, line⟩ rfl (hsimple.bind rfl)
  have hexpressions : Reads (Script.Grammar.expressions (fuel + 3)
      { isVararg, inLoop, locals, levels := levels + 1 })
      ⟨signToken line .kwFunction :: t :: ts, line⟩ [.function f]
      ⟨stopToken last' :: more, last'⟩ := by
    rw [Script.Grammar.expressions]
    exact hexpression.bind rfl
  rw [Script.Grammar.block]
  refine Reads.andThen (signToken line .kwReturn)
    ⟨signToken line .kwReturn :: signToken line .kwFunction :: t :: ts, last⟩ rfl ?_
  refine Reads.andThen true
    ⟨signToken line .kwReturn :: signToken line .kwFunction :: t :: ts, last⟩ rfl ?_
  refine Reads.andThen ⟨isVararg, inLoop, locals, levels + 1⟩
    ⟨signToken line .kwReturn :: signToken line .kwFunction :: t :: ts, last⟩ rfl ?_
  refine Reads.andThen () ⟨signToken line .kwFunction :: t :: ts, line⟩ rfl ?_
  refine Reads.andThen (signToken line .kwFunction)
    ⟨signToken line .kwFunction :: t :: ts, line⟩ rfl ?_
  refine Reads.andThen false ⟨signToken line .kwFunction :: t :: ts, line⟩ rfl ?_
  exact hexpressions.bind rfl

open Script (readProgram)

/-- A program is read if its statements are, up to the end of the source. -/
theorem readProgram_of_reads {levels line last : Nat} {source : Bytes} {t : Script.Token}
    {ts : List Script.Token} {stmts : List Stmt} (hts : Script.tokens source = t :: ts)
    (ht : IsGood t)
    (h : Reads (Script.Grammar.block (16 * (ts.length + 2))
        { isVararg := true, levels := Script.Grammar.maxLevels - levels }) ⟨t :: ts, 1⟩ stmts
      ⟨[stopToken line], last⟩) :
    readProgram levels source = .ok (.mk [] true stmts) := by
  have hcheck : Reads Script.Grammar.checkToken ⟨t :: ts, 1⟩ () ⟨t :: ts, 1⟩ := by
    obtain ⟨symbol, l⟩ := t
    cases symbol with
    | bad reason => exact absurd rfl (ht reason)
    | _ => rfl
  have hprogram : Reads (Script.Grammar.program levels (16 * (ts.length + 2))) ⟨t :: ts, 1⟩
      (.mk [] true stmts) ⟨[stopToken line], last⟩ := by
    rw [Script.Grammar.program]
    exact hcheck.bind (h.bind rfl)
  unfold Reads at hprogram
  simp only [readProgram, hts, Script.Grammar.enoughFuel, List.length_cons, StateT.run'_eq,
    hprogram]
  rfl

/-- A program is read if its tokens are those of a block. -/
theorem readProgram_of_isBody {levels line : Nat} {source : Bytes} {body : List Script.Token}
    {stmts : List Stmt} (hbody : IsBody (Script.Grammar.maxLevels - levels) body stmts)
    (htokens : Script.tokens source = body ++ [stopToken line]) :
    readProgram levels source = .ok (.mk [] true stmts) := by
  obtain ⟨u, us, hu, hgood⟩ := hbody.head (isGood_stopToken line) []
  have hlength := congrArg List.length hu
  rw [List.length_append, List.length_singleton, List.length_cons] at hlength
  obtain ⟨last, hblock⟩ := hbody.reads
    (s := { isVararg := true, levels := Script.Grammar.maxLevels - levels }) (.inl rfl) rfl
    (isGood_stopToken line) rfl [] 1 (by omega : _ ≤ 16 * (us.length + 2))
  rw [hu] at hblock
  exact readProgram_of_reads (htokens.trans hu) hgood hblock

/-- The code of a plain view is read as its statements. -/
theorem readProgram_sources {levels : Nat} (h : levels ≤ 194) (ds : List Directive) :
    readProgram levels (utf8 (Directive.sources ds)) = .ok (.mk [] true (Directive.stmts 1 ds)) := by
  obtain ⟨n, hn, hscan⟩ := tokensFrom_sources ds
  have htokens : Script.tokens (utf8 (Directive.sources ds))
      = Directive.allTokens 1 ds ++ [stopToken (1 + ds.length)] := by
    have := hscan ((utf8 (Directive.sources ds)).length - n) 1 [] (by simp)
    rw [List.append_nil, show (utf8 (Directive.sources ds)).length - n + 1 + n
      = (utf8 (Directive.sources ds)).length + 1 by omega] at this
    exact this
  exact readProgram_of_isBody
    (isBody_allTokens (by simp only [Script.Grammar.maxLevels]; omega) 1 ds) htokens

/-- A program that returns a function is read from its tokens. -/
theorem readProgram_of_tokens {levels : Nat} (h : levels + 2 ≤ Script.Grammar.maxLevels)
    {source : Bytes} {names : List Script.Name} (hnames : names.length ≤ 1)
    {params : List Script.Token} {p : Script.Token} {ps : List Script.Token}
    (hps : params = p :: ps) (hp : IsGood p) {body : List Script.Token} {stmts : List Stmt}
    (hbody : IsBody (Script.Grammar.maxLevels - levels - 2) body stmts) (stop : Nat)
    (hparams : ∀ fuel u us, IsGood u → Reads (Script.Grammar.paramList (fuel + 4))
      ⟨params ++ u :: us, 1⟩ (names, false) ⟨u :: us, 1⟩)
    (htokens : Script.tokens source = signToken 1 .kwReturn :: signToken 1 .kwFunction
      :: (params ++ (body ++ [signToken stop .kwEnd, stopToken stop]))) :
    readProgram levels source = .ok (.mk [] true [.return [.function (.mk names false stmts)]]) := by
  subst hps
  obtain ⟨fuel, hfuel⟩ : ∃ fuel, 16 * ((signToken 1 .kwFunction :: (p :: ps
      ++ (body ++ [signToken stop .kwEnd, stopToken stop]))).length + 2) = fuel + 9 := by
    apply Nat.exists_eq_add_of_le'
    rw [List.length_cons]
    omega
  have hf := reads_functionBody hnames
    (s := { isVararg := true, levels := Script.Grammar.maxLevels - levels - 2 }) hbody (fuel + 4) 1
    (hparams fuel) (by simp only [List.length_append, List.length_cons] at hfuel; omega) stop
    (isGood_stopToken stop) []
  have hblock := reads_return_function
    (s := { isVararg := true, levels := Script.Grammar.maxLevels - levels })
    (show _ = Script.Grammar.maxLevels - levels - 2 + 2 by simp only; omega) hp hf
  rw [show fuel + 4 + 1 + 4 = fuel + 9 from rfl, ← hfuel] at hblock
  exact readProgram_of_reads htokens (isGood_signToken 1 .kwReturn) (hblock 1)

/-- The function that code is compiled into is read as the statements of the code. -/
theorem readProgram_functionSource_of_isBody {levels : Nat}
    (h : levels + 2 ≤ Script.Grammar.maxLevels) {code : String} {body : List Script.Token}
    {stmts : List Stmt} (hbody : IsBody (Script.Grammar.maxLevels - levels - 2) body stmts)
    {n line : Nat} (hn : n ≤ (utf8 code).length)
    (hscan : ∀ fuel rest, rest.head? ≠ some 0x0d →
      tokensFrom (fuel + 1 + n) 1 (utf8 code ++ rest) = body ++ tokensFrom (fuel + 1) line rest) :
    readProgram levels (Script.functionSource code)
      = .ok (.mk [] true [.return [.function (.mk [utf8 "_ENV"] false stmts)]]) := by
  have hstart (fuel : Nat) (rest : Bytes) :
      tokensFrom (fuel + 1 + 5) 1 (Script.ascii "return function(_ENV) " ++ rest)
        = signToken 1 .kwReturn :: signToken 1 .kwFunction :: signToken 1 .leftParen
          :: nameToken 1 "_ENV" :: signToken 1 .rightParen :: tokensFrom (fuel + 1) 1 rest := by
    have hbytes : Script.ascii "return function(_ENV) "
        = [0x72, 0x65, 0x74, 0x75, 0x72, 0x6e, 0x20, 0x66, 0x75, 0x6e, 0x63, 0x74, 0x69, 0x6f,
           0x6e, 0x28, 0x5f, 0x45, 0x4e, 0x56, 0x29, 0x20] := by decide
    rw [hbytes, ← tokensFrom_space]
    rfl
  have hend (fuel line : Nat) : tokensFrom (fuel + 2) line (Script.ascii "\nend")
      = [signToken (line + 1) .kwEnd, stopToken (line + 1)] := by
    have hbytes : Script.ascii "\nend" = [0x0a, 0x65, 0x6e, 0x64] := by decide
    rw [hbytes]
    rfl
  have htokens : Script.tokens (Script.functionSource code)
      = signToken 1 .kwReturn :: signToken 1 .kwFunction
        :: ([signToken 1 .leftParen, nameToken 1 "_ENV", signToken 1 .rightParen]
          ++ (body ++ [signToken (line + 1) .kwEnd, stopToken (line + 1)])) := by
    have hlength : (Script.functionSource code).length = 26 + (utf8 code).length := by
      simp only [Script.functionSource, List.length_append,
        show (Script.ascii "return function(_ENV) ").length = 22 by decide,
        show (Script.ascii "\nend").length = 4 by decide]
      omega
    obtain ⟨fuel, hfuel⟩ : ∃ fuel, (Script.functionSource code).length + 1
        = fuel + (1 + n + 1 + 5) := Nat.exists_eq_add_of_le' (by omega)
    rw [Script.tokens, hfuel, Script.functionSource, List.append_assoc,
      show fuel + (1 + n + 1 + 5) = (fuel + 1 + n) + 1 + 5 by omega, hstart,
      show fuel + 1 + n + 1 = (fuel + 1) + 1 + n by omega, hscan _ _ (by decide), hend]
    rfl
  refine readProgram_of_tokens h (Nat.le_refl _) rfl (p := signToken 1 .leftParen)
    (isGood_signToken 1 .leftParen) hbody _ (fun fuel u us hu => ?_) htokens
  obtain ⟨symbol, l⟩ := u
  cases symbol with
  | bad reason => exact absurd rfl (hu reason)
  | _ => rfl

/-- The function that a plain view's code is compiled into is read as its statements. -/
theorem readProgram_functionSource {levels : Nat} (h : levels ≤ 192) (ds : List Directive) :
    readProgram levels (Script.functionSource (Directive.sources ds))
      = .ok (.mk [] true [.return
          [.function (.mk [utf8 "_ENV"] false (Directive.stmts 1 ds))]]) := by
  obtain ⟨n, hn, hscan⟩ := tokensFrom_sources ds
  have hlevels : levels + 7 ≤ Script.Grammar.maxLevels := by
    simp only [Script.Grammar.maxLevels]
    omega
  exact readProgram_functionSource_of_isBody (by omega) (isBody_allTokens (by omega) 1 ds) hn
    fun fuel rest hrest => hscan fuel 1 rest hrest

/-- The function that places content is read as the statements of the content. -/
theorem readProgram_content {levels : Nat} (h : levels ≤ 192) (ds : List Directive) :
    readProgram levels (utf8 "return " ++ utf8 ("function()\n" ++ Directive.sources ds ++ "end"))
      = .ok (.mk [] true [.return [.function (.mk [] false (Directive.stmts 2 ds))]]) := by
  obtain ⟨n, hn, hscan⟩ := tokensFrom_sources ds
  have hstart (fuel : Nat) (rest : Bytes) :
      tokensFrom (fuel + 1 + 4) 1 (utf8 "return function()\n" ++ rest)
        = signToken 1 .kwReturn :: signToken 1 .kwFunction :: signToken 1 .leftParen
          :: signToken 1 .rightParen :: tokensFrom (fuel + 1) 1 (0x0a :: rest) := by
    have hbytes : utf8 "return function()\n"
        = [0x72, 0x65, 0x74, 0x75, 0x72, 0x6e, 0x20, 0x66, 0x75, 0x6e, 0x63, 0x74, 0x69, 0x6f,
           0x6e, 0x28, 0x29, 0x0a] := by decide
    rw [hbytes]
    rfl
  have hend (fuel line : Nat) : tokensFrom (fuel + 2) line (utf8 "end")
      = [signToken line .kwEnd, stopToken line] := by
    have hbytes : utf8 "end" = [0x65, 0x6e, 0x64] := by decide
    rw [hbytes]
    rfl
  have hbytes : utf8 "return " ++ utf8 ("function()\n" ++ Directive.sources ds ++ "end")
      = utf8 "return function()\n" ++ (utf8 (Directive.sources ds) ++ utf8 "end") := by
    have : utf8 "return function()\n" = utf8 "return " ++ utf8 "function()\n" := by decide
    rw [utf8_append, utf8_append, this]
    simp only [List.append_assoc]
  have hhead : (utf8 (Directive.sources ds) ++ utf8 "end").head? ≠ some 0x0d := by
    cases ds with
    | nil => decide
    | cons d ds =>
      rw [Directive.sources, utf8_append, List.append_assoc]
      exact head?_source_append d _
  have htokens : Script.tokens
      (utf8 "return " ++ utf8 ("function()\n" ++ Directive.sources ds ++ "end"))
      = signToken 1 .kwReturn :: signToken 1 .kwFunction
        :: ([signToken 1 .leftParen, signToken 1 .rightParen]
          ++ (Directive.allTokens 2 ds ++ [signToken (2 + ds.length) .kwEnd,
            stopToken (2 + ds.length)])) := by
    have hlength : (utf8 "return function()\n"
        ++ (utf8 (Directive.sources ds) ++ utf8 "end")).length
          = 21 + (utf8 (Directive.sources ds)).length := by
      simp only [List.length_append, show (utf8 "return function()\n").length = 18 by decide,
        show (utf8 "end").length = 3 by decide]
      omega
    obtain ⟨fuel, hfuel⟩ : ∃ fuel, (utf8 "return function()\n"
        ++ (utf8 (Directive.sources ds) ++ utf8 "end")).length + 1
          = fuel + (1 + n + 1 + 4) := Nat.exists_eq_add_of_le' (by omega)
    rw [hbytes, Script.tokens, hfuel,
      show fuel + (1 + n + 1 + 4) = (fuel + 1 + n) + 1 + 4 by omega, hstart,
      tokensFrom_newline hhead, show fuel + 1 + n + 1 = (fuel + 1) + 1 + n by omega, hscan _ _ _ (by decide), hend]
    rfl
  have hlevels : levels + 7 ≤ Script.Grammar.maxLevels := by
    simp only [Script.Grammar.maxLevels]
    omega
  refine readProgram_of_tokens (by omega) (Nat.zero_le _) rfl (p := signToken 1 .leftParen)
    (isGood_signToken 1 .leftParen) (isBody_allTokens (by omega) 2 ds) _ (fun fuel u us hu => ?_)
    htokens
  obtain ⟨symbol, l⟩ := u
  cases symbol with
  | bad reason => exact absurd rfl (hu reason)
  | _ => rfl

end ScriptedViews.Code

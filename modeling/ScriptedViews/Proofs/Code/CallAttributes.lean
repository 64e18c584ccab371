import ScriptedViews.Proofs.Code.Snippets

set_option autoImplicit false

/-! # Code of the attributes of a call

The table of attributes that a call hands on is made by a function that is called where it stands.
Its code is told for any attributes whose values are snippets: each value is read as the expression
that it is on its own, in a block that declares a variable for it and puts it into the table. -/

namespace ScriptedViews.Code

open Script (Bytes utf8 utf8_append tokensFrom Expr Stmt)
open Script.Grammar (Cursor Setting)

/-! ## Attributes -/

/-- An attribute that a call hands on: where it stands among the attributes of its element, the name
    that it is handed on under, and the expression of its value. -/
structure CallAttribute (levels : Nat) where
  index : Nat
  key : String
  value : Snippet levels

/-- What an attribute has for an expression. -/
def valueSource (a : Attribute) : String :=
  if Text.isBlankText a.value then "\"\"" else a.value

/-- Whether the attributes of an element, from place `i` on, hand on some attributes: all that are to
    be handed on have an expression. -/
inductive HandsOn {levels : Nat} (qualifier : String) :
    Nat → List Attribute → List (CallAttribute levels) → Prop where
  | nil (i : Nat) : HandsOn qualifier i [] []
  | skip {i : Nat} {a : Attribute} {rest : List Attribute} {as : List (CallAttribute levels)}
      (h : isPassed qualifier a = false) (hrest : HandsOn qualifier (i + 1) rest as) :
      HandsOn qualifier i (a :: rest) as
  | pass {i : Nat} {a : Attribute} {rest : List Attribute} {as : List (CallAttribute levels)}
      (h : isPassed qualifier a = true) (e : Snippet levels) (he : e.source = valueSource a)
      (hrest : HandsOn qualifier (i + 1) rest as) :
      HandsOn qualifier i (a :: rest) (⟨i, a.name.localName, e⟩ :: as)

/-- The variable that holds the table. -/
def mapName : Script.Name :=
  utf8 "map"

namespace CallAttribute

variable {levels : Nat} (a : CallAttribute levels)

/-- The variable that holds the value of an attribute. -/
def variableName : String :=
  "value_" ++ toString a.index

/-- The name of that variable. -/
def valueName : Script.Name :=
  utf8 a.variableName

/-- The code of an attribute. -/
def source : String :=
  "local " ++ a.variableName ++ " = " ++ a.value.source ++ " if " ++ Vocabulary.bridgeBinding
    ++ ":truthy(" ++ a.variableName ++ ") then map[" ++ literal a.key ++ "] = " ++ a.variableName
    ++ " end "

/-- The code of some attributes, one after the other. -/
def sources : List (CallAttribute levels) → String
  | [] => ""
  | a :: as => a.source ++ sources as

end CallAttribute

open CallAttribute (sources)

variable {levels : Nat}

theorem passAttribute_eq (i : Nat) (a : Attribute) {e : Snippet levels}
    (he : e.source = valueSource a) :
    passAttribute i a = CallAttribute.source ⟨i, a.name.localName, e⟩ := by
  unfold passAttribute CallAttribute.source CallAttribute.variableName
  dsimp only
  rw [he]
  unfold valueSource
  with_reducible rfl

/-- The code of the attributes of an element is that of the attributes that it hands on. -/
theorem HandsOn.passAttributes_eq {qualifier : String} {i : Nat} {attributes : List Attribute}
    {as : List (CallAttribute levels)} (h : HandsOn qualifier i attributes as) :
    passAttributes qualifier i attributes = sources as := by
  induction h with
  | nil i => rw [passAttributes, sources]
  | skip h _ ih => rw [passAttributes, h, if_neg Bool.false_ne_true, String.empty_append, ih]
  | pass h e he _ ih =>
    rw [passAttributes, h, if_pos rfl, ih, passAttribute_eq _ _ he, sources]

namespace CallAttribute

variable (a : CallAttribute levels)

/-! ## Tokens -/

/-- The tokens that put the value of an attribute into the table. -/
def storeTokens (line : Nat) : List Script.Token :=
  [signToken line .kwIf, nameToken line "xview", signToken line .colon, nameToken line "truthy",
   signToken line .leftParen, nameToken line a.variableName, signToken line .rightParen,
   signToken line .kwThen, nameToken line "map", signToken line .leftBracket,
   textToken line a.key, signToken line .rightBracket, signToken line .equal,
   nameToken line a.variableName, signToken line .kwEnd]

/-- The tokens of an attribute with so many lines above it. -/
def tokens (d : Nat) : List Script.Token :=
  signToken (d + 1) .kwLocal :: nameToken (d + 1) a.variableName :: signToken (d + 1) .equal
    :: (a.value.tokens.map (Script.Token.shift d) ++ a.storeTokens (a.value.lines + d + 1))

/-- The tokens of some attributes with so many lines above them. -/
def allTokens : Nat → List (CallAttribute levels) → List Script.Token
  | _, [] => []
  | d, a :: as => a.tokens d ++ allTokens (a.value.lines + d) as

/-- How many lines there are above what follows some attributes. -/
def linesAfter : Nat → List (CallAttribute levels) → Nat
  | d, [] => d
  | d, a :: as => linesAfter (a.value.lines + d) as

theorem length_tokens (d : Nat) : (a.tokens d).length = a.value.tokens.length + 18 := by
  simp [tokens, storeTokens]

/-! ## Scanning -/

theorem isDigitByte_of_mem_toString {n : Nat} {b : UInt8} (hb : b ∈ utf8 (toString n)) :
    Script.isDigitByte b = true := by
  have hdigits : utf8 (toString n) = (Nat.toDigits 10 n).flatMap String.utf8EncodeChar :=
    Script.utf8_ofList _
  rw [hdigits] at hb
  obtain ⟨c, hc, hb⟩ := List.mem_flatMap.1 hb
  have hdigit := Nat.isDigit_of_mem_toDigits (by decide) (by decide) hc
  simp only [Char.isDigit, Bool.and_eq_true, decide_eq_true_eq, ge_iff_le, UInt32.le_iff_toNat_le]
    at hdigit
  have hlow : 48 ≤ c.val.toNat := hdigit.1
  have hhigh : c.val.toNat ≤ 57 := hdigit.2
  have hsize : c.utf8Size = 1 := by
    rw [Char.utf8Size_eq_one_iff, UInt32.le_iff_toNat_le]
    exact Nat.le_trans hhigh (by decide)
  rw [String.utf8EncodeChar_eq_singleton hsize, List.mem_singleton] at hb
  subst hb
  have hbyte : c.val.toUInt8.toNat = c.val.toNat := by
    rw [UInt32.toNat_toUInt8]
    omega
  simp only [Script.isDigitByte, Bool.and_eq_true, decide_eq_true_eq, UInt8.le_iff_toNat_le, hbyte]
  exact ⟨hlow, hhigh⟩

theorem utf8_variableName : a.valueName
    = [0x76, 0x61, 0x6c, 0x75, 0x65, 0x5f] ++ utf8 (toString a.index) := by
  have h : utf8 "value_" = [0x76, 0x61, 0x6c, 0x75, 0x65, 0x5f] := by decide
  rw [valueName, variableName, utf8_append, h]

/-- The variable of an attribute is scanned as a name. -/
theorem tokensFrom_variableName {c : UInt8} {rest bs : Bytes} (hbs : bs = c :: rest)
    (hc : Script.isNameByte c = false) (fuel line : Nat) :
    tokensFrom (fuel + 1) line (utf8 a.variableName ++ bs)
      = nameToken line a.variableName :: tokensFrom fuel line bs := by
  subst hbs
  have hname : utf8 a.variableName = a.valueName := rfl
  have hbytes : ∀ b ∈ a.valueName, Script.isNameByte b = true := by
    intro b hb
    rw [utf8_variableName] at hb
    rcases List.mem_append.1 hb with hb | hb
    · have hall : List.all [0x76, 0x61, 0x6c, 0x75, 0x65, 0x5f] Script.isNameByte = true := rfl
      exact List.all_eq_true.1 hall b hb
    · simp [Script.isNameByte, isDigitByte_of_mem_toString hb]
  have htake : (a.valueName ++ c :: rest).takeWhile Script.isNameByte = a.valueName := by
    rw [List.takeWhile_append_of_pos hbytes, List.takeWhile_cons_of_neg (by simp [hc]),
      List.append_nil]
  have hdrop : (a.valueName ++ c :: rest).dropWhile Script.isNameByte = c :: rest := by
    rw [List.dropWhile_append_of_pos hbytes, List.dropWhile_cons_of_neg (by simp [hc])]
  have hsymbol : Script.nameSymbol a.valueName = .name a.valueName := by
    rw [utf8_variableName]
    rfl
  have hstart : a.valueName ++ c :: rest
      = 0x76 :: (a.valueName.tail ++ c :: rest) := by
    rw [utf8_variableName]
    rfl
  have hscan : Script.scanToken line (0x76 :: (a.valueName.tail ++ c :: rest))
      = ⟨.name a.valueName, line, c :: rest⟩ := by
    have hname : Script.scanToken line (0x76 :: (a.valueName.tail ++ c :: rest))
        = ⟨Script.nameSymbol ((a.valueName ++ c :: rest).takeWhile Script.isNameByte), line,
          (a.valueName ++ c :: rest).dropWhile Script.isNameByte⟩ := by
      rw [hstart]
      rfl
    rw [hname, htake, hdrop, hsymbol]
  rw [hname, hstart]
  exact Script.tokensFrom_token rfl (by simp) hscan (by simp) (by simp)

theorem utf8_source : utf8 a.source
    = utf8 "local " ++ (utf8 a.variableName ++ (utf8 " = " ++ (utf8 a.value.source
      ++ (utf8 " if xview:truthy(" ++ (utf8 a.variableName ++ (utf8 ") then map["
        ++ (utf8 (literal a.key) ++ (utf8 "] = " ++ (utf8 a.variableName ++ utf8 " end "))))))))) := by
  have h : utf8 " if xview:truthy(" = utf8 " if " ++ (utf8 "xview" ++ utf8 ":truthy(") := by
    rw [← utf8_append, ← utf8_append]
    rfl
  unfold source
  simp only [show Vocabulary.bridgeBinding = "xview" from rfl, utf8_append, List.append_assoc, h]

/-- The start of a declaration. -/
theorem tokensFrom_local (fuel line : Nat) (rest : Bytes) :
    tokensFrom (fuel + 2) line (utf8 "local " ++ rest)
      = signToken line .kwLocal :: tokensFrom (fuel + 1) line rest := by
  have h : utf8 "local " = [0x6c, 0x6f, 0x63, 0x61, 0x6c, 0x20] := by decide
  rw [h, ← tokensFrom_space fuel line rest]
  rfl

theorem tokensFrom_equal (fuel line : Nat) (rest : Bytes) :
    tokensFrom (fuel + 2) line (utf8 " = " ++ rest)
      = signToken line .equal :: tokensFrom (fuel + 1) line rest := by
  have h : utf8 " = " = [0x20, 0x3d, 0x20] := by decide
  rw [h, ← tokensFrom_space fuel line rest]
  rfl

/-- The start of a conditional about a value. -/
theorem tokensFrom_truthy (fuel line : Nat) (rest : Bytes) :
    tokensFrom (fuel + 5) line (utf8 " if xview:truthy(" ++ rest)
      = signToken line .kwIf :: nameToken line "xview" :: signToken line .colon
        :: nameToken line "truthy" :: signToken line .leftParen :: tokensFrom fuel line rest := by
  have h : utf8 " if xview:truthy(" = [0x20, 0x69, 0x66, 0x20, 0x78, 0x76, 0x69, 0x65, 0x77, 0x3a,
      0x74, 0x72, 0x75, 0x74, 0x68, 0x79, 0x28] := by decide
  rw [h]
  rfl

/-- The start of an assignment to a field of the table. -/
theorem tokensFrom_field (key : String) (fuel line : Nat) (rest : Bytes) :
    tokensFrom (fuel + 5) line (utf8 ") then map[" ++ (utf8 (literal key) ++ rest))
      = signToken line .rightParen :: signToken line .kwThen :: nameToken line "map"
        :: signToken line .leftBracket :: textToken line key :: tokensFrom fuel line rest := by
  have h : utf8 ") then map[" = [0x29, 0x20, 0x74, 0x68, 0x65, 0x6e, 0x20, 0x6d, 0x61, 0x70, 0x5b] := by
    decide
  obtain ⟨bs, hbs⟩ : ∃ bs, utf8 (literal key) ++ rest = 0x22 :: bs :=
    ⟨_, by rw [Script.utf8_literal, List.cons_append, List.cons_append]⟩
  rw [← tokensFrom_literal key fuel line rest, h, hbs]
  rfl

theorem tokensFrom_value (fuel line : Nat) (rest : Bytes) :
    tokensFrom (fuel + 3) line (utf8 "] = " ++ rest)
      = signToken line .rightBracket :: signToken line .equal :: tokensFrom (fuel + 1) line rest := by
  have h : utf8 "] = " = [0x5d, 0x20, 0x3d, 0x20] := by decide
  rw [h, ← tokensFrom_space fuel line rest]
  rfl

theorem tokensFrom_end (fuel line : Nat) (rest : Bytes) :
    tokensFrom (fuel + 2) line (utf8 " end " ++ rest)
      = signToken line .kwEnd :: tokensFrom (fuel + 1) line rest := by
  have h : utf8 " end " = [0x20, 0x65, 0x6e, 0x64, 0x20] := by decide
  rw [h, ← tokensFrom_space fuel line rest]
  rfl

/-- An attribute is scanned as its tokens. -/
theorem tokensFrom_source (d fuel : Nat) (rest : Bytes) :
    tokensFrom (fuel + 1 + (a.tokens d).length) (d + 1) (utf8 a.source ++ rest)
      = a.tokens d ++ tokensFrom (fuel + 1) (a.value.lines + d + 1) rest := by
  have hequal (rest : Bytes) : utf8 " = " ++ rest = 0x20 :: ((utf8 " = ").tail ++ rest) := rfl
  have htruthy (rest : Bytes) :
      utf8 " if xview:truthy(" ++ rest = 0x20 :: ((utf8 " if xview:truthy(").tail ++ rest) := rfl
  have hfield (rest : Bytes) :
      utf8 ") then map[" ++ rest = 0x29 :: ((utf8 ") then map[").tail ++ rest) := rfl
  have hend (rest : Bytes) : utf8 " end " ++ rest = 0x20 :: ((utf8 " end ").tail ++ rest) := rfl
  let n := a.value.tokens.length
  have hvalue (rest : Bytes) :
      tokensFrom (fuel + 15 + n + 1) (d + 1) (utf8 a.value.source ++ (utf8 " if xview:truthy(" ++ rest))
        = a.value.tokens.map (Script.Token.shift d)
          ++ tokensFrom (fuel + 15 + 1) (a.value.lines + d + 1) (utf8 " if xview:truthy(" ++ rest) := by
    rw [htruthy, Nat.add_comm d 1, Nat.add_right_comm _ n 1, a.value.scans.tokensFrom_append
      (.inr (.inl rfl)) rfl d,
      Nat.add_right_comm a.value.lines 1 d]
  rw [utf8_source]
  simp only [List.append_assoc]
  rw [length_tokens, show fuel + 1 + (n + 18) = fuel + 15 + n + 2 + 2 by omega,
    tokensFrom_local, tokensFrom_variableName a (hequal _) rfl, tokensFrom_equal, hvalue,
    tokensFrom_truthy (fuel + 11), tokensFrom_variableName a (hfield _) rfl,
    tokensFrom_field a.key (fuel + 5), tokensFrom_value (fuel + 2),
    tokensFrom_variableName a (hend _) rfl, tokensFrom_end fuel]
  simp [tokens, storeTokens]

/-- Attributes are scanned one after the other. -/
theorem tokensFrom_sources (as : List (CallAttribute levels)) (d fuel : Nat) (rest : Bytes) :
    tokensFrom (fuel + 1 + (allTokens d as).length) (d + 1) (utf8 (sources as) ++ rest)
      = allTokens d as ++ tokensFrom (fuel + 1) (linesAfter d as + 1) rest := by
  induction as generalizing d with
  | nil => rfl
  | cons a as ih =>
    rw [sources, utf8_append, List.append_assoc, allTokens, List.length_append,
      show fuel + 1 + ((a.tokens d).length + (allTokens (a.value.lines + d) as).length)
        = fuel + (allTokens (a.value.lines + d) as).length + 1 + (a.tokens d).length by omega,
      tokensFrom_source, Nat.add_right_comm fuel, ih, linesAfter, List.append_assoc]

theorem length_allTokens_le (d : Nat) (as : List (CallAttribute levels)) :
    (allTokens d as).length ≤ (utf8 (sources as)).length := by
  induction as generalizing d with
  | nil => exact Nat.zero_le _
  | cons a as ih =>
    have hvalue := a.value.scans.length_le
    have hlocal : (utf8 "local ").length = 6 := by decide
    have htruthy : (utf8 " if xview:truthy(").length = 17 := by decide
    have := ih (a.value.lines + d)
    rw [allTokens, sources, utf8_append, List.length_append, List.length_append, length_tokens,
      utf8_source]
    simp only [List.length_append]
    omega

/-! ## The table -/

/-- The tokens of the table of some attributes with so many lines above it. -/
def tableTokens (d : Nat) (as : List (CallAttribute levels)) : List Script.Token :=
  [signToken (d + 1) .leftParen, signToken (d + 1) .kwFunction, signToken (d + 1) .leftParen,
   signToken (d + 1) .rightParen, signToken (d + 1) .kwLocal, nameToken (d + 1) "map",
   signToken (d + 1) .equal, signToken (d + 1) .leftBrace, signToken (d + 1) .rightBrace]
    ++ (allTokens d as
      ++ [signToken (linesAfter d as + 1) .kwReturn, nameToken (linesAfter d as + 1) "map",
          signToken (linesAfter d as + 1) .kwEnd, signToken (linesAfter d as + 1) .rightParen,
          signToken (linesAfter d as + 1) .leftParen, signToken (linesAfter d as + 1) .rightParen])

theorem tokensFrom_function (fuel line : Nat) (rest : Bytes) :
    tokensFrom (fuel + 10) line (utf8 "(function() local map = \x7b\x7d " ++ rest)
      = [signToken line .leftParen, signToken line .kwFunction, signToken line .leftParen,
         signToken line .rightParen, signToken line .kwLocal, nameToken line "map",
         signToken line .equal, signToken line .leftBrace, signToken line .rightBrace]
        ++ tokensFrom (fuel + 1) line rest := by
  have h : utf8 "(function() local map = \x7b\x7d "
      = [0x28, 0x66, 0x75, 0x6e, 0x63, 0x74, 0x69, 0x6f, 0x6e, 0x28, 0x29, 0x20, 0x6c, 0x6f, 0x63,
         0x61, 0x6c, 0x20, 0x6d, 0x61, 0x70, 0x20, 0x3d, 0x20, 0x7b, 0x7d, 0x20] := by
    decide
  rw [h, ← tokensFrom_space fuel line rest]
  rfl

theorem tokensFrom_return (fuel line : Nat) (rest : Bytes) :
    tokensFrom (fuel + 6) line (utf8 "return map end)()" ++ rest)
      = [signToken line .kwReturn, nameToken line "map", signToken line .kwEnd,
         signToken line .rightParen, signToken line .leftParen, signToken line .rightParen]
        ++ tokensFrom fuel line rest := by
  have h : utf8 "return map end)()"
      = [0x72, 0x65, 0x74, 0x75, 0x72, 0x6e, 0x20, 0x6d, 0x61, 0x70, 0x20, 0x65, 0x6e, 0x64, 0x29,
         0x28, 0x29] := by
    decide
  rw [h]
  rfl

theorem utf8_callAttributes {qualifier : String} {attributes : List Attribute}
    {as : List (CallAttribute levels)} (h : HandsOn qualifier 0 attributes as) :
    utf8 (callAttributes qualifier attributes)
      = utf8 "(function() local map = \x7b\x7d " ++ (utf8 (sources as) ++ utf8 "return map end)()") := by
  unfold callAttributes
  simp only [h.passAttributes_eq, utf8_append, List.append_assoc]

/-- The table of the attributes of an element is scanned as its tokens. -/
theorem tokensFrom_callAttributes {qualifier : String} {attributes : List Attribute}
    {as : List (CallAttribute levels)} (h : HandsOn qualifier 0 attributes as) (d fuel : Nat)
    (rest : Bytes) :
    tokensFrom (fuel + (tableTokens d as).length) (d + 1)
        (utf8 (callAttributes qualifier attributes) ++ rest)
      = tableTokens d as ++ tokensFrom fuel (linesAfter d as + 1) rest := by
  have hlength : (tableTokens d as).length = (allTokens d as).length + 15 := by
    simp [tableTokens]
  rw [utf8_callAttributes h, List.append_assoc, List.append_assoc, hlength,
    show fuel + ((allTokens d as).length + 15) = fuel + 5 + (allTokens d as).length + 10 by omega,
    tokensFrom_function, Nat.add_right_comm _ _ 1, tokensFrom_sources, tokensFrom_return]
  simp only [tableTokens, List.append_assoc]

/-! ## Reading -/

/-- The statement that puts the value of an attribute into the table. -/
def storeStmt (line : Nat) : Stmt :=
  .cond (.methodCall line line (.name line bridgeName) (utf8 "truthy") [.name line a.valueName])
    [.assign line [.index line (.name line mapName) (.text (utf8 a.key))] [.name line a.valueName]] []

/-- An attribute with so many lines above it, as a part of a block. -/
def stmts (d : Nat) : List Stmt :=
  [.local [a.valueName] [a.value.tree.shift d], a.storeStmt (a.value.lines + d + 1)]

/-- Some attributes with so many lines above them, as a part of a block. -/
def allStmts : Nat → List (CallAttribute levels) → List Stmt
  | _, [] => []
  | d, a :: as => a.stmts d ++ allStmts (a.value.lines + d) as

/-- The function that makes the table of some attributes with so many lines above it. -/
def tableFunction (d : Nat) (as : List (CallAttribute levels)) : Script.Function :=
  .mk [] false (.local [mapName] [.table []]
    :: (allStmts d as ++ [.return [.name (linesAfter d as + 1) mapName]]))

/-- The expression that gives the table of some attributes with so many lines above it. -/
def tableExpr (d : Nat) (as : List (CallAttribute levels)) : Expr :=
  .call (linesAfter d as + 1) (.single (.function (tableFunction d as))) []

theorem reads_accept_sign {sign : Script.Sign} {line last : Nat} {u : Script.Token}
    {us : List Script.Token} (hu : IsGood u) :
    Reads (Script.Grammar.accept sign) ⟨signToken line sign :: u :: us, last⟩ true ⟨u :: us, line⟩ := by
  have hsees : Reads (Script.Grammar.sees sign) ⟨signToken line sign :: u :: us, last⟩ true
      ⟨signToken line sign :: u :: us, last⟩ := by
    have := Script.Grammar.Inside.run_sees sign (signToken line sign) (u :: us) last
    rwa [show Script.Grammar.Inside.isSign sign (signToken line sign) = true from beq_self_eq_true _]
      at this
  rw [Script.Grammar.accept]
  exact hsees.bind ((reads_advance hu).bind rfl)

/-- The declaration of a value is read. -/
theorem reads_declaration {s : Setting} (hlocals : s.locals + 1 ≤ Script.Grammar.maxLocals)
    (hlevels : levels ≤ s.levels) (d last line : Nat) (rest : List Script.Token) {fuel : Nat}
    (hfuel : 16 * a.value.tokens.length + 3 ≤ fuel) :
    ∃ last', Reads (Script.Grammar.statement (fuel + 2) s)
      ⟨signToken (d + 1) .kwLocal :: nameToken (d + 1) a.variableName :: signToken (d + 1) .equal
        :: (a.value.tokens.map (Script.Token.shift d) ++ signToken line .kwIf :: rest), last⟩
      ([.local [a.valueName] [a.value.tree.shift d]], 1) ⟨signToken line .kwIf :: rest, last'⟩ := by
  obtain ⟨last', hvalue⟩ := a.value.reads_inside (s := s) hlevels d (.inr rfl) line rest hfuel
  obtain ⟨u, us, hus, hgood, -⟩ := a.value.exists_cons_append d (signToken line .kwIf) rest
  rw [hus, Nat.add_comm 1 d] at hvalue
  rw [hus]
  have hdeclare (c : Cursor) :
      Reads (Script.Grammar.declare s 1) c { s with locals := s.locals + 1 } c := by
    rw [Script.Grammar.declare, if_neg (Nat.not_lt.2 hlocals)]
    rfl
  have hexpressions : Reads (Script.Grammar.expressions (fuel + 1) s) ⟨u :: us, d + 1⟩
      [a.value.tree.shift d] ⟨signToken line .kwIf :: rest, last'⟩ := by
    rw [Script.Grammar.expressions]
    exact hvalue.bind (.andThen false _ rfl rfl)
  refine ⟨last', ?_⟩
  rw [Script.Grammar.statement]
  refine .andThen (signToken (d + 1) .kwLocal) _ rfl (.andThen (signToken (d + 1) .kwLocal) _ rfl ?_)
  refine .andThen () _ rfl (.andThen false _ rfl (.andThen [a.valueName] _ rfl ?_))
  refine (hdeclare _).bind ((reads_accept_sign hgood).bind ?_)
  simp only [if_true]
  exact hexpressions.bind rfl

/-- The statement that puts a value into the table is read. -/
theorem reads_storeStmt {s : Setting} (hlocals : s.locals ≤ Script.Grammar.maxLocals) {left : Nat}
    (hlevels : s.levels = left + 2) (line last fuel : Nat) {t : Script.Token} (ht : IsGood t)
    (more : List Script.Token) :
    Reads (Script.Grammar.statement (fuel + 12) s) ⟨a.storeTokens line ++ t :: more, last⟩
      ([a.storeStmt line], 0) ⟨t :: more, line⟩ := by
  obtain ⟨isVararg, inLoop, locals, _⟩ := s
  subst hlevels
  have hassign : Reads (Script.Grammar.statement (fuel + 9) ⟨isVararg, inLoop, locals, left + 1⟩)
      ⟨nameToken line "map" :: signToken line .leftBracket :: textToken line a.key
        :: signToken line .rightBracket :: signToken line .equal :: nameToken line a.variableName
        :: signToken line .kwEnd :: t :: more, line⟩
      ([.assign line [.index line (.name line mapName) (.text (utf8 a.key))]
        [.name line a.valueName]], 0)
      ⟨signToken line .kwEnd :: t :: more, line⟩ := rfl
  have hblock := reads_block_cons (s := ⟨isVararg, inLoop, locals, left + 2⟩) hlocals rfl rfl
    (by simp [nameToken]) hassign (reads_block_nil rfl _ _ _)
  have hexpect : Reads (Script.Grammar.expect .kwEnd "'end' expected")
      ⟨signToken line .kwEnd :: t :: more, line⟩ () ⟨t :: more, line⟩ := by
    rw [Script.Grammar.expect]
    exact (reads_accept_sign ht).bind rfl
  have hconditional : Reads (Script.Grammar.conditional (fuel + 11) ⟨isVararg, inLoop, locals, left + 2⟩)
      ⟨(a.storeTokens line).tail ++ t :: more, line⟩ (a.storeStmt line) ⟨t :: more, line⟩ := by
    rw [Script.Grammar.conditional]
    refine .andThen (.methodCall line line (.name line bridgeName) (utf8 "truthy")
      [.name line a.valueName]) _ rfl (.andThen () _ rfl (hblock.bind ?_))
    refine .andThen false _ rfl (.andThen false _ rfl (hexpect.bind rfl))
  rw [Script.Grammar.statement]
  refine .andThen (signToken line .kwIf) _ rfl (.andThen (signToken line .kwIf) _ rfl ?_)
  exact .andThen () _ rfl (hconditional.bind rfl)

/-- The attributes begin with a declaration, unless there are none. -/
theorem exists_cons_allTokens (d line : Nat) (as : List (CallAttribute levels))
    (more : List Script.Token) :
    ∃ line' sign us, allTokens d as ++ signToken line .kwReturn :: more = signToken line' sign :: us
      ∧ (sign = .kwLocal ∨ sign = .kwReturn) := by
  cases as with
  | nil => exact ⟨line, .kwReturn, more, rfl, .inr rfl⟩
  | cons a as => exact ⟨d + 1, .kwLocal, _, rfl, .inl rfl⟩

/-- The attributes are read up to the end of the function that makes their table. -/
theorem reads_allStmts (as : List (CallAttribute levels)) {s : Setting}
    (hlocals : s.locals + as.length ≤ Script.Grammar.maxLocals) (hlevels : levels < s.levels)
    (hleft : 3 ≤ s.levels) (d last : Nat) {fuel : Nat}
    (hfuel : 16 * (allTokens d as).length + 6 ≤ fuel) (t : Script.Token) (more : List Script.Token) :
    Reads (Script.Grammar.block fuel s)
      ⟨allTokens d as ++ signToken (linesAfter d as + 1) .kwReturn
        :: nameToken (linesAfter d as + 1) "map" :: signToken (linesAfter d as + 1) .kwEnd
        :: t :: more, last⟩
      (allStmts d as ++ [.return [.name (linesAfter d as + 1) mapName]])
      ⟨signToken (linesAfter d as + 1) .kwEnd :: t :: more, linesAfter d as + 1⟩ := by
  induction as generalizing s d last fuel with
  | nil =>
    obtain ⟨fuel, rfl⟩ : ∃ n, fuel = n + 6 := ⟨fuel - 6, by simp [allTokens] at hfuel; omega⟩
    obtain ⟨isVararg, inLoop, locals, left⟩ := s
    obtain ⟨left, rfl⟩ : ∃ n, left = n + 3 := ⟨left - 3, by simp only at hleft; omega⟩
    rfl
  | cons a as ih =>
    rw [allTokens, List.length_append, length_tokens] at hfuel
    rw [List.length_cons] at hlocals
    obtain ⟨fuel, rfl⟩ : ∃ n, fuel = n + 14 := ⟨fuel - 14, by omega⟩
    obtain ⟨left, hs⟩ : ∃ n, s.levels = n + 3 := ⟨s.levels - 3, by omega⟩
    let line := a.value.lines + d + 1
    obtain ⟨line', sign, us, hu, -⟩ := exists_cons_allTokens (a.value.lines + d)
      (linesAfter (a.value.lines + d) as + 1) as
      (nameToken (linesAfter (a.value.lines + d) as + 1) "map"
        :: signToken (linesAfter (a.value.lines + d) as + 1) .kwEnd :: t :: more)
    obtain ⟨last', hdeclaration⟩ := a.reads_declaration (s := { s with levels := left + 2 })
      (by simp only; omega) (by simp only; omega) d last line
      ((a.storeTokens line).tail ++ signToken line' sign :: us) (show _ ≤ fuel + 11 by omega)
    have hstore := a.reads_storeStmt
      (s := { s with locals := s.locals + 1, levels := left + 2 }) (by simp only; omega) rfl line last'
      fuel (isGood_signToken line' sign) us
    have hrest := ih (s := { s with locals := s.locals + 1 }) (by simp only; omega) hlevels hleft
      (a.value.lines + d) line (show _ ≤ fuel + 12 by omega)
    rw [hu] at hrest
    have htokens : allTokens d (a :: as) ++ signToken (linesAfter d (a :: as) + 1) .kwReturn
        :: nameToken (linesAfter d (a :: as) + 1) "map"
        :: signToken (linesAfter d (a :: as) + 1) .kwEnd :: t :: more
      = signToken (d + 1) .kwLocal :: nameToken (d + 1) a.variableName :: signToken (d + 1) .equal
        :: (a.value.tokens.map (Script.Token.shift d) ++ signToken line .kwIf
          :: ((a.storeTokens line).tail ++ signToken line' sign :: us)) := by
      rw [← hu]
      simp [allTokens, linesAfter, tokens, storeTokens, line]
    have hblock := reads_block_cons (s := { s with locals := s.locals + 1 }) (by simp only; omega) hs
      rfl (by simp [signToken]) hstore hrest
    have hstmts : allStmts d (a :: as) ++ [.return [.name (linesAfter d (a :: as) + 1) mapName]]
        = [.local [a.valueName] [a.value.tree.shift d]] ++ ([a.storeStmt line]
          ++ (allStmts (a.value.lines + d) as
            ++ [.return [.name (linesAfter (a.value.lines + d) as + 1) mapName]])) := rfl
    rw [htokens, hstmts]
    exact reads_block_declaring (by omega) hs rfl (by simp [signToken]) hdeclaration hblock

/-- The function that makes the table is read. -/
theorem reads_tableFunction (as : List (CallAttribute levels)) {s : Setting}
    (hcount : as.length < Script.Grammar.maxLocals) (hlevels : levels < s.levels)
    (hleft : 3 ≤ s.levels) (d last : Nat) {fuel : Nat}
    (hfuel : 16 * (allTokens d as).length + 12 ≤ fuel) {t : Script.Token} (ht : IsGood t)
    (more : List Script.Token) :
    Reads (Script.Grammar.functionBody fuel s [])
      ⟨signToken (d + 1) .leftParen :: signToken (d + 1) .rightParen :: signToken (d + 1) .kwLocal
        :: nameToken (d + 1) "map" :: signToken (d + 1) .equal :: signToken (d + 1) .leftBrace
        :: signToken (d + 1) .rightBrace :: (allTokens d as
          ++ signToken (linesAfter d as + 1) .kwReturn :: nameToken (linesAfter d as + 1) "map"
            :: signToken (linesAfter d as + 1) .kwEnd :: t :: more), last⟩
      (tableFunction d as) ⟨t :: more, linesAfter d as + 1⟩ := by
  obtain ⟨fuel, rfl⟩ : ∃ n, fuel = n + 12 := ⟨fuel - 12, by omega⟩
  obtain ⟨isVararg, inLoop, locals, left⟩ := s
  obtain ⟨left, rfl⟩ : ∃ n, left = n + 3 := ⟨left - 3, by simp only at hleft; omega⟩
  obtain ⟨line', sign, us, hu, hsign⟩ := exists_cons_allTokens d (linesAfter d as + 1) as
    (nameToken (linesAfter d as + 1) "map" :: signToken (linesAfter d as + 1) .kwEnd :: t :: more)
  have hrest := reads_allStmts as (s := { isVararg := false, locals := 1, levels := left + 3 })
    (by simp only; omega) hlevels hleft d (d + 1) (show _ ≤ fuel + 10 by omega) t more
  rw [hu] at hrest ⊢
  have hmap : Reads (Script.Grammar.statement (fuel + 10) { isVararg := false, levels := left + 2 })
      ⟨signToken (d + 1) .kwLocal :: nameToken (d + 1) "map" :: signToken (d + 1) .equal
        :: signToken (d + 1) .leftBrace :: signToken (d + 1) .rightBrace :: signToken line' sign :: us,
        d + 1⟩
      ([.local [mapName] [.table []]], 1) ⟨signToken line' sign :: us, d + 1⟩ := by
    rcases hsign with rfl | rfl <;> rfl
  have hblock := reads_block_declaring (s := { isVararg := false, levels := left + 3 })
    (by decide : 0 + 1 ≤ Script.Grammar.maxLocals) rfl rfl (by simp [signToken]) hmap hrest
  exact reads_functionBody_of_block (Nat.zero_le _) rfl hblock ht

/-- The expression that gives the table is read, if a comma follows it. -/
theorem reads_tableExpr (as : List (CallAttribute levels)) {s : Setting}
    (hcount : as.length < Script.Grammar.maxLocals) (hlevels : levels + 2 < s.levels)
    (hleft : 5 ≤ s.levels) (d last : Nat) {fuel : Nat}
    (hfuel : 16 * (tableTokens d as).length ≤ fuel) (line : Nat) (more : List Script.Token) :
    Reads (Script.Grammar.expression fuel s 0)
      ⟨tableTokens d as ++ signToken line .comma :: more, last⟩ (tableExpr d as)
      ⟨signToken line .comma :: more, linesAfter d as + 1⟩ := by
  have hlength : (tableTokens d as).length = (allTokens d as).length + 15 := by
    simp [tableTokens]
  obtain ⟨fuel, rfl⟩ : ∃ n, fuel = n + 10 := ⟨fuel - 10, by omega⟩
  obtain ⟨isVararg, inLoop, locals, left⟩ := s
  obtain ⟨left, rfl⟩ : ∃ n, left = n + 2 := ⟨left - 2, by simp only at hleft; omega⟩
  let stop := linesAfter d as + 1
  let after := signToken stop .rightParen :: signToken stop .leftParen
    :: signToken stop .rightParen :: signToken line .comma :: more
  let body := signToken (d + 1) .leftParen :: signToken (d + 1) .rightParen
    :: signToken (d + 1) .kwLocal :: nameToken (d + 1) "map" :: signToken (d + 1) .equal
    :: signToken (d + 1) .leftBrace :: signToken (d + 1) .rightBrace :: (allTokens d as
      ++ signToken stop .kwReturn :: nameToken stop "map" :: signToken stop .kwEnd :: after)
  have htokens : tableTokens d as ++ signToken line .comma :: more
      = signToken (d + 1) .leftParen :: signToken (d + 1) .kwFunction :: body := by
    simp [tableTokens, body, after, stop]
  have hfunction : Reads (Script.Grammar.functionBody (fuel + 5) ⟨isVararg, inLoop, locals, left⟩ [])
      ⟨body, d + 1⟩ (tableFunction d as) ⟨after, stop⟩ :=
    reads_tableFunction as hcount (by simp only at *; omega) (by simp only at *; omega) d (d + 1)
      (by omega) (isGood_signToken stop .rightParen) _
  have hsimple : Reads (Script.Grammar.simple (fuel + 6) ⟨isVararg, inLoop, locals, left⟩)
      ⟨signToken (d + 1) .kwFunction :: body, d + 1⟩ (.function (tableFunction d as))
      ⟨after, stop⟩ := by
    rw [Script.Grammar.simple]
    exact .andThen (signToken (d + 1) .kwFunction) _ rfl (.andThen () _ rfl (hfunction.bind rfl))
  have hinner : Reads (Script.Grammar.expression (fuel + 7) ⟨isVararg, inLoop, locals, left + 1⟩ 0)
      ⟨signToken (d + 1) .kwFunction :: body, d + 1⟩ (.function (tableFunction d as))
      ⟨after, stop⟩ := by
    rw [Script.Grammar.expression]
    refine .andThen ⟨isVararg, inLoop, locals, left⟩ _ rfl ?_
    exact .andThen (signToken (d + 1) .kwFunction) _ rfl (hsimple.bind rfl)
  have hsuffixed : Reads (Script.Grammar.suffixed (fuel + 8) ⟨isVararg, inLoop, locals, left + 1⟩)
      ⟨signToken (d + 1) .leftParen :: signToken (d + 1) .kwFunction :: body, last⟩ (tableExpr d as)
      ⟨signToken line .comma :: more, stop⟩ := by
    rw [Script.Grammar.suffixed]
    refine .andThen (signToken (d + 1) .leftParen) _ rfl (.andThen () _ rfl (hinner.bind ?_))
    exact .andThen () _ rfl rfl
  have houter : Reads (Script.Grammar.simple (fuel + 9) ⟨isVararg, inLoop, locals, left + 1⟩)
      ⟨signToken (d + 1) .leftParen :: signToken (d + 1) .kwFunction :: body, last⟩ (tableExpr d as)
      ⟨signToken line .comma :: more, stop⟩ := by
    rw [Script.Grammar.simple]
    exact .andThen (signToken (d + 1) .leftParen) _ rfl hsuffixed
  rw [htokens, Script.Grammar.expression]
  refine .andThen ⟨isVararg, inLoop, locals, left + 1⟩ _ rfl ?_
  exact .andThen (signToken (d + 1) .leftParen) _ rfl (houter.bind rfl)

/-! ## The call -/

/-- The tokens of a call that hands on some attributes, up to the semicolon. -/
def callTokens (base tag content : String) (as : List (CallAttribute levels)) : List Script.Token :=
  nameToken 1 "xview" :: signToken 1 .colon :: nameToken 1 "execute" :: signToken 1 .leftParen
    :: textToken 1 base :: signToken 1 .comma :: textToken 1 tag :: signToken 1 .comma
    :: (tableTokens 0 as ++ [signToken (linesAfter 0 as + 1) .comma,
      textToken (linesAfter 0 as + 1) content, signToken (linesAfter 0 as + 1) .rightParen,
      signToken (linesAfter 0 as + 1) .semicolon])

/-- The call itself, as a part of a program. -/
def callStmt (base tag content : String) (as : List (CallAttribute levels)) : Stmt :=
  bridgeCall 1 "execute" [.text (utf8 base), .text (utf8 tag), tableExpr 0 as, .text (utf8 content)]

/-- A call is scanned as its tokens, and the line ends with it. -/
theorem tokensFrom_invocationStatement {qualifier : String} {attributes : List Attribute}
    {as : List (CallAttribute levels)} (h : HandsOn qualifier 0 attributes as)
    (base tag content : String) (fuel : Nat) {rest : Bytes} (hrest : rest.head? ≠ some 0x0d) :
    tokensFrom (fuel + 1 + (callTokens base tag content as).length) 1
        (utf8 (invocationStatement base tag (callAttributes qualifier attributes) content) ++ rest)
      = callTokens base tag content as ++ tokensFrom (fuel + 1) (linesAfter 0 as + 2) rest := by
  have hlength : (callTokens base tag content as).length = (tableTokens 0 as).length + 12 := by
    simp [callTokens]
  let n := (tableTokens 0 as).length
  rw [utf8_invocationStatement, hlength]
  simp only [List.append_assoc]
  rw [show fuel + 1 + (n + 12) = fuel + n + 9 + 4 by omega, tokensFrom_execute,
    show fuel + n + 9 = fuel + n + 8 + 1 from rfl, tokensFrom_literal,
    show fuel + n + 8 = fuel + n + 6 + 2 from rfl, tokensFrom_comma, tokensFrom_literal,
    show fuel + n + 6 = fuel + n + 4 + 2 from rfl, tokensFrom_comma,
    show fuel + n + 4 + 1 = fuel + 5 + n by omega, show (1 : Nat) = 0 + 1 from rfl,
    tokensFrom_callAttributes h, show fuel + 5 = fuel + 3 + 2 from rfl, tokensFrom_comma,
    tokensFrom_literal, show fuel + 3 = fuel + 1 + 2 from rfl, tokensFrom_semicolon,
    tokensFrom_newline hrest]
  simp [callTokens]

/-- A call is read up to the semicolon. -/
theorem reads_callStmt {as : List (CallAttribute levels)}
    (hcount : as.length < Script.Grammar.maxLocals) {s : Setting} (hlevels : levels + 2 < s.levels)
    (hleft : 5 ≤ s.levels) (base tag content : String) (last : Nat) {fuel : Nat}
    (hfuel : 16 * (tableTokens 0 as).length + 12 ≤ fuel) (t : Script.Token)
    (more : List Script.Token) :
    ∃ line, Reads (Script.Grammar.statement fuel s)
      ⟨callTokens base tag content as ++ t :: more, last⟩ ([callStmt base tag content as], 0)
      ⟨signToken (linesAfter 0 as + 1) .semicolon :: t :: more, line⟩ := by
  obtain ⟨fuel, rfl⟩ : ∃ n, fuel = n + 12 := ⟨fuel - 12, by omega⟩
  obtain ⟨isVararg, inLoop, locals, left⟩ := s
  obtain ⟨left, rfl⟩ : ∃ n, left = n + 1 := ⟨left - 1, by simp only at hleft; omega⟩
  let stop := linesAfter 0 as + 1
  let after := signToken stop .semicolon :: t :: more
  let third := tableTokens 0 as ++ signToken stop .comma :: textToken stop content
    :: signToken stop .rightParen :: after
  have htokens : callTokens base tag content as ++ t :: more
      = nameToken 1 "xview" :: signToken 1 .colon :: nameToken 1 "execute" :: signToken 1 .leftParen
        :: textToken 1 base :: signToken 1 .comma :: textToken 1 tag :: signToken 1 .comma
        :: third := by
    simp [callTokens, third, after, stop]
  have hthird : Reads (Script.Grammar.expressions (fuel + 6) ⟨isVararg, inLoop, locals, left + 1⟩)
      ⟨third, 1⟩ [tableExpr 0 as, .text (utf8 content)] ⟨signToken stop .rightParen :: after, stop⟩ := by
    rw [Script.Grammar.expressions]
    refine (reads_tableExpr as hcount hlevels hleft 0 1 (by omega) stop _).bind ?_
    exact .andThen true _ rfl (.andThen [.text (utf8 content)] _ rfl rfl)
  have hsecond : Reads (Script.Grammar.expressions (fuel + 7) ⟨isVararg, inLoop, locals, left + 1⟩)
      ⟨textToken 1 tag :: signToken 1 .comma :: third, 1⟩
      [.text (utf8 tag), tableExpr 0 as, .text (utf8 content)]
      ⟨signToken stop .rightParen :: after, stop⟩ := by
    rw [Script.Grammar.expressions]
    exact .andThen (.text (utf8 tag)) _ rfl (.andThen true _ rfl (hthird.bind rfl))
  have hexpressions : Reads (Script.Grammar.expressions (fuel + 8) ⟨isVararg, inLoop, locals, left + 1⟩)
      ⟨textToken 1 base :: signToken 1 .comma :: textToken 1 tag :: signToken 1 .comma :: third, 1⟩
      [.text (utf8 base), .text (utf8 tag), tableExpr 0 as, .text (utf8 content)]
      ⟨signToken stop .rightParen :: after, stop⟩ := by
    rw [Script.Grammar.expressions]
    exact .andThen (.text (utf8 base)) _ rfl (.andThen true _ rfl (hsecond.bind rfl))
  have harguments : Reads (Script.Grammar.arguments (fuel + 9) ⟨isVararg, inLoop, locals, left + 1⟩)
      ⟨signToken 1 .leftParen :: textToken 1 base :: signToken 1 .comma :: textToken 1 tag
        :: signToken 1 .comma :: third, 1⟩
      [.text (utf8 base), .text (utf8 tag), tableExpr 0 as, .text (utf8 content)] ⟨after, stop⟩ := by
    rw [Script.Grammar.arguments]
    refine .andThen (signToken 1 .leftParen) _ rfl (.andThen () _ rfl (.andThen false _ rfl ?_))
    exact hexpressions.bind (.andThen () _ rfl rfl)
  have hsuffixed : Reads (Script.Grammar.suffixed (fuel + 11) ⟨isVararg, inLoop, locals, left + 1⟩)
      ⟨callTokens base tag content as ++ t :: more, last⟩
      (.methodCall 1 1 (.name 1 bridgeName) (utf8 "execute")
        [.text (utf8 base), .text (utf8 tag), tableExpr 0 as, .text (utf8 content)])
      ⟨after, stop⟩ := by
    rw [htokens, Script.Grammar.suffixed]
    refine .andThen (nameToken 1 "xview") _ rfl (.andThen (nameToken 1 "xview") _ rfl
      (.andThen () _ rfl ?_))
    rw [Script.Grammar.suffixes]
    refine .andThen (signToken 1 .colon) _ rfl (.andThen (signToken 1 .colon) _ rfl ?_)
    refine .andThen () _ rfl (.andThen (utf8 "execute") _ rfl (.andThen 1 _ rfl ?_))
    refine .andThen (signToken 1 .leftParen) _ rfl (harguments.bind ?_)
    rfl
  refine ⟨stop, ?_⟩
  rw [Script.Grammar.statement]
  refine .andThen (nameToken 1 "xview") _ rfl (.andThen (nameToken 1 "xview") _ rfl ?_)
  exact hsuffixed.bind (.andThen false _ rfl (.andThen false _ rfl rfl))

/-- A call is read as a block. -/
theorem isBody_callTokens {as : List (CallAttribute levels)}
    (hcount : as.length < Script.Grammar.maxLocals) {left : Nat} (hlevels : levels + 3 < left)
    (hleft : 6 ≤ left) (base tag content : String) :
    IsBody left (callTokens base tag content as) [callStmt base tag content as] where
  head ht more := ⟨_, _, rfl, by simp [IsGood, nameToken]⟩
  reads := by
    intro s hlocals hs t ht hends more last fuel hfuel
    have hlength : (callTokens base tag content as).length = (tableTokens 0 as).length + 12 := by
      simp [callTokens]
    obtain ⟨fuel, rfl⟩ : ∃ n, fuel = n + 3 := ⟨fuel - 3, by omega⟩
    obtain ⟨line, hfirst⟩ := reads_callStmt hcount (s := { s with levels := left - 1 })
      (by simp only; omega) (by simp only; omega) base tag content last
      (show _ ≤ fuel + 2 by omega) t more
    exact ⟨_, reads_block_semicolon (by simp only [Script.Grammar.maxLocals]; omega)
      (show s.levels = left - 1 + 1 by omega) rfl (by simp [nameToken]) hfirst ht
      (reads_block_nil hends more fuel _)⟩

theorem length_callTokens_le {qualifier : String} {attributes : List Attribute}
    {as : List (CallAttribute levels)} (h : HandsOn qualifier 0 attributes as)
    (base tag content : String) :
    (callTokens base tag content as).length
      ≤ (utf8 (invocationStatement base tag (callAttributes qualifier attributes) content)).length := by
  have hattributes := length_allTokens_le 0 as
  have hlength : (callTokens base tag content as).length = (allTokens 0 as).length + 27 := by
    simp [callTokens, tableTokens]
  have hexecute : (utf8 "xview:execute(").length = 14 := by decide
  have hfunction : (utf8 "(function() local map = \x7b\x7d ").length = 27 := by decide
  rw [utf8_invocationStatement, utf8_callAttributes h, hlength]
  simp only [List.length_append]
  omega

/-- A call that hands on some attributes is read. -/
theorem readProgram_invocationStatement {qualifier : String} {attributes : List Attribute}
    {as : List (CallAttribute levels)} (h : HandsOn qualifier 0 attributes as)
    (hcount : as.length < Script.Grammar.maxLocals) {nested : Nat}
    (hlevels : nested + levels + 3 < Script.Grammar.maxLevels)
    (hleft : nested + 6 ≤ Script.Grammar.maxLevels) (base tag content : String) :
    Script.readProgram nested
        (utf8 (invocationStatement base tag (callAttributes qualifier attributes) content))
      = .ok (.mk [] true [callStmt base tag content as]) := by
  have hlength := length_callTokens_le h base tag content
  have hend : ([] : Bytes).head? ≠ some 0x0d := by simp
  have hscan (fuel : Nat) := tokensFrom_invocationStatement h base tag content fuel hend
  simp only [List.append_nil] at hscan
  generalize utf8 (invocationStatement base tag (callAttributes qualifier attributes) content)
    = source at hlength hscan ⊢
  have htokens : Script.tokens source
      = callTokens base tag content as ++ [stopToken (linesAfter 0 as + 2)] := by
    have := hscan (source.length - (callTokens base tag content as).length)
    rwa [show source.length - (callTokens base tag content as).length + 1
      + (callTokens base tag content as).length = source.length + 1 by omega] at this
  exact readProgram_of_isBody (isBody_callTokens hcount (by omega) (by omega) base tag content) htokens

/-- The function that the code of a call is compiled into is read as the call as well. -/
theorem readProgram_functionSource_invocationStatement {qualifier : String}
    {attributes : List Attribute} {as : List (CallAttribute levels)}
    (h : HandsOn qualifier 0 attributes as) (hcount : as.length < Script.Grammar.maxLocals)
    {nested : Nat} (hlevels : nested + levels + 5 < Script.Grammar.maxLevels)
    (hleft : nested + 8 ≤ Script.Grammar.maxLevels) (base tag content : String) :
    Script.readProgram nested (Script.functionSource
        (invocationStatement base tag (callAttributes qualifier attributes) content))
      = .ok (.mk [] true [.return
          [.function (.mk [utf8 "_ENV"] false [callStmt base tag content as])]]) :=
  readProgram_functionSource_of_isBody (by omega)
    (isBody_callTokens hcount (by omega) (by omega) base tag content)
    (length_callTokens_le h base tag content)
    fun fuel _ hrest => tokensFrom_invocationStatement h base tag content fuel hrest

end CallAttribute

end ScriptedViews.Code

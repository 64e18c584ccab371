import ScriptedViews.Code.Builder

set_option autoImplicit false

/-! # Tokens of generated code

What a builder has been called with, as one list of tokens: literal text, expressions whose value
is printed, and statements. The builder keeps two texts and moves the one into the other from three
places; here its code is read off the tokens alone. Calls add their tokens one after the other, so
the text of one call is never read together with that of another. -/

namespace ScriptedViews.Code

/-! ## Calls and tokens -/

/-- What a builder is asked to append. -/
inductive Call where
  | output (text : String)
  | statement (code : String)
deriving DecidableEq, Repr

/-- A piece of what a builder has been asked to append. -/
inductive Token where
  /-- Text that is printed as it stands. -/
  | literal (text : String)
  /-- An expression whose value is printed. -/
  | expression (source : String)
  /-- Code that stands as it is. -/
  | statement (code : String)
deriving DecidableEq, Repr

/-- Append what a call asks for. -/
def Builder.call (b : Builder) : Call → Builder
  | .output text => b.output text
  | .statement code => b.statement code

/-- The finished code after some calls of a new builder. -/
def build (calls : List Call) : String :=
  (calls.foldl Builder.call {}).finish

/-! ## Emission -/

/-- The print of some literal text. Nothing is printed for none. -/
def printText (text : String) : String :=
  if text = "" then "" else printStatement (literal text)

/-- The text of the literals that some tokens start with. -/
def leadingText : List Token → String
  | .literal text :: ts => text ++ leadingText ts
  | _ => ""

/-- The tokens after the literals that some tokens start with. -/
def afterText : List Token → List Token
  | .literal _ :: ts => afterText ts
  | ts => ts

theorem length_afterText_le (ts : List Token) : (afterText ts).length ≤ ts.length := by
  fun_induction afterText ts with
  | case1 text ts ih => simp only [List.length_cons]; omega
  | case2 ts => exact Nat.le_refl _

/-- The code of some tokens: each maximal run of literals is one print, expressions are printed one
    by one, and statements stand as they are. -/
def emit : List Token → String
  | [] => ""
  | .literal text :: ts => printText (text ++ leadingText ts) ++ emit (afterText ts)
  | .expression source :: ts => printStatement source ++ emit ts
  | .statement code :: ts => code ++ emit ts
termination_by ts => ts.length
decreasing_by
  · have := length_afterText_le ts
    simp only [List.length_cons]; omega
  · simp
  · simp

theorem emit_eq (ts : List Token) :
    emit ts = match ts with
      | [] => ""
      | .literal text :: ts => printText (text ++ leadingText ts) ++ emit (afterText ts)
      | .expression source :: ts => printStatement source ++ emit ts
      | .statement code :: ts => code ++ emit ts := by
  cases ts with
  | nil => rw [emit]
  | cons t ts => cases t <;> rw [emit]

theorem emit_nil : emit [] = "" :=
  emit_eq []

theorem emit_literal (text : String) (ts : List Token) :
    emit (.literal text :: ts) = printText (text ++ leadingText ts) ++ emit (afterText ts) :=
  emit_eq (.literal text :: ts)

theorem emit_expression (source : String) (ts : List Token) :
    emit (.expression source :: ts) = printStatement source ++ emit ts :=
  emit_eq (.expression source :: ts)

theorem emit_statement (code : String) (ts : List Token) :
    emit (.statement code :: ts) = code ++ emit ts :=
  emit_eq (.statement code :: ts)

theorem emit_literal_literal (a b : String) (ts : List Token) :
    emit (.literal a :: .literal b :: ts) = emit (.literal (a ++ b) :: ts) := by
  rw [emit_literal, emit_literal, String.append_assoc]
  rfl

/-- Literal text ends where something else stands. -/
theorem emit_literal_of_afterText (a : String) {ts : List Token} (hlead : leadingText ts = "")
    (hafter : afterText ts = ts) : emit (.literal a :: ts) = printText a ++ emit ts := by
  rw [emit_literal, hlead, hafter, String.append_empty]

theorem emit_literal_expression (a source : String) (ts : List Token) :
    emit (.literal a :: .expression source :: ts)
      = printText a ++ printStatement source ++ emit ts := by
  rw [emit_literal_of_afterText a rfl rfl, emit_expression, String.append_assoc]

theorem emit_literal_statement (a code : String) (ts : List Token) :
    emit (.literal a :: .statement code :: ts) = printText a ++ code ++ emit ts := by
  rw [emit_literal_of_afterText a rfl rfl, emit_statement, String.append_assoc]

theorem emit_literal_nil (a : String) : emit [.literal a] = printText a := by
  rw [emit_literal_of_afterText a rfl rfl, emit_nil, String.append_empty]

theorem emit_empty_literal (ts : List Token) : emit (.literal "" :: ts) = emit ts := by
  cases ts with
  | nil => rw [emit_literal_nil, emit_nil]; rfl
  | cons t ts =>
    cases t with
    | literal text => rw [emit_literal_literal, String.empty_append]
    | expression source => rw [emit_literal_expression, emit_expression]; rfl
    | statement code => rw [emit_literal_statement, emit_statement]; rfl

/-! ## The builder as a list of tokens -/

/-- Append a token. -/
def Builder.token (b : Builder) : Token → Builder
  | .literal text => { b with pending := b.pending ++ text }
  | .expression source => b.statement (printStatement source)
  | .statement code => b.statement code

/-- Append some tokens. -/
def Builder.tokens (b : Builder) (ts : List Token) : Builder :=
  ts.foldl Builder.token b

@[simp]
theorem Builder.tokens_nil (b : Builder) : b.tokens [] = b := rfl

@[simp]
theorem Builder.tokens_cons (b : Builder) (t : Token) (ts : List Token) :
    b.tokens (t :: ts) = (b.token t).tokens ts := rfl

theorem Builder.tokens_append (b : Builder) (ts us : List Token) :
    b.tokens (ts ++ us) = (b.tokens ts).tokens us :=
  List.foldl_append

/-- Flushing moves the print of what waits into the code. -/
theorem Builder.flush_eq (b : Builder) :
    b.flush = { code := b.code ++ printText b.pending, pending := "" } := by
  obtain ⟨code, pending⟩ := b
  unfold Builder.flush printText
  by_cases h : pending = ""
  · simp [h]
  · simp [h]

theorem Builder.statement_eq (b : Builder) (code : String) :
    b.statement code = { code := b.code ++ printText b.pending ++ code, pending := "" } := by
  unfold Builder.statement
  rw [Builder.flush_eq]

/-- What waits in a builder is a literal in front of the tokens to come: the invariant that ties
    the two texts of a builder to a list of tokens. -/
theorem Builder.finish_tokens (b : Builder) (ts : List Token) :
    (b.tokens ts).finish = b.code ++ emit (.literal b.pending :: ts) := by
  induction ts generalizing b with
  | nil =>
    rw [Builder.tokens_nil, Builder.finish, Builder.flush_eq, emit_literal_nil]
  | cons t ts ih =>
    rw [Builder.tokens_cons, ih]
    cases t with
    | literal text => rw [emit_literal_literal]; rfl
    | expression source =>
      simp only [Builder.token, Builder.statement_eq, emit_empty_literal, emit_literal_expression,
        String.append_assoc]
    | statement code =>
      simp only [Builder.token, Builder.statement_eq, emit_empty_literal, emit_literal_statement,
        String.append_assoc]

/-- The code of a new builder is the emission of its tokens. -/
theorem Builder.finish_tokens_new (ts : List Token) : (({} : Builder).tokens ts).finish = emit ts := by
  rw [Builder.finish_tokens, emit_empty_literal, String.empty_append]

end ScriptedViews.Code

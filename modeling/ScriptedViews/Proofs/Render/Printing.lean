import ScriptedViews.Proofs.Code.Templates
import ScriptedViews.Proofs.Render.MacroExpansion
import ScriptedViews.Proofs.Render.Whereabouts

set_option autoImplicit false

/-! # Text with expressions in it as it runs

What the code of a text with expressions in it writes, told by a relation that goes through the
literals and the expressions in turn: each literal is written as it stands, and each expression is
evaluated after all before it has been written, and its value, made a text, is written then. The
code runs as the relation says, for whatever the expressions do besides. -/

namespace ScriptedViews

open Script (Bytes Value Scope Frame Site Expr Stmt ascii utf8)
open Script.State

/-! ## Sinks -/

/-- What a sink holds. -/
def World.output (w : World) (sink : Nat) : Option Bytes :=
  w.sinks[sink]?.map Sink.bytes

/-- Whether a sink takes some bytes, and the world after that. -/
def World.Takes (w : World) (sink : Nat) (bytes : Bytes) (w' : World) : Prop :=
  ∃ s s', w.sinks[sink]? = some s ∧ s.write? bytes = some s'
    ∧ w' = { w with sinks := w.sinks.setIfInBounds sink s' }

theorem Sink.bytes_of_write? {s s' : Sink} {bytes : Bytes} (h : s.write? bytes = some s') :
    s'.bytes = s.bytes ++ bytes := by
  unfold Sink.write? at h
  split at h
  · rename_i hempty
    cases h
    rw [List.isEmpty_iff.1 hempty, List.append_nil]
  · split at h
    · cases h
      simp [Sink.bytes]
    · cases h

/-- What is written comes behind what a sink holds. -/
theorem World.Takes.output_eq {w w' : World} {sink : Nat} {bytes : Bytes}
    (h : w.Takes sink bytes w') :
    w'.output sink = (w.output sink).map (· ++ bytes) := by
  obtain ⟨s, s', hs, hwrite, rfl⟩ := h
  have hlt : sink < w.sinks.size := (Array.getElem?_eq_some_iff.1 hs).1
  have hs' : (w.sinks.setIfInBounds sink s')[sink]? = some s' := by simp [hlt]
  simp only [World.output, hs, hs', Option.map_some, Sink.bytes_of_write? hwrite]

theorem World.Takes.write_eq {h : BridgeHeap} {w w' : World} {sink : Nat} {bytes : Bytes}
    (ht : w.Takes sink bytes w') : Render.write sink [.text bytes] h w = Render.answer h w' [] := by
  obtain ⟨s, s', hs, hwrite, rfl⟩ := ht
  simp only [Render.write, Script.firstValue, List.headD_cons, Script.Value.toText?, hs, Option.bind_some,
    hwrite]

namespace Code

namespace Whereabouts

variable (p : Whereabouts)

/-- Whether a text is made of a value that is to be printed: there is room for the calls of a print,
    the library's function is still the one that does it, and it gives the text. -/
def MakesText (h : BridgeHeap) (w : World) (v : Value) (h' : BridgeHeap) (w' : World)
    (text : Bytes) : Prop :=
  p.level + 1 < Script.maxLevel
    ∧ (h.table h.globals).getText (utf8 "tostring") = .builtin .tostring
    ∧ ∀ K, K.filterMap Frame.caller? = none :: p.callers →
      Reaches Render.host ⟨h, w, K, .invoke (.builtin .tostring) [v] none, p.level + 1, p.depth⟩
        ⟨h', w', K, .values [.text text], p.level + 1, p.depth⟩

end Whereabouts

/-! ## What is written -/

/-- A part of a text with expressions in it. -/
inductive Piece where
  | literal (text : String)
  | expression (tree : Expr)

/-- Whether some pieces are written one after the other, and what is written: literals as they stand,
    expressions evaluated in their turn and made texts then, unless they have no value. What
    evaluating an expression or making a text of its value writes itself stands before that text. -/
inductive Prints (p : Whereabouts) :
    List Piece → BridgeHeap → World → Bytes → BridgeHeap → World → Prop where
  | nil (h : BridgeHeap) (w : World) : Prints p [] h w [] h w
  | empty {ps : List Piece} {h h' : BridgeHeap} {w w' : World} {out : Bytes}
      (rest : Prints p ps h w out h' w') : Prints p (.literal "" :: ps) h w out h' w'
  | literal {text : String} {ps : List Piece} {h h' : BridgeHeap} {w w₁ w' : World} {out : Bytes}
      (nonempty : text ≠ "") (bridge : p.SeesBridge h w)
      (makes : p.MakesText h w (.text (utf8 text)) h w (utf8 text))
      (takes : w.Takes p.bridge.sink (utf8 text) w₁) (rest : Prints p ps h w₁ out h' w') :
      Prints p (.literal text :: ps) h w (utf8 text ++ out) h' w'
  | absent {e : Expr} {vs : List Value} {ps : List Piece} {h h₁ h' : BridgeHeap}
      {w w₁ w' : World} {own out : Bytes} (bridge : p.SeesBridge h w)
      (evaluates : p.Evaluates h w e h₁ w₁ vs) (value : Script.firstValue vs = .nil)
      (object : h₁.objects[p.object]? = some (.host p.bridge))
      (writes : w₁.output p.bridge.sink = (w.output p.bridge.sink).map (· ++ own))
      (rest : Prints p ps h₁ w₁ out h' w') :
      Prints p (.expression e :: ps) h w (own ++ out) h' w'
  | present {e : Expr} {vs : List Value} {text : Bytes} {ps : List Piece} {h h₁ h₂ h' : BridgeHeap}
      {w w₁ w₂ w₃ w' : World} {own out : Bytes} (bridge : p.SeesBridge h w)
      (evaluates : p.Evaluates h w e h₁ w₁ vs) (value : Script.firstValue vs ≠ .nil)
      (object : h₁.objects[p.object]? = some (.host p.bridge))
      (makes : p.MakesText h₁ w₁ (Script.firstValue vs) h₂ w₂ text)
      (writes : w₂.output p.bridge.sink = (w.output p.bridge.sink).map (· ++ own))
      (takes : w₂.Takes p.bridge.sink text w₃) (rest : Prints p ps h₂ w₃ out h' w') :
      Prints p (.expression e :: ps) h w (own ++ (text ++ out)) h' w'

/-- What is written comes behind what the sink holds. -/
theorem Prints.output_eq {p : Whereabouts} {ps : List Piece} {h h' : BridgeHeap} {w w' : World}
    {out : Bytes} (hp : Prints p ps h w out h' w') :
    w'.output p.bridge.sink = (w.output p.bridge.sink).map (· ++ out) := by
  induction hp with
  | nil h w => simp
  | empty rest ih => exact ih
  | literal nonempty bridge makes takes rest ih =>
    rw [ih, takes.output_eq, Option.map_map]
    congr 1
    funext bytes
    simp
  | absent bridge evaluates value object writes rest ih =>
    rw [ih, writes, Option.map_map]
    congr 1
    funext bytes
    simp
  | present bridge evaluates value object makes writes takes rest ih =>
    rw [ih, takes.output_eq, writes, Option.map_map, Option.map_map]
    congr 1
    funext bytes
    simp

/-! ## Runs -/

namespace Whereabouts

variable {p : Whereabouts} {h h₁ h₂ : BridgeHeap} {w w₁ w₂ w₃ : World}

/-- Whether statements run to their end at a place, so that the block goes on after them. -/
def Executes (p : Whereabouts) (h : BridgeHeap) (w : World) (stmts : List Stmt) (h' : BridgeHeap)
    (w' : World) : Prop :=
  ∀ K rest, K.filterMap Frame.caller? = p.callers →
    Reaches Render.host ⟨h, w, K, .execute p.scope (stmts ++ rest), p.level, p.depth⟩
      ⟨h', w', K, .execute p.scope rest, p.level, p.depth⟩

theorem Executes.append {stmts stmts' : List Stmt} (hs : p.Executes h w stmts h₁ w₁)
    (hs' : p.Executes h₁ w₁ stmts' h₂ w₂) : p.Executes h w (stmts ++ stmts') h₂ w₂ := by
  intro K rest hK
  rw [List.append_assoc]
  exact (hs K (stmts' ++ rest) hK).trans (hs' K rest hK)

/-- A print does what the bridge does with the values of its argument. -/
theorem executes_bridgeCall {line : Nat} {e : Expr} {vs : List Value} (bridge : p.SeesBridge h w)
    (evaluates : p.Evaluates h w e h₁ w₁ vs)
    (hturn : ∀ K, K.filterMap Frame.caller? = p.callers →
      Reaches Render.host
        (Script.State.turn ⟨h₁, w₁, K, .finished, p.level, p.depth⟩
          (Render.invoke (utf8 "print") (.object p.object :: vs) p.level h₁ w₁))
        ⟨h₂, w₂, K, .values [], p.level, p.depth⟩) :
    p.Executes h w [bridgeCall line "print" [e]] h₂ w₂ :=
  fun K _ hK => reaches_call rfl (bridge.evaluates_call (by decide) evaluates hturn _ hK)

theorem executes_print {line : Nat} {e : Expr} {vs : List Value} {text : Bytes}
    (bridge : p.SeesBridge h w) (evaluates : p.Evaluates h w e h₁ w₁ vs)
    (value : Script.firstValue vs ≠ .nil) (object : h₁.objects[p.object]? = some (.host p.bridge))
    (makes : p.MakesText h₁ w₁ (Script.firstValue vs) h₂ w₂ text)
    (takes : w₂.Takes p.bridge.sink text w₃) :
    p.Executes h w [bridgeCall line "print" [e]] h₂ w₃ := by
  refine executes_bridgeCall bridge evaluates fun K hK => ?_
  refine Expansion.reaches_print p.depth object value makes.2.1 (makes.2.2 _ ?_) takes.write_eq
    makes.1
  rw [← hK]
  rfl

theorem executes_print_nil {line : Nat} {e : Expr} {vs : List Value} (bridge : p.SeesBridge h w)
    (evaluates : p.Evaluates h w e h₁ w₁ vs) (value : Script.firstValue vs = .nil)
    (object : h₁.objects[p.object]? = some (.host p.bridge)) :
    p.Executes h w [bridgeCall line "print" [e]] h₁ w₁ := by
  refine executes_bridgeCall bridge evaluates fun K _ => ?_
  rw [Expansion.invoke_print object, value]
  exact .refl _

end Whereabouts

namespace Template

variable {p : Whereabouts} {h h' : BridgeHeap} {w w' : World} {out : Bytes} {levels : Nat}

/-- The pieces of a text with so many lines of code above them. -/
def piecesFrom : Nat → List (String × Snippet levels) → String → List Piece
  | _, [], last => [.literal last]
  | d, (text, e) :: parts, last =>
    let d := if text = "" then d else 1 + d
    .literal text :: .expression (e.tree.shift d) :: piecesFrom (e.stop + d) parts last

/-- The pieces of a text. -/
def pieces (t : Template levels) : List Piece :=
  piecesFrom 0 t.parts t.last

theorem linesAfter_literalSnippets (d : Nat) (text : String) :
    Snippet.linesAfter d (literalSnippets levels text) = if text = "" then d else 1 + d := by
  unfold literalSnippets
  split <;> rfl

/-- A literal is printed before the pieces after it. -/
theorem executes_literal (levels d : Nat) {text : String} {ps : List Piece}
    (hp : Prints p (.literal text :: ps) h w out h' w') :
    ∃ w₁ out', p.Executes h w (Snippet.printStmts d (literalSnippets levels text)) h w₁
      ∧ Prints p ps h w₁ out' h' w' := by
  cases hp with
  | empty rest => exact ⟨w, out, fun K more _ => .refl _, rest⟩
  | literal nonempty bridge makes takes rest =>
    have hsnippets : Snippet.printStmts d (literalSnippets levels text)
        = [bridgeCall (d + 1) "print" [.text (utf8 text)]] := by
      rw [literalSnippets, if_neg nonempty]
      rfl
    rw [hsnippets]
    exact ⟨_, _, Whereabouts.executes_print bridge (fun K _ => evaluates_text _ K)
      (by simp [Script.firstValue]) bridge.object makes takes, rest⟩

/-- An expression is printed before the pieces after it. -/
theorem executes_expression (d : Nat) (e : Snippet levels) {ps : List Piece}
    (hp : Prints p (.expression (e.tree.shift d) :: ps) h w out h' w') :
    ∃ h₁ w₁ out', p.Executes h w [e.printStmt d] h₁ w₁ ∧ Prints p ps h₁ w₁ out' h' w' := by
  cases hp with
  | absent bridge evaluates value object writes rest =>
    exact ⟨_, _, _, Whereabouts.executes_print_nil bridge evaluates value object, rest⟩
  | present bridge evaluates value object makes writes takes rest =>
    exact ⟨_, _, _, Whereabouts.executes_print bridge evaluates value object makes takes, rest⟩

/-- The prints of a text run as its pieces are written. -/
theorem executes_pieces (d : Nat) (parts : List (String × Snippet (levels + 1))) (last : String)
    (hp : Prints p (piecesFrom d parts last) h w out h' w') :
    p.Executes h w (Snippet.printStmts d (snippetsFrom parts last)) h' w' := by
  induction parts generalizing d h w out with
  | nil =>
    obtain ⟨w₁, out', hexecutes, hrest⟩ := executes_literal levels d hp
    cases hrest
    exact hexecutes
  | cons q parts ih =>
    obtain ⟨text, e⟩ := q
    obtain ⟨w₁, out₁, hliteral, hrest⟩ := executes_literal levels d hp
    obtain ⟨h₂, w₂, out₂, hexpression, hrest'⟩ := executes_expression _ e hrest
    rw [snippetsFrom, Snippet.printStmts_append, linesAfter_literalSnippets, Snippet.printStmts]
    exact hliteral.append (hexpression.append (ih _ hrest'))

/-- The code of a text with expressions in it is read, as it stands or as a function, whose
    statements write the literals and the expressions in turn: running them goes through the
    evaluations that the pieces of the text go through, and what is written comes behind what the
    sink holds. -/
theorem code_prints (t : Template (levels + 1)) :
    ∃ body,
      (∀ nested, nested + levels + 1 < Script.Grammar.maxLevels →
        Script.readProgram nested (utf8 (build [.output t.text])) = .ok (.mk [] true body))
      ∧ (∀ nested, nested + levels + 3 < Script.Grammar.maxLevels →
        Script.readProgram nested (Script.functionSource (build [.output t.text]))
          = .ok (.mk [] true [.return [.function (.mk [utf8 "_ENV"] false body)]]))
      ∧ ∀ p h w out h' w', Prints p t.pieces h w out h' w' →
        p.Executes h w body h' w'
          ∧ w'.output p.bridge.sink = (w.output p.bridge.sink).map (· ++ out) := by
  refine ⟨Snippet.printStmts 0 (snippetsFrom t.parts t.last), fun nested h => ?_, fun nested h => ?_,
    fun p h w out h' w' hp => ⟨executes_pieces 0 t.parts t.last hp, hp.output_eq⟩⟩
  · rw [build_output]
    exact Snippet.readProgram_printSources (by omega) _
  · rw [build_output]
    exact Snippet.readProgram_functionSource_printSources (by omega) _

/-! ## A sum in a text -/

/-- A sum, as it is read. -/
def sum : Snippet 10 where
  source := "1+1"
  tokens := [⟨.number (.int 1), 1⟩, ⟨.sign .plus, 1⟩, ⟨.number (.int 1), 1⟩]
  lines := 0
  tree := .binary 1 (.arithmetic .add) (.number (.int 1)) (.number (.int 1))
  scans := by
    have hbytes : utf8 "1+1" = [0x31, 0x2b, 0x31] := by decide
    rw [hbytes]
    exact .token rfl (by simp) rfl (by simp) (by simp) (.token rfl (by simp) rfl (by simp) (by simp)
      (.token rfl (by simp) rfl (by simp) (by simp) (.stop rfl)))
  reads := ⟨1, rfl⟩

theorem literals_sum : ∀ p ∈ [("a", sum)], ¬ openMark <:+: p.1.toList := by
  decide

theorem expressions_sum : ∀ p ∈ [("a", sum)], '\x7d' ∉ p.2.source.toList := by
  decide

theorem not_hasExpression_b : ¬ HasExpression "b".toList :=
  not_hasExpression_of_not_mem (by decide)

/-- A text with a sum in it. -/
def sumText : Template 10 where
  parts := [("a", sum)]
  last := "b"
  literals := literals_sum
  expressions := expressions_sum
  lastLiteral := not_hasExpression_b

/-- A bridge that writes to the first sink, in a context with the library's function that makes
    texts of values. -/
def contextHeap : BridgeHeap where
  tables := #[{ entries := [(.text (utf8 "tostring"), .builtin .tostring)] }, {},
    { entries := [(.text (utf8 "xview"), .object 0)] }]
  cells := #[.table 2]
  objects := #[.host ⟨0, 0, 2, 0, 0⟩]

/-- Code that sees the context, with nothing around it. -/
def contextPlace : Whereabouts where
  scope := { vars := [(Script.environmentName, 0)], chunk := [] }
  level := 0
  depth := 0
  callers := []
  object := 0
  bridge := ⟨0, 0, 2, 0, 0⟩

theorem seesBridge_contextPlace (w : World) : contextPlace.SeesBridge contextHeap w where
  evaluates _ _ _ := .many 2 rfl
  object := rfl

/-- The sum is printed between the literals. -/
theorem code_prints_sum :
    let w : World := { sinks := #[{}] }
    ∃ body h' w',
      Script.readProgram 0 (utf8 (build [.output "a$\x7b1+1\x7db"])) = .ok (.mk [] true body)
        ∧ Prints contextPlace sumText.pieces contextHeap w (utf8 "a2b") h' w'
        ∧ contextPlace.Executes contextHeap w body h' w' ∧ w'.output 0 = some (utf8 "a2b") := by
  intro w
  obtain ⟨body, hread, -, hruns⟩ := code_prints sumText
  let w₁ : World := { sinks := #[{ writes := [utf8 "a"] }] }
  let w₂ : World := { sinks := #[{ writes := [utf8 "2", utf8 "a"] }] }
  let w₃ : World := { sinks := #[{ writes := [utf8 "b", utf8 "2", utf8 "a"] }] }
  have htakes : w.Takes 0 (utf8 "a") w₁ := ⟨_, _, rfl, rfl, rfl⟩
  have htakes₁ : w₁.Takes 0 (utf8 "2") w₂ := ⟨_, _, rfl, rfl, rfl⟩
  have htakes₂ : w₂.Takes 0 (utf8 "b") w₃ := ⟨_, _, rfl, rfl, rfl⟩
  have hsum : contextPlace.Evaluates contextHeap w₁ (sum.tree.shift 1) contextHeap w₁ [.int 2] :=
    fun _ _ => .many 5 rfl
  have htext : contextPlace.MakesText contextHeap w₁ (.int 2) contextHeap w₁ (utf8 "2") :=
    ⟨by decide, rfl, fun _ _ => .many 1 rfl⟩
  have hliteral (w : World) (text : Bytes) :
      contextPlace.MakesText contextHeap w (.text text) contextHeap w text :=
    ⟨by decide, rfl, fun K _ => Expansion.reaches_textOf_text K text rfl⟩
  have hprints : Prints contextPlace sumText.pieces contextHeap w (utf8 "a2b") contextHeap w₃ := by
    have hout : utf8 "a2b" = utf8 "a" ++ ([] ++ (utf8 "2" ++ (utf8 "b" ++ []))) := by decide
    rw [hout]
    exact .literal (by decide) (seesBridge_contextPlace w) (hliteral w _) htakes
      (.present (seesBridge_contextPlace w₁) hsum (fun h => by cases h) rfl htext rfl htakes₁
        (.literal (by decide) (seesBridge_contextPlace w₂) (hliteral w₂ _) htakes₂ (.nil _ _)))
  obtain ⟨hexecutes, houtput⟩ := hruns contextPlace contextHeap w _ _ _ hprints
  exact ⟨body, _, _, hread 0 (by decide), hprints, hexecutes, houtput⟩

/-- An expression may write something itself, what it does may change the texts that are made of
    literals, and where no more calls fit a print fails. -/
theorem code_prints_besides :
    let page (text : String) : Sources := { stores := #[[("/page.xview", text.toUTF8)]] }
    let written (text : String) :=
      (Expansion.served 200 (page text) Expansion.memorySetup [("/page.xview", [])]).map
        Except.toOption
    written "<p>a$\x7bxview:print('x')\x7db</p>" = some (some (utf8 "<p>axb</p>"))
      ∧ written "<p>a$\x7b(xview:print('x')) == nil\x7db</p>" = some (some (utf8 "<p>axtrueb</p>"))
      ∧ written ("<p>a$\x7b(function() getmetatable('').__tostring = function() return 'x' end "
        ++ "end)()\x7db</p>") = some (some (utf8 "<p>ax"))
      ∧ (stepMany Render.host 18 ⟨contextHeap, { sinks := #[{}] }, [],
          .execute contextPlace.scope [bridgeCall 1 "print" [.text (utf8 "a")]], 199, 0⟩).outcome?.map
            (fun o => o.toOption.isSome) = some false := by
  intro page written
  refine ⟨?_, ?_, ?_, ?_⟩ <;> decide +kernel

end Template

end Code

end ScriptedViews

import ScriptedViews.Proofs.Render.Ready
import ScriptedViews.Proofs.Script.Calm
import ScriptedViews.Proofs.Script.Evaluation

set_option autoImplicit false

/-! # Making a context

The code that makes a context, as it is read and as it runs: it gives an empty table with a metatable
of its own, which finds what is not there among the global variables. -/

namespace ScriptedViews.Expansion

open Script (Bytes Value Heap Field Scope ascii utf8 environmentName)
open Script.State
open Code (signToken nameToken)

/-! ## Reading -/

/-- The fields of the metatable of a context. -/
def contextFields : List Field :=
  [.entry 1 (.text (utf8 "__index")) (.name 1 (utf8 "_G"))]

/-- The code that makes a context as a program. -/
def contextProgram : Script.Function :=
  .mk [] true [.return [.call 1 (.name 1 (utf8 "setmetatable"))
    [.table [], .table contextFields]]]

theorem tokens_contextSource :
    Script.tokens Script.contextSource
      = [signToken 1 .kwReturn, nameToken 1 "setmetatable", signToken 1 .leftParen,
        signToken 1 .leftBrace, signToken 1 .rightBrace, signToken 1 .comma,
        signToken 1 .leftBrace, nameToken 1 "__index", signToken 1 .equal, nameToken 1 "_G",
        signToken 1 .rightBrace, signToken 1 .rightParen, ⟨.stop, 1⟩] := by
  have hbytes : Script.contextSource = [0x72, 0x65, 0x74, 0x75, 0x72, 0x6e, 0x20, 0x73, 0x65, 0x74,
      0x6d, 0x65, 0x74, 0x61, 0x74, 0x61, 0x62, 0x6c, 0x65, 0x28, 0x7b, 0x7d, 0x2c, 0x20, 0x7b, 0x20,
      0x5f, 0x5f, 0x69, 0x6e, 0x64, 0x65, 0x78, 0x20, 0x3d, 0x20, 0x5f, 0x47, 0x20, 0x7d, 0x29] := by
    decide
  rw [hbytes]
  rfl

theorem readProgram_contextSource {levels : Nat} (hlevels : levels ≤ 191) :
    Script.readProgram levels Script.contextSource = .ok contextProgram := by
  obtain ⟨n, hn⟩ : ∃ n, Script.Grammar.maxLevels - levels = n + 8 :=
    Nat.exists_eq_add_of_le' (show 8 ≤ 199 - levels by omega)
  unfold Script.readProgram Script.Grammar.program
  rw [hn, tokens_contextSource]
  rfl

/-- At any level it is read as that program, if it is read. -/
theorem eq_of_readProgram_contextSource {levels : Nat} {f : Script.Function}
    (hf : Script.readProgram levels Script.contextSource = .ok f) : f = contextProgram := by
  by_cases hlevels : levels ≤ 191
  · rw [readProgram_contextSource hlevels] at hf
    cases hf
    rfl
  · have hlt : Script.Grammar.maxLevels - levels < 8 := by
      show 199 - levels < 8
      omega
    unfold Script.readProgram Script.Grammar.program at hf
    generalize Script.Grammar.maxLevels - levels = n at hlt hf
    rw [tokens_contextSource] at hf
    match n, hlt with
    | 0, _ | 1, _ | 2, _ | 3, _ | 4, _ | 5, _ | 6, _ | 7, _ => cases hf <;> rfl

/-! ## Running -/

variable {idle : List Nat} {level depth : Nat} {h : BridgeHeap} {w : World}

/-- The metatable of a context. -/
def contextMetatable (globals : Nat) : Script.Table :=
  { entries := [(.text (utf8 "__index"), .table globals)] }

/-- A heap with a new context on it, and the metatable of the context after it. -/
def withContext (h : BridgeHeap) : BridgeHeap :=
  ((h.newTable {}).2.newTable (contextMetatable h.globals)).2.modifyTable h.tables.size
    fun t => { t with metatable := some (h.tables.size + 1) }

/-- A table without a protected metatable is given another one. -/
theorem setmetatable_of_isNil {ref m : Nat}
    (hnil : (h.metafield (.table ref) "__metatable").isNil = true) :
    Script.TableLibrary.setmetatable h ⟨.setmetatable, [.table ref, .table m]⟩
      = .ok ([.table ref], h.modifyTable ref fun t => { t with metatable := some m }) := by
  show (if (h.metafield (.table ref) "__metatable").isNil then Except.ok _ else _) = _
  rw [if_pos hnil]

/-- Whether the code that makes contexts finds what it needs: the library function for it, and the
    table of the global variables. -/
structure FindsMaker (h : BridgeHeap) : Prop where
  setmetatable : (h.table h.globals).getText (utf8 "setmetatable") = .builtin .setmetatable
  self : (h.table h.globals).getText (utf8 "_G") = .table h.globals

theorem FindsMaker.globals_lt (hm : FindsMaker h) : h.globals < h.tables.size :=
  Heap.lt_of_getText (by rw [hm.self]; simp)

/-- The code that makes a context makes one, and nothing else happens meanwhile. -/
theorem calmly_contextProgram {ref cell : Nat} {chunk : Bytes} (hm : FindsMaker h)
    (hc : h.functions[ref]? = some ⟨contextProgram, [(environmentName, cell)], chunk⟩)
    (hcell : h.cell cell = .table h.globals) (hdepth : depth < Script.maxDepth)
    (K : List (Script.Frame Pending)) (site : Option Script.Site) :
    Calmly Render.host ⟨h, w, K, .invoke (.function ref) [] site, level, depth⟩
      ⟨withContext h, w, K, .values [.table h.tables.size], level, depth⟩ := by
  let scope : Scope := ⟨[(environmentName, cell)], 0, [], chunk⟩
  let h₁ : BridgeHeap := (h.newTable {}).2
  let h₂ : BridgeHeap := (h₁.newTable (contextMetatable h.globals)).2
  have hscope : scope.Sees h h.globals := Scope.sees_environment (by simp) hcell
  have hscope₁ : scope.Sees h₁ h.globals := Scope.sees_environment (by simp) hcell
  have hself₁ : (h₁.table h.globals).getText (utf8 "_G") = .table h.globals := by
    rw [(Heap.keeps_newTable [] h {}).tables _ hm.globals_lt List.not_mem_nil, hm.self]
  have htable : h₂.table h.tables.size = {} := by
    rw [(Heap.keeps_newTable [] h₁ _).tables _ (by simp [h₁, Heap.newTable]) List.not_mem_nil]
    exact Heap.table_newTable h {}
  have hinvoke : step Render.host ⟨h, w, K, .invoke (.function ref) [] site, level, depth⟩
      = ⟨h, w, .activation site :: K, .execute scope
        [.return [.call 1 (.name 1 (utf8 "setmetatable")) [.table [], .table contextFields]]],
        level, depth + 1⟩ := by
    simp only [step, Script.State.invoke, hc, Script.State.callFunction, Nat.not_le.2 hdepth,
      if_false, contextProgram]
    rfl
  have hcallee : Calmly Render.host
      ⟨h, w, .activation site :: K, .execute scope
        [.return [.call 1 (.name 1 (utf8 "setmetatable")) [.table [], .table contextFields]]],
        level, depth + 1⟩
      ⟨h, w, .callee scope 1 [.table [], .table contextFields] true :: .results
        :: .activation site :: K, .evaluate scope (.name 1 (utf8 "setmetatable")), level,
        depth + 1⟩ := .many 1 rfl rfl
  -- The first argument is a new table, and the second one waits for its field.
  have hfields : Calmly Render.host
      ⟨h, w, .callee scope 1 [.table [], .table contextFields] true :: .results
        :: .activation site :: K, .values [.builtin .setmetatable], level, depth + 1⟩
      ⟨h₁, w, .fieldValue scope {} (scope.site 1) (.value (.text (utf8 "__index"))) []
        :: .lastItem [.table h.tables.size] :: .arguments (.builtin .setmetatable) [] (scope.site 1)
          true :: .results :: .activation site :: K,
        .evaluate scope (.name 1 (utf8 "_G")), level, depth + 1⟩ := .many 10 rfl rfl
  have hmetatable : Calmly Render.host
      ⟨h₁, w, .fieldValue scope {} (scope.site 1) (.value (.text (utf8 "__index"))) []
        :: .lastItem [.table h.tables.size] :: .arguments (.builtin .setmetatable) [] (scope.site 1)
          true :: .results :: .activation site :: K,
        .values [.table h.globals], level, depth + 1⟩
      ⟨h₂, w, .arguments (.builtin .setmetatable) [] (scope.site 1) true :: .results
        :: .activation site :: K, .values [.table h.tables.size, .table h₁.tables.size], level,
        depth + 1⟩ := .many 3 rfl rfl
  have hset : step Render.host
      ⟨h₂, w, .arguments (.builtin .setmetatable) [] (scope.site 1) true :: .results
        :: .activation site :: K, .values [.table h.tables.size, .table h₁.tables.size], level,
        depth + 1⟩
      = ⟨withContext h, w, .results :: .activation site :: K, .values [.table h.tables.size], level,
        depth + 1⟩ := by
    have hnil : (h₂.metafield (.table h.tables.size) "__metatable").isNil = true := by
      simp only [Heap.metafield, Heap.metatable?, htable]
      rfl
    show Script.State.invoke Render.host _ (.builtin .setmetatable)
      [.table h.tables.size, .table h₁.tables.size] _ = _
    simp only [Script.State.invoke, Script.State.callBuiltin, Script.Arguments.run?,
      setmetatable_of_isNil hnil]
    rw [withContext, show h₁.tables.size = h.tables.size + 1 by simp [h₁, Heap.newTable]]
  exact .head rfl hinvoke (hcallee.trans ((Calmly.name hscope (by decide) hm.setmetatable
    (by simp)).trans (hfields.trans ((Calmly.name hscope₁ (by decide) hself₁ (by simp)).trans
      (hmetatable.trans (.head rfl hset (.many 2 rfl rfl)))))))

theorem Ground.findsMaker (hg : Ground idle h) : FindsMaker h :=
  ⟨hg.setmetatable, hg.self⟩

/-! ## What is made -/

theorem keeps_withContext (h : BridgeHeap) : Heap.Keeps [] h (withContext h) := by
  have hkeeps := ((Heap.keeps_newTable [] h {}).trans (by simp)
    (Heap.keeps_newTable [] _ (contextMetatable h.globals)))
  exact hkeeps.trans (by simp) (Heap.keeps_modifyTable _ (List.mem_singleton.2 rfl) _)

theorem table_withContext (h : BridgeHeap) :
    (withContext h).table h.tables.size = { metatable := some (h.tables.size + 1) } := by
  have hsize : h.tables.size < (h.newTable {}).2.tables.size := by simp [Heap.newTable]
  have hkeeps := Heap.keeps_newTable [] (h.newTable {}).2 (contextMetatable h.globals)
  rw [withContext, Heap.table_modifyTable_self (Nat.lt_of_lt_of_le hsize hkeeps.tablesSize),
    hkeeps.tables _ hsize List.not_mem_nil, Heap.table_newTable]

theorem metatable_withContext (h : BridgeHeap) :
    (withContext h).table (h.tables.size + 1) = contextMetatable h.globals := by
  have hsize : (h.newTable {}).2.tables.size = h.tables.size + 1 := by simp [Heap.newTable]
  rw [withContext, Heap.table_modifyTable_ne (by omega), ← hsize, Heap.table_newTable]

theorem findsGlobals_withContext (h : BridgeHeap) :
    FindsGlobals (withContext h) h.tables.size :=
  ⟨h.tables.size + 1, by rw [table_withContext], by rw [metatable_withContext]; rfl,
    by rw [metatable_withContext]; rfl⟩

/-- A heap with the code that makes a context on it. -/
def withContextCode (h : BridgeHeap) : BridgeHeap :=
  ((h.newCell (.table h.globals)).2.newFunction
    ⟨contextProgram, [(environmentName, h.cells.size)], Script.chunkTitle (utf8 "=context")⟩).2

/-- A heap with some more contexts on it, and these. -/
def withContexts : Nat → BridgeHeap → List Nat × BridgeHeap
  | 0, h => ([], h)
  | count + 1, h =>
    let (contexts, h₁) := withContexts count (withContext (withContextCode h))
    (h.tables.size :: contexts, h₁)

theorem keeps_withContextCode (h : BridgeHeap) : Heap.Keeps [] h (withContextCode h) :=
  (Heap.keeps_newCell [] h _).trans (by simp) (Heap.keeps_newFunction [] _ _)

theorem readChunk_contextSource (hlevel : level ≤ 191) :
    h.readChunk level (utf8 "=context") Script.contextSource (.table h.globals)
      = .ok (.function h.functions.size, withContextCode h) := by
  simp only [Heap.readChunk, readProgram_contextSource hlevel]
  rfl

theorem eq_of_readChunk_contextSource {f : Value} {h₁ : BridgeHeap}
    (hr : h.readChunk level (utf8 "=context") Script.contextSource (.table h.globals)
      = .ok (f, h₁)) : f = .function h.functions.size ∧ h₁ = withContextCode h := by
  unfold Heap.readChunk at hr
  split at hr
  · cases hr
  · next hf =>
    cases eq_of_readProgram_contextSource hf
    cases hr
    exact ⟨rfl, rfl⟩

/-- The code that has been read makes a context. -/
theorem calmly_contextCode (hm : FindsMaker h) (hdepth : depth < Script.maxDepth)
    (K : List (Script.Frame Pending)) (site : Option Script.Site) :
    Calmly Render.host
      ⟨withContextCode h, w, K, .invoke (.function h.functions.size) [] site, level, depth⟩
      ⟨withContext (withContextCode h), w, K, .values [.table h.tables.size], level, depth⟩ := by
  have hm₁ : FindsMaker (withContextCode h) := ⟨hm.setmetatable, hm.self⟩
  exact calmly_contextProgram hm₁ (Heap.functions_newFunction _ _) (Heap.cell_newCell h _) hdepth K
    site

theorem invokes_contextCode (hm : FindsMaker h) (hdepth : depth < Script.maxDepth) (level : Nat) :
    Invokes Render.host level depth (withContextCode h) w (.function h.functions.size) []
      (withContext (withContextCode h)) w [.table h.tables.size] :=
  fun K site => (calmly_contextCode hm hdepth K site).reaches

/-- Making a context reads code, and gives an empty table that finds the global variables. -/
theorem makes_context (hg : Ground idle h) (hlevel : level ≤ 191) (hdepth : depth < Script.maxDepth)
    (level' : Nat) :
    h.readChunk level (utf8 "=context") Script.contextSource (.table h.globals)
        = .ok (.function h.functions.size, withContextCode h)
      ∧ ∃ h₁, Invokes Render.host level' depth (withContextCode h) w (.function h.functions.size) []
          h₁ w [.table h.tables.size]
        ∧ Heap.Keeps [] h h₁ ∧ FindsGlobals h₁ h.tables.size
        ∧ (h₁.table h.tables.size).entries = [] := by
  refine ⟨readChunk_contextSource hlevel, _, invokes_contextCode hg.findsMaker hdepth level', ?_,
    findsGlobals_withContext (withContextCode h),
    congrArg Script.Table.entries (table_withContext (withContextCode h))⟩
  exact (keeps_withContextCode h).trans (by simp) (keeps_withContext (withContextCode h))

end ScriptedViews.Expansion

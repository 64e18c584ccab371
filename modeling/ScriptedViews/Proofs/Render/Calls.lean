import ScriptedViews.Proofs.Render.Loading

set_option autoImplicit false

/-! # Calls of plain views

A call of a view runs the view's code one level deeper, with the element's children as what its
place for content places. The children run in the called view's context, and their own calls nest in
that of the view. So what a call writes is told by induction on the levels that are left, over the
statements of the called view and of the children. -/

namespace ScriptedViews.Expansion

open Script (Bytes Value Heap State Scope ascii utf8 environmentName)
open Script.State
open Code (Directive nodeDirectives nodesDirectives bridgeCall noAttributesExpr contentSource)

variable {views : Store} {engine : Nat} {base : Engine} {level depth context : Nat} {scope : Scope}
  {h : BridgeHeap} {w : World} {b : Bridge} {content : Value} {text : String}

/-! ## Arguments -/

/-- The heap after the table of attributes of a call that passes none has been made. -/
def withNoAttributes (scope : Scope) (line : Nat) (h : BridgeHeap) : BridgeHeap :=
  let f : Script.Function :=
    .mk [] false [.local [utf8 "map"] [.table []], .return [.name line (utf8 "map")]]
  (((h.newFunction ⟨f, scope.vars, scope.chunk⟩).2.newTable {}).2.newCell
    (.table h.tables.size)).2

theorem keeps_withNoAttributes (scope : Scope) (line : Nat) (h : BridgeHeap) :
    Heap.Keeps [] h (withNoAttributes scope line h) :=
  ((Heap.keeps_newFunction [] h _).trans (by simp) (Heap.keeps_newTable [] _ {})).trans (by simp)
    (Heap.keeps_newCell [] _ _)

theorem table_withNoAttributes (scope : Scope) (line : Nat) (h : BridgeHeap) :
    (withNoAttributes scope line h).table h.tables.size = {} :=
  Heap.table_newTable (h.newFunction _).2 {}

/-- The table of attributes of a call that passes none is a new one. -/
theorem evaluates_noAttributes (hdepth : depth < Script.maxDepth) (line : Nat) :
    Evaluates Render.host level depth scope h w (noAttributesExpr line)
      (withNoAttributes scope line h) w [.table h.tables.size] := by
  let body : List Script.Stmt :=
    [.local [utf8 "map"] [.table []], .return [.name line (utf8 "map")]]
  let f : Script.Function := .mk [] false body
  let h₁ : BridgeHeap := (h.newFunction ⟨f, scope.vars, scope.chunk⟩).2
  let h₂ : BridgeHeap := (h₁.newTable {}).2
  have hcell : (withNoAttributes scope line h).cell h₂.cells.size = .table h.tables.size :=
    Heap.cell_newCell h₂ _
  refine evaluates_call (evaluates_single (evaluates_function f)) evaluatesAll_nil
    (invokes_returning (Heap.functions_newFunction h _) rfl hdepth fun K site => ?_)
  let scope₁ : Scope := ⟨scope.vars, 0, [], scope.chunk⟩
  let scope₂ : Scope := ⟨(utf8 "map", h₂.cells.size) :: scope.vars, 1, [], scope.chunk⟩
  have hlocal : Reaches Render.host
      ⟨h₁, w, .activation site :: K, .execute scope₁ body, level, depth + 1⟩
      ⟨withNoAttributes scope line h, w, .activation site :: K,
        .execute scope₂ [.return [.name line (utf8 "map")]], level, depth + 1⟩ :=
    (Reaches.many 1 rfl).trans ((evaluatesAll_singleton evaluates_table _ []).trans (.many 1 rfl))
  have hmap : scope₂.find? (utf8 "map") = some (h₂.cells.size, true) := by
    simp [scope₂, Scope.find?, Scope.findFrom]
  exact hlocal.trans (reaches_return rfl (evaluates_cell hmap hcell))

/-! ## One call -/

theorem IsPlain.withExecutable {v : View} (hv : IsPlain v) (x : Option Script.Executable) :
    IsPlain { v with executable := x } :=
  ⟨hv.root, hv.load, hv.assert, hv.uri⟩

section OneCall

variable {v : View} {origin tag source : String} {bytes : Bytes}

/-- What the engine does on a call of a plain view whose code writes some text when it runs. -/
theorem ends_callView {attributes : Nat} (hlevel : level ≤ 191)
    (hdepth : depth + 1 < Script.maxDepth) (hheld : base.isHeld = true)
    (hnesting : b.depth + 1 ≤ base.config.maxNestingDepth) (hengine : b.engine = engine)
    (hr : Ready views engine base h w) (hv : views (Bridge.target origin tag) = some v)
    (hplain : IsPlain v) (hattributes : h.table attributes = {}) (hs : Holds w b.sink bytes)
    (hbody : ∀ i context, Writes views engine base context ⟨engine, i, context, b.sink, b.depth + 1⟩
      (.text (utf8 source)) (level + 1) (depth + 1) (Directive.stmts 1 (directivesOf v)) text) :
    ∃ h₁ w₁, Ends level depth
        (Render.callView level b origin tag (some attributes) (some source) h w) h₁ w₁
      ∧ Extends views engine base b.sink text h w h₁ w₁ := by
  subst hengine
  obtain ⟨i, w₁, x, hload, hview, hsinks, -, hr₁, hidle⟩ := hr.load hv
  have hread := isRead_of_readView (hr.stored _ v hv)
  let r : Request :=
    { engine := b.engine, view := i, sink := b.sink, depth := b.depth + 1
      attributes := h.contextEntries b.context, children := some source }
  obtain ⟨h₂, w₂, hends, hext⟩ := ends_start (r := r) hlevel hdepth (hplain.withExecutable x)
    (hread.source_eq hplain) hr₁ rfl hview hread.engine hnesting (hs.congr hsinks) (hbody i)
  refine ⟨h₂, w₂, ?_, hext.ready, ?_, ?_, fun bytes' hs' => hext.written bytes' (hs'.congr hsinks)⟩
  · have hcall : Render.callView level b origin tag (some attributes) (some source) h w
        = Render.start level r h w₁ := by
      obtain ⟨cache, pool, hengine, -⟩ := hr.present
      have hany : (w.engines[b.engine]?.any Engine.isHeld) = true := by
        rw [hengine]
        exact hheld
      simp only [Render.callView, hany, hload, hattributes]
      rfl
    rwa [hcall]
  · rw [← hidle]
    exact hext.keeps
  · rw [← hidle]
    exact hext.idle

/-- A call of a plain view writes what the view's code writes. -/
theorem writes_call (hlevel : level ≤ 191) (hdepth : depth + 1 < Script.maxDepth)
    (hheld : base.isHeld = true) (hnesting : b.depth + 1 ≤ base.config.maxNestingDepth)
    (hengine : b.engine = engine) (hv : views (Bridge.target origin tag) = some v)
    (hplain : IsPlain v)
    (hbody : ∀ i context, Writes views engine base context ⟨engine, i, context, b.sink, b.depth + 1⟩
      (.text (utf8 source)) (level + 1) (depth + 1) (Directive.stmts 1 (directivesOf v)) text)
    (children : List Node) (line : Nat) :
    Writes views engine base context b content level depth
      [(Directive.call origin tag children source).stmt line] text := by
  intro scope h w bytes hscope hr hu hs
  let h₁ := withNoAttributes scope line h
  have hkeeps := keeps_withNoAttributes scope line h
  have hext₁ : Extends views engine base b.sink "" h w h₁ w := .of_keeps hr hkeeps
  obtain ⟨o, ho, hb⟩ := hu.finds_bridge
  have hargs : EvaluatesAll Render.host level depth scope h w
      [.text (utf8 origin), .text (utf8 tag), noAttributesExpr line, .text (utf8 source)] h₁ w
      [.text (utf8 origin), .text (utf8 tag), .table h.tables.size, .text (utf8 source)] :=
    evaluatesAll_cons (evaluates_text _) (evaluatesAll_cons (evaluates_text _)
      (evaluatesAll_cons (evaluates_noAttributes (Nat.lt_of_succ_lt hdepth) line)
        (evaluatesAll_singleton (evaluates_text _))))
  obtain ⟨h₂, w₂, hends, hext₂⟩ := ends_callView hlevel hdepth hheld hnesting hengine hext₁.ready hv
    hplain (table_withNoAttributes scope line h) (hext₁.written bytes hs) hbody
  have hinvoke : Render.invoke (utf8 "execute") (.object o :: [.text (utf8 origin),
      .text (utf8 tag), .table h.tables.size, .text (utf8 source)]) level h₁ w
        = Render.callView level b origin tag (some h.tables.size) (some source) h₁ w := by
    have hmethod : Bridge.methods.lookup (utf8 "execute") = some .execute := by decide
    have htext (t : String) : Bridge.textArgument (.text (utf8 t)) = .ok t := by
      simp only [Bridge.textArgument, Value.toText?, Text.decodeUtf8_utf8]
      rfl
    have hreceiver (args : List Value) : Bridge.receiver? h₁ (.object o :: args) = some b :=
      receiver?_of_object (hkeeps.objects o _ hb) args
    simp only [Render.invoke, hmethod, hreceiver, Render.callMethod, List.tail_cons, List.getD_cons_zero, List.getD_cons_succ, htext,
      Bridge.optionalText, Bridge.optionalTable]
    rfl
  have hcall : Evaluates Render.host level depth scope h w
      (.methodCall line line (.name line Code.bridgeName) (utf8 "execute")
        [.text (utf8 origin), .text (utf8 tag), noAttributesExpr line, .text (utf8 source)]) h₂ w₂
        [] := by
    refine evaluates_bridgeCall hscope ho hb (by decide) hargs fun K => ?_
    rw [hinvoke]
    exact hends K
  exact ⟨h₂, w₂, fun K rest => executes_call rfl hcall K rest, hext₁.after hext₂⟩

end OneCall

/-! ## Statements of plain nodes -/

/-- Statements write what they stand for, if their calls and places do. -/
theorem writes_stmts (hlevel : level < 198)
    {call : String → String → List Node → Option String} {placed : Option String}
    {ds : List Directive} (line : Nat)
    (hcall : ∀ origin tag children source, .call origin tag children source ∈ ds → ∀ line text,
      call origin tag children = some text → Writes views engine base context b content level depth
        [(Directive.call origin tag children source).stmt line] text)
    (hplace : .place ∈ ds → ∀ line text, placed = some text →
      Writes views engine base context b content level depth [Directive.place.stmt line] text)
    (hds : Directive.expandAll call placed ds = some text) :
    Writes views engine base context b content level depth (Directive.stmts line ds) text := by
  induction ds generalizing line text with
  | nil =>
    cases hds
    exact writes_nil
  | cons d ds ih =>
    rw [Directive.expandAll] at hds
    obtain ⟨first, hfirst, hds⟩ := Option.bind_eq_some_iff.1 hds
    obtain ⟨rest, hrest, hds⟩ := Option.bind_eq_some_iff.1 hds
    cases hds
    have hd : Writes views engine base context b content level depth [d.stmt line] first := by
      cases d with
      | print t =>
        cases hfirst
        exact writes_print hlevel line first
      | place => exact hplace List.mem_cons_self line first hfirst
      | call origin tag children source =>
        exact hcall origin tag children source List.mem_cons_self line first hfirst
    exact hd.append (ih (line + 1)
      (fun origin tag children source hmem =>
        hcall origin tag children source (List.mem_cons_of_mem _ hmem))
      (fun hmem => hplace (List.mem_cons_of_mem _ hmem)) hrest)

open Code.Directive (joined printOf)

/-- Joining prints makes no calls. -/
theorem mem_of_call_mem_joined {origin tag source : String} {children : List Node}
    {pending : String} {ds : List Directive}
    (h : .call origin tag children source ∈ joined pending ds) :
    .call origin tag children source ∈ ds := by
  have hprint (t : String) : Directive.call origin tag children source ∉ printOf t := by
    unfold printOf
    split <;> simp
  induction ds generalizing pending with
  | nil => exact absurd h (hprint pending)
  | cons d ds ih =>
    cases d with
    | print t =>
      rw [joined] at h
      exact List.mem_cons_of_mem _ (ih h)
    | place =>
      rw [joined] at h
      · rcases List.mem_append.1 h with hmem | hmem
        · exact absurd hmem (hprint pending)
        · rcases List.mem_cons.1 hmem with heq | hmem
          · cases heq
          · exact List.mem_cons_of_mem _ (ih hmem)
      · simp
    | call origin' tag' children' source' =>
      rw [joined] at h
      · rcases List.mem_append.1 h with hmem | hmem
        · exact absurd hmem (hprint pending)
        · rcases List.mem_cons.1 hmem with heq | hmem
          · exact heq ▸ List.mem_cons_self
          · exact List.mem_cons_of_mem _ (ih hmem)
      · simp

theorem not_mem_startDirectives {origin tag source name : String} {children : List Node}
    {attributes : List Attribute} :
    .call origin tag children source ∉ Code.startDirectives name attributes := by
  simp [Code.startDirectives]

/-- Whether the children of a call are plain and its content is what places them. -/
def IsPlainCall (namespaces : NamespaceTable) (uri : String) (children : List Node)
    (source : String) : Prop :=
  ArePlainNodes namespaces true children
    ∧ source = placing (joined "" (nodesDirectives namespaces uri children))

mutual

/-- The calls in a plain node are plain. -/
theorem isPlainCall_of_mem_node (namespaces : NamespaceTable) (uri : String) (inContent : Bool)
    (n : Node) (hn : IsPlainNode namespaces inContent n) {origin tag source : String}
    {children : List Node}
    (h : .call origin tag children source ∈ nodeDirectives namespaces uri n) :
    IsPlainCall namespaces uri children source := by
  cases n with
  | text content =>
    rw [nodeDirectives] at h
    by_cases hm : Text.minify content = "" <;> simp [hm] at h
  | element name attributes nodes =>
    rw [IsPlainNode] at hn
    rw [nodeDirectives] at h
    cases hr : Code.roleOf namespaces name with
    | error e => simp [hr] at hn
    | ok role =>
      cases role with
      | markup =>
        simp only [hr] at hn h
        by_cases hc : nodes.isEmpty
        · simp [hc, not_mem_startDirectives] at h
        · simp only [hc, Bool.false_eq_true, if_false, List.mem_append, List.mem_cons,
            List.not_mem_nil, not_mem_startDirectives, reduceCtorEq, or_false, false_or] at h
          exact isPlainCall_of_mem_nodes namespaces uri inContent nodes hn.2.2 h
      | script => simp [hr] at hn
      | group =>
        simp only [hr] at hn h
        exact isPlainCall_of_mem_nodes namespaces uri inContent nodes hn h
      | childContent => simp [hr] at h
      | invocation qualifier url =>
        simp only [hr, List.mem_singleton, Directive.call.injEq] at hn h
        obtain ⟨-, -, rfl, rfl⟩ := h
        refine ⟨hn.2, ?_⟩
        rw [placing, contentSource, ← Directive.emit_map_token, Code.emit_empty_literal]

/-- The calls in plain nodes are plain. -/
theorem isPlainCall_of_mem_nodes (namespaces : NamespaceTable) (uri : String) (inContent : Bool)
    (ns : List Node) (hns : ArePlainNodes namespaces inContent ns) {origin tag source : String}
    {children : List Node}
    (h : .call origin tag children source ∈ nodesDirectives namespaces uri ns) :
    IsPlainCall namespaces uri children source := by
  cases ns with
  | nil => simp [nodesDirectives] at h
  | cons n ns =>
    rw [ArePlainNodes] at hns
    rw [nodesDirectives] at h
    rcases List.mem_append.1 h with hmem | hmem
    · exact isPlainCall_of_mem_node namespaces uri inContent n hns.1 hmem
    · exact isPlainCall_of_mem_nodes namespaces uri inContent ns hns.2 hmem

end

/-! ## Calls as deep as they go -/

/-- How deep calls may nest: the language stops code that is called from views on more levels, and
    code that is read there. -/
def maxCallDepth : Nat := 191

/-- Whether renders of an engine can nest so many levels deep. -/
structure Nests (views : Store) (base : Engine) (limit : Nat) : Prop where
  isHeld : base.isHeld = true
  plain : ∀ uri v, views uri = some v → IsPlain v
  nesting : limit ≤ base.config.maxNestingDepth
  depth : limit ≤ maxCallDepth

/-- The statements of a view stand for what the view does. -/
theorem expandAll_directivesOf {v : View} (hplain : IsPlain v)
    (call : String → String → List Node → Option String) (placed : Option String) :
    Directive.expandAll call placed (directivesOf v) = expandNode v call placed v.root.toNode := by
  rw [directivesOf, Directive.expandAll_joined, Code.expandNode_eq v call placed false _ hplain.root]
  cases Directive.expandAll call placed (nodeDirectives v.namespaces v.uri v.root.toNode) <;> simp

/-- The calls in the statements of a plain view are plain. -/
theorem isPlainCall_of_mem_directivesOf {v : View} (hplain : IsPlain v) {origin tag source : String}
    {children : List Node} (h : .call origin tag children source ∈ directivesOf v) :
    IsPlainCall v.namespaces v.uri children source :=
  isPlainCall_of_mem_node v.namespaces v.uri false _ hplain.root (mem_of_call_mem_joined h)

/-- A call writes what it stands for, however deep the calls in it nest. -/
theorem writes_expandCall {limit : Nat} (hnests : Nests views base limit) (levels : Nat) {v : View}
    {origin tag source : String} {children : List Node}
    (hchildren : IsPlainCall v.namespaces v.uri children source)
    (hcall : expandCall views levels v origin tag children = some text) (hengine : b.engine = engine)
    (hlevel : b.depth + 1 = level) (hlimit : level + levels ≤ limit + 1)
    (hdepth : depth ≤ 2 * level) (line : Nat) :
    Writes views engine base context b content level depth
      [(Directive.call origin tag children source).stmt line] text := by
  induction levels generalizing v origin tag source children text context b content level depth
    line with
  | zero => cases hcall
  | succ levels ih =>
    obtain ⟨callee, hcallee, htext⟩ := Option.bind_eq_some_iff.1 hcall
    have hplain := hnests.plain _ callee hcallee
    have := hnests.nesting
    have hmax : limit ≤ 191 := hnests.depth
    have hmaxDepth : (2 : Nat) * 191 + 2 < Script.maxDepth := by decide
    obtain ⟨hplainChildren, rfl⟩ := hchildren
    refine writes_call (by omega) (by omega) hnests.isHeld (by omega) hengine hcallee hplain
      (fun i context' => ?_) children line
    rw [← expandAll_directivesOf hplain] at htext
    refine writes_stmts (by omega) 1 (fun origin' tag' children' source' hmem line' text' hcall' => ?_)
      (fun _ line' text' hplaced => ?_) htext
    · exact ih (isPlainCall_of_mem_directivesOf hplain hmem) hcall' rfl (by simp only; omega)
        (by omega) (by omega) line'
    · -- The children are placed in the callee's code, one function deeper.
      refine writes_place (by omega) (by omega) line' rfl ?_
      rw [Code.expandNodes_eq v _ none true children hplainChildren] at hplaced
      have hjoined : Directive.expandAll (expandCall views levels v) none
          (joined "" (nodesDirectives v.namespaces v.uri children)) = some text' := by
        rw [Directive.expandAll_joined, hplaced]
        simp
      refine writes_stmts (by omega) 2 (fun origin' tag' children' source' hmem line' text' hcall' => ?_)
        (fun _ _ _ hnone => by cases hnone) hjoined
      exact ih (isPlainCall_of_mem_nodes v.namespaces v.uri true children hplainChildren
        (mem_of_call_mem_joined hmem)) hcall' rfl (by simp only; omega) (by omega) (by omega) line'

/-- The code of a view that is rendered on its own writes what the view stands for. -/
theorem writes_expand {limit : Nat} (hnests : Nests views base limit) {v : View} (hplain : IsPlain v)
    (htext : expand views limit v = some text) (hengine : b.engine = engine) (hdepth : b.depth = 0) :
    Writes views engine base context b .nil 1 1 (Directive.stmts 1 (directivesOf v)) text := by
  rw [expand, ← expandAll_directivesOf hplain] at htext
  refine writes_stmts (by omega) 1 (fun origin tag children source hmem line text hcall => ?_)
    (fun _ line text hplaced => ?_) htext
  · exact writes_expandCall hnests limit (isPlainCall_of_mem_directivesOf hplain hmem) hcall hengine
      (by omega) (by omega) (by omega) line
  · cases hplaced
    exact writes_place_nil line

end ScriptedViews.Expansion

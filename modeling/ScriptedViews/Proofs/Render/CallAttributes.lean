import ScriptedViews.Proofs.Code.CallAttributes
import ScriptedViews.Proofs.Render.Whereabouts
import ScriptedViews.Proofs.Script.Keeping
import ScriptedViews.Proofs.Script.Table

set_option autoImplicit false

/-! # The attributes of a call as they are evaluated

What the table of a call's attributes holds, told by a relation that goes through the attributes in
turn. The values are not evaluated where the call stands but inside the function that makes the
table: there they see the variables of the call's place behind the table and the values before
them, which hide variables of those names. -/

namespace ScriptedViews

open Script (Bytes Value Table Scope Site Name Expr Stmt utf8)
open Script.State
open Text (utf8_injective)

namespace Code

/-! ## Tables of values -/

/-- A table after some values, each under its name, of which those that are present are put in. -/
def collect (t : Table) : List (Bytes × Value) → Table
  | [] => t
  | (n, v) :: values => collect (if isPresent v then t.setText n v else t) values

/-- The last of some values under a name that is present. -/
def lastPresent (n : Bytes) : List (Bytes × Value) → Option Value
  | [] => none
  | (m, v) :: values => (lastPresent n values).or (if m = n ∧ isPresent v then some v else none)

theorem isRecord_collect {t : Table} (h : t.IsRecord) (values : List (Bytes × Value)) :
    (collect t values).IsRecord := by
  induction values generalizing t with
  | nil => exact h
  | cons x values ih =>
    rw [collect]
    split
    · exact ih (h.setText _ _)
    · exact ih h

theorem getText_collect {t : Table} (h : t.IsRecord) (values : List (Bytes × Value)) (n : Bytes) :
    (collect t values).getText n = (lastPresent n values).getD (t.getText n) := by
  induction values generalizing t with
  | nil => rfl
  | cons x values ih =>
    obtain ⟨m, v⟩ := x
    rw [collect, lastPresent]
    by_cases hv : isPresent v = true
    · rw [if_pos hv, ih (h.setText _ _)]
      by_cases hm : m = n
      · subst hm
        cases lastPresent m values <;> simp [hv, Table.getText_setText_self]
      · cases lastPresent n values <;>
          simp [hm, Table.getText_setText_ne h.distinct (Ne.symm hm)]
    · rw [if_neg hv, ih h]
      cases lastPresent n values <;> simp [hv]

theorem isPresent_of_lastPresent {n : Bytes} {v : Value} {values : List (Bytes × Value)}
    (h : lastPresent n values = some v) : isPresent v = true := by
  induction values with
  | nil => cases h
  | cons x values ih =>
    obtain ⟨m, u⟩ := x
    rw [lastPresent, Option.or_eq_some_iff] at h
    rcases h with h | ⟨-, h⟩
    · exact ih h
    · split at h
      · rename_i hu
        cases h
        exact hu.2
      · cases h

/-- What is in a table of values: the last present value under each name, and nothing else. -/
theorem mem_toList_collect (values : List (Bytes × Value)) {k v : Value} :
    (k, v) ∈ (collect {} values).toList ↔ ∃ n, k = .text n ∧ lastPresent n values = some v := by
  rw [(isRecord_collect Table.isRecord_empty values).mem_toList_iff]
  constructor
  · rintro ⟨n, rfl, hget, hv⟩
    rw [getText_collect Table.isRecord_empty] at hget
    cases hlast : lastPresent n values with
    | none =>
      rw [hlast] at hget
      exact absurd hget.symm hv
    | some u =>
      rw [hlast] at hget
      exact ⟨n, rfl, hlast.trans (congrArg some hget)⟩
  · rintro ⟨n, rfl, hlast⟩
    refine ⟨n, rfl, ?_, fun hv => ?_⟩
    · rw [getText_collect Table.isRecord_empty, hlast]
      rfl
    · have := isPresent_of_lastPresent hlast
      rw [hv] at this
      cases this

/-! ## Inside the function that makes the table -/

namespace Whereabouts

/-- Where the attributes of a call are evaluated: in the function that makes their table, behind the
    variables of some values and of the table. -/
def inside (p : Whereabouts) (site : Site) (cell : Nat) (values : List (Name × Nat)) : Whereabouts :=
  { p with
    scope := ⟨values ++ (mapName, cell) :: p.scope.vars, values.length + 1, [], p.scope.chunk⟩
    depth := p.depth + 1
    callers := some site :: p.callers }

variable {p : Whereabouts} {site : Site} {cell : Nat} {values : List (Name × Nat)}

theorem findFrom_append {n : Name} {vars : List (Name × Nat)} (h : ∀ v ∈ vars, v.1 ≠ n) (i : Nat)
    (rest : List (Name × Nat)) :
    Scope.findFrom n i (vars ++ rest) = Scope.findFrom n (i + vars.length) rest := by
  induction vars generalizing i with
  | nil => rfl
  | cons v vars ih =>
    obtain ⟨m, c⟩ := v
    have hm : ¬ m = n := h (m, c) List.mem_cons_self
    rw [List.cons_append, Scope.findFrom, if_neg hm, ih fun u hu => h u (List.mem_cons_of_mem _ hu),
      List.length_cons, Nat.add_right_comm, Nat.add_assoc]

theorem findFrom_add (n : Name) (i k : Nat) (vars : List (Name × Nat)) :
    Scope.findFrom n (i + k) vars = (Scope.findFrom n i vars).map fun r => (r.1, r.2 + k) := by
  induction vars generalizing i with
  | nil => rfl
  | cons v vars ih =>
    obtain ⟨m, c⟩ := v
    simp only [Scope.findFrom]
    split
    · rfl
    · rw [Nat.add_right_comm, ih]

/-- Inside the function the table is a variable of its own. -/
theorem find?_mapName (h : ∀ v ∈ values, v.1 ≠ mapName) :
    (p.inside site cell values).scope.find? mapName = some (cell, true) := by
  simp [inside, Scope.find?, findFrom_append h, Scope.findFrom]

/-- All other variables but the values are those of the place of the call, and count as variables
    around the running function. -/
theorem find?_inside {n : Name} (h : ∀ v ∈ values, v.1 ≠ n) (hmap : mapName ≠ n) :
    (p.inside site cell values).scope.find? n = (p.scope.find? n).map fun r => (r.1, false) := by
  have hvars : Scope.findFrom n 0 (values ++ (mapName, cell) :: p.scope.vars)
      = (Scope.findFrom n 0 p.scope.vars).map fun r => (r.1, r.2 + (values.length + 1)) := by
    rw [findFrom_append h, Scope.findFrom, if_neg hmap, ← findFrom_add, Nat.add_assoc]
  simp only [inside, Scope.find?, hvars, Option.map_map]
  congr 1
  funext r
  have hlt : ¬ r.2 + (values.length + 1) < values.length + 1 := by omega
  exact Prod.ext rfl (decide_eq_false hlt)

end Whereabouts

/-! ## Values in their turn -/

/-- Put a value into a table under a name if it is present. -/
def putPresent (h : BridgeHeap) (ref : Nat) (n : Bytes) (v : Value) : BridgeHeap :=
  if isPresent v then h.modifyTable ref fun t => t.setText n v else h

/-- Whether the values of some attributes are collected in a table, and under which names: each
    expression is evaluated after all before it, inside the function that makes the table, and leaves
    the table and the variable that holds it alone, and the bridge is still seen where its value is
    looked at. -/
inductive Collects {levels : Nat} (p : Whereabouts) (site : Site) (ref cell : Nat) :
    List (Name × Nat) → Nat → List (CallAttribute levels) → BridgeHeap → World →
      List (Bytes × Value) → BridgeHeap → World → Prop where
  | nil (vars : List (Name × Nat)) (d : Nat) (h : BridgeHeap) (w : World) :
      Collects p site ref cell vars d [] h w [] h w
  | cons {vars : List (Name × Nat)} {d : Nat} {a : CallAttribute levels}
      {as : List (CallAttribute levels)} {h h₁ h' : BridgeHeap} {w w₁ w' : World} {vs : List Value}
      {values : List (Bytes × Value)}
      (evaluates : (p.inside site cell vars).Evaluates h w (a.value.tree.shift d) h₁ w₁ vs)
      (holds : h₁.cell cell = .table ref) (untouched : h₁.tables[ref]? = h.tables[ref]?)
      (bridge : (p.inside site cell ((a.valueName, h₁.cells.size) :: vars)).SeesBridge
        (h₁.newCell (Script.firstValue vs)).2 w₁)
      (rest : Collects p site ref cell ((a.valueName, h₁.cells.size) :: vars) (a.value.lines + d) as
        (putPresent (h₁.newCell (Script.firstValue vs)).2 ref (utf8 a.key) (Script.firstValue vs)) w₁
        values h' w') :
      Collects p site ref cell vars d (a :: as) h w ((utf8 a.key, Script.firstValue vs) :: values) h' w'

variable {levels : Nat} {p : Whereabouts} {site : Site} {ref cell : Nat} {vars : List (Name × Nat)}
  {d : Nat} {as : List (CallAttribute levels)} {h h' : BridgeHeap} {w w' : World}
  {values : List (Bytes × Value)}

theorem cell_newCell_of_lt {c : Nat} (hlt : c < h.cells.size) (v : Value) :
    (h.newCell v).2.cell c = h.cell c :=
  (Script.Heap.keeps_newCell [] h v).cells c hlt

theorem lt_of_cell {c : Nat} (hc : h.cell c = .table ref) : c < h.cells.size := by
  rcases Nat.lt_or_ge c h.cells.size with hlt | hge
  · exact hlt
  · rw [Script.Heap.cell, Array.getD_eq_getD_getElem?, Array.getElem?_eq_none hge] at hc
    cases hc

theorem cell_putPresent (n : Bytes) (v : Value) (c : Nat) :
    (putPresent h ref n v).cell c = h.cell c := by
  unfold putPresent
  split <;> rfl

theorem tables_putPresent {t : Table} (ht : h.tables[ref]? = some t) (n : Bytes) (v : Value) :
    (putPresent h ref n v).tables[ref]? = some (if isPresent v then t.setText n v else t) := by
  unfold putPresent
  split
  · simp [Script.Heap.modifyTable, Array.getElem?_modify, ht]
  · exact ht

namespace Collects

/-- The variable of the table keeps it. -/
theorem cell_eq (hc : Collects p site ref cell vars d as h w values h' w')
    (hcell : h.cell cell = .table ref) : h'.cell cell = .table ref := by
  induction hc with
  | nil => exact hcell
  | cons evaluates holds untouched bridge rest ih =>
    refine ih ?_
    rw [cell_putPresent, cell_newCell_of_lt (lt_of_cell holds), holds]

/-- The table holds what has been collected. -/
theorem tables_eq (hc : Collects p site ref cell vars d as h w values h' w') {t : Table}
    (ht : h.tables[ref]? = some t) : h'.tables[ref]? = some (collect t values) := by
  induction hc generalizing t with
  | nil => exact ht
  | @cons vars d a as h h₁ h' w w₁ w' vs values evaluates holds untouched bridge rest ih =>
    have htable : (h₁.newCell (Script.firstValue vs)).2.tables[ref]? = some t := untouched.trans ht
    exact ih (tables_putPresent htable _ _)

end Collects

/-! ## Runs -/

/-- The bridge tells whether a value is present. -/
theorem invoke_truthy {object level : Nat} {bridge : Bridge}
    (hobject : h.objects[object]? = some (.host bridge)) (v : Value) :
    Render.invoke (utf8 "truthy") [.object object, v] level h w
      = Render.answer h w [.bool (isPresent v)] := by
  have hmethod : Bridge.methods.lookup (utf8 "truthy") = some .truthy := by decide
  simp only [Render.invoke, hmethod, Expansion.receiver?_of_object hobject, Render.callMethod]
  rfl

theorem mapName_ne_valueName (a : CallAttribute levels) : a.valueName ≠ mapName := by
  have hmap : mapName = [0x6d, 0x61, 0x70] := by decide
  rw [a.utf8_variableName, hmap]
  simp

/-- An attribute is evaluated, declared and put into the table. -/
theorem reaches_stmts {a : CallAttribute levels} {h₁ : BridgeHeap} {w₁ : World} {vs : List Value}
    {t : Table} (hvars : ∀ v ∈ vars, v.1 ≠ mapName)
    (evaluates : (p.inside site cell vars).Evaluates h w (a.value.tree.shift d) h₁ w₁ vs)
    (holds : h₁.cell cell = .table ref) (ht : h₁.tables[ref]? = some t) (hmeta : t.metatable = none)
    (bridge : (p.inside site cell ((a.valueName, h₁.cells.size) :: vars)).SeesBridge
      (h₁.newCell (Script.firstValue vs)).2 w₁)
    {K : List (Script.Frame Pending)}
    (hK : K.filterMap Script.Frame.caller? = some site :: p.callers) (rest : List Stmt) :
    Reaches Render.host
      ⟨h, w, K, .execute (p.inside site cell vars).scope (a.stmts d ++ rest), p.level, p.depth + 1⟩
      ⟨putPresent (h₁.newCell (Script.firstValue vs)).2 ref (utf8 a.key) (Script.firstValue vs), w₁, K,
        .execute (p.inside site cell ((a.valueName, h₁.cells.size) :: vars)).scope rest, p.level,
        p.depth + 1⟩ := by
  let v := Script.firstValue vs
  let h₂ := (h₁.newCell v).2
  let inner := p.inside site cell ((a.valueName, h₁.cells.size) :: vars)
  let line := a.value.lines + d + 1
  have hfound : inner.scope.find? a.valueName = some (h₁.cells.size, true) := by
    simp [inner, Whereabouts.inside, Script.Scope.find?, Script.Scope.findFrom]
  have hvalue : Evaluates Render.host p.level (p.depth + 1) inner.scope h₂ w₁
      (.name line a.valueName) h₂ w₁ [v] :=
    evaluates_cell hfound (Script.Heap.cell_newCell h₁ v)
  have htruthy : inner.Evaluates h₂ w₁ (.methodCall line line (.name line bridgeName) (utf8 "truthy")
      [.name line a.valueName]) h₂ w₁ [.bool (isPresent v)] := by
    refine bridge.evaluates_call (by decide) (fun K _ => hvalue K) fun K _ => ?_
    rw [invoke_truthy bridge.object]
    exact .refl _
  have hdeclared : Reaches Render.host
      ⟨h, w, K, .execute (p.inside site cell vars).scope (a.stmts d ++ rest), p.level, p.depth + 1⟩
      ⟨h₂, w₁, K, .execute inner.scope (a.storeStmt line :: rest), p.level, p.depth + 1⟩ :=
    reaches_local (evaluates _ hK)
  have hcondition := reaches_cond [.assign line [.index line (.name line mapName)
    (.text (utf8 a.key))] [.name line a.valueName]] rest K (htruthy _ hK)
  rw [show (Script.firstValue [Value.bool (isPresent v)]).isTrue = isPresent v from rfl]
    at hcondition
  refine hdeclared.trans (hcondition.trans ?_)
  by_cases hv : isPresent v = true
  · have hmap : inner.scope.find? mapName = some (cell, true) :=
      Whereabouts.find?_mapName fun u hu => by
        rcases List.mem_cons.1 hu with rfl | hu
        · exact mapName_ne_valueName a
        · exact hvars u hu
    have hcell : h₂.cell cell = .table ref := (cell_newCell_of_lt (lt_of_cell holds) v).trans holds
    have htable : h₂.table ref = t := by
      rw [Script.Heap.table, Array.getD_eq_getD_getElem?, show h₂.tables[ref]? = some t from ht,
        Option.getD_some]
    have hassign : Executes Render.host p.level (p.depth + 1) inner.scope h₂ w₁
        (.assign line [.index line (.name line mapName) (.text (utf8 a.key))]
          [.name line a.valueName]) (h₂.modifyTable ref fun t => t.setText (utf8 a.key) v) w₁ :=
      executes_assign_field hmap hcell (by rw [htable]; exact hmeta) hvalue
    have hput : putPresent h₂ ref (utf8 a.key) v
        = h₂.modifyTable ref fun t => t.setText (utf8 a.key) v := if_pos hv
    rw [if_pos hv, hput]
    exact (hassign (.body inner.scope rest :: K) []).trans (.many 2 rfl)
  · have hput : putPresent h₂ ref (utf8 a.key) v = h₂ := if_neg hv
    rw [if_neg hv, hput]
    exact .many 2 rfl

/-- Attributes are evaluated and put into the table one after the other. -/
theorem Collects.reaches (hc : Collects p site ref cell vars d as h w values h' w')
    (hvars : ∀ v ∈ vars, v.1 ≠ mapName) {t : Table} (ht : h.tables[ref]? = some t)
    (hrecord : t.IsRecord) {K : List (Script.Frame Pending)}
    (hK : K.filterMap Script.Frame.caller? = some site :: p.callers) (rest : List Stmt) :
    ∃ vars', (∀ v ∈ vars', v.1 ≠ mapName) ∧ Reaches Render.host
      ⟨h, w, K, .execute (p.inside site cell vars).scope (CallAttribute.allStmts d as ++ rest), p.level,
        p.depth + 1⟩
      ⟨h', w', K, .execute (p.inside site cell vars').scope rest, p.level, p.depth + 1⟩ := by
  induction hc generalizing t with
  | nil vars d h w => exact ⟨vars, hvars, .refl _⟩
  | @cons vars d a as h h₁ h' w w₁ w' vs values evaluates holds untouched bridge more ih =>
    have ht₁ : h₁.tables[ref]? = some t := untouched.trans ht
    have htable : (h₁.newCell (Script.firstValue vs)).2.tables[ref]? = some t := ht₁
    have hnames : ∀ v ∈ (a.valueName, h₁.cells.size) :: vars, v.1 ≠ mapName := fun v hv => by
      rcases List.mem_cons.1 hv with rfl | hv
      · exact mapName_ne_valueName a
      · exact hvars v hv
    have hrecord' : (if isPresent (Script.firstValue vs) then t.setText (utf8 a.key)
        (Script.firstValue vs) else t).IsRecord := by
      split
      · exact hrecord.setText _ _
      · exact hrecord
    have hfirst := reaches_stmts hvars evaluates holds ht₁ hrecord.metatable bridge hK
      (CallAttribute.allStmts (a.value.lines + d) as ++ rest)
    obtain ⟨vars', hvars', hrest⟩ := ih hnames (tables_putPresent htable _ _) hrecord'
    refine ⟨vars', hvars', ?_⟩
    rw [CallAttribute.allStmts, List.append_assoc]
    exact hfirst.trans hrest

/-- The heap when the first of the attributes of a call is evaluated: there are the function that
    makes the table, the table, and the variable that holds it. -/
def tableHeap (p : Whereabouts) (h : BridgeHeap) (d : Nat) (as : List (CallAttribute levels)) :
    BridgeHeap :=
  (((h.newFunction ⟨CallAttribute.tableFunction d as, p.scope.vars, p.scope.chunk⟩).2.newTable
    {}).2.newCell (.table h.tables.size)).2

/-- The expression that makes the table has a new table, with what has been collected. -/
theorem Collects.evaluates (hdepth : p.depth < Script.maxDepth)
    (hc : Collects p (p.scope.site (CallAttribute.linesAfter d as + 1)) h.tables.size h.cells.size [] d as
      (tableHeap p h d as) w values h' w') :
    p.Evaluates h w (CallAttribute.tableExpr d as) h' w' [.table h.tables.size] := by
  intro K hK
  let line := CallAttribute.linesAfter d as + 1
  let site := p.scope.site line
  let c : Script.Closure := ⟨CallAttribute.tableFunction d as, p.scope.vars, p.scope.chunk⟩
  let activation := Script.Frame.activation (some site) :: K
  let inner : Scope := ⟨p.scope.vars, 0, [], p.scope.chunk⟩
  let rest : List Stmt := [.return [.name line mapName]]
  have hcalled : Reaches Render.host
      ⟨h, w, K, .evaluate p.scope (CallAttribute.tableExpr d as), p.level, p.depth⟩
      ⟨(h.newFunction c).2, w, K, .invoke (.function h.functions.size) [] (some site), p.level,
        p.depth⟩ := .many 7 rfl
  have hinvoke : step Render.host
      ⟨(h.newFunction c).2, w, K, .invoke (.function h.functions.size) [] (some site), p.level, p.depth⟩
      = ⟨(h.newFunction c).2, w, activation, .execute inner
          (.local [mapName] [.table []] :: (CallAttribute.allStmts d as ++ rest)), p.level, p.depth + 1⟩ := by
    simp only [step, invoke, Script.Heap.functions_newFunction, callFunction, Nat.not_le.2 hdepth,
      if_false]
    rfl
  have hmap : Reaches Render.host
      ⟨(h.newFunction c).2, w, activation, .execute inner
        (.local [mapName] [.table []] :: (CallAttribute.allStmts d as ++ rest)), p.level, p.depth + 1⟩
      ⟨tableHeap p h d as, w, activation, .execute (p.inside site h.cells.size []).scope
        (CallAttribute.allStmts d as ++ rest), p.level, p.depth + 1⟩ :=
    reaches_local (evaluates_table _)
  have hactivation : activation.filterMap Script.Frame.caller? = some site :: p.callers := by
    rw [← hK]
    rfl
  have htable : (tableHeap p h d as).tables[h.tables.size]? = some {} := by
    simp [tableHeap, Script.Heap.newCell, Script.Heap.newTable, Script.Heap.newFunction]
  obtain ⟨vars', hvars', hattributes⟩ := hc.reaches (by simp) htable Table.isRecord_empty hactivation rest
  have hcell : h'.cell h.cells.size = .table h.tables.size :=
    hc.cell_eq (Script.Heap.cell_newCell _ _)
  have hreturn : Reaches Render.host
      ⟨h', w', activation, .execute (p.inside site h.cells.size vars').scope rest, p.level, p.depth + 1⟩
      ⟨h', w', activation, .returning [.table h.tables.size], p.level, p.depth + 1⟩ :=
    reaches_return rfl (evaluates_cell (Whereabouts.find?_mapName hvars') hcell)
  exact hcalled.trans (.head hinvoke (hmap.trans (hattributes.trans (hreturn.trans (.many 1 rfl)))))

/-- The table of the attributes that a call hands on is read, where it stands in the code of the call,
    as an expression that has a new table, with the last present value under each local name and
    nothing else, whatever variables there are at the place of the call. The values are those that the
    expressions of the attributes have in turn inside the function that makes the table, where all
    variables are those of the place of the call but the table and the values before. -/
theorem HandsOn.evaluates_collected {qualifier : String} {attributes : List Attribute}
    {as : List (CallAttribute levels)} (hands : HandsOn qualifier 0 attributes as)
    (hcount : as.length < Script.Grammar.maxLocals) :
    ∃ e,
      (∀ nested base tag content, nested + levels + 3 < Script.Grammar.maxLevels →
        nested + 6 ≤ Script.Grammar.maxLevels →
        Script.readProgram nested
            (utf8 (invocationStatement base tag (callAttributes qualifier attributes) content))
          = .ok (.mk [] true [bridgeCall 1 "execute"
              [.text (utf8 base), .text (utf8 tag), e, .text (utf8 content)]]))
      ∧ (∀ nested base tag content, nested + levels + 5 < Script.Grammar.maxLevels →
        nested + 8 ≤ Script.Grammar.maxLevels →
        Script.readProgram nested (Script.functionSource
            (invocationStatement base tag (callAttributes qualifier attributes) content))
          = .ok (.mk [] true [.return [.function (.mk [utf8 "_ENV"] false [bridgeCall 1 "execute"
              [.text (utf8 base), .text (utf8 tag), e, .text (utf8 content)]])]]))
      ∧ (∀ p h w values h' w', p.depth < Script.maxDepth →
        Collects p (p.scope.site (CallAttribute.linesAfter 0 as + 1)) h.tables.size h.cells.size [] 0
          as (tableHeap p h 0 as) w values h' w' →
        p.Evaluates h w e h' w' [.table h.tables.size]
          ∧ ∀ k v, (k, v) ∈ (h'.table h.tables.size).toList
            ↔ ∃ n, k = .text n ∧ lastPresent n values = some v)
      ∧ ∀ (p : Whereabouts) site cell vars n, (∀ v ∈ vars, v.1 ≠ n) → mapName ≠ n →
        (p.inside site cell vars).scope.find? n = (p.scope.find? n).map fun r => (r.1, false) := by
  refine ⟨CallAttribute.tableExpr 0 as, fun nested base tag content hlevels hleft => ?_,
    fun nested base tag content hlevels hleft => ?_,
    fun p h w values h' w' hdepth hc => ⟨hc.evaluates hdepth, fun k v => ?_⟩,
    fun p site cell vars n => Whereabouts.find?_inside⟩
  · exact CallAttribute.readProgram_invocationStatement hands hcount hlevels hleft base tag content
  · exact CallAttribute.readProgram_functionSource_invocationStatement hands hcount hlevels hleft base
      tag content
  · have hstart : (tableHeap p h 0 as).tables[h.tables.size]? = some {} := by
      simp [tableHeap, Script.Heap.newCell, Script.Heap.newTable, Script.Heap.newFunction]
    have htable : h'.table h.tables.size = collect {} values := by
      rw [Script.Heap.table, Array.getD_eq_getD_getElem?, hc.tables_eq hstart, Option.getD_some]
    rw [htable]
    exact mem_toList_collect values

/-! ## A variable that is hidden -/

/-- A variable, as it is read. -/
def mapVariable : Snippet 10 where
  source := "map"
  tokens := [⟨.name mapName, 1⟩]
  lines := 0
  tree := .name 1 mapName
  scans := by
    have hbytes : utf8 "map" = [0x6d, 0x61, 0x70] := by decide
    rw [mapName, hbytes]
    exact .token rfl (by simp) rfl (by simp) (by simp) (.stop rfl)
  reads := ⟨1, rfl⟩

/-- An attribute with a variable for its value, a blank one, and two that are not handed on. -/
def mapAttributes : List Attribute :=
  [⟨⟨some "xmlns", "u"⟩, "/"⟩, ⟨⟨none, "title"⟩, "map"⟩, ⟨⟨some "x", "other"⟩, "1"⟩,
   ⟨⟨some "U", "note"⟩, " "⟩]

/-- The attributes that are handed on. -/
def mapHanded : List (CallAttribute 10) :=
  [⟨1, "title", mapVariable⟩, ⟨3, "note", .ofText 9 ""⟩]

theorem handsOn_mapAttributes : HandsOn "u" 0 mapAttributes mapHanded :=
  .skip (by decide) (.pass (by decide) _ (by decide) (.skip (by decide)
    (.pass (by decide) _ (by decide) (.nil _))))

/-- A bridge in a context, and a variable that is called like that of the table. -/
def callerHeap : BridgeHeap where
  tables := #[{}, {}, { entries := [(.text bridgeName, .object 0)] }]
  cells := #[.table 2, .text (utf8 "m")]
  objects := #[.host ⟨0, 0, 2, 0, 0⟩]

/-- Code that sees the variable and the context. -/
def callerPlace : Whereabouts where
  scope := { vars := [(mapName, 1), (Script.environmentName, 0)], own := 1, chunk := [] }
  level := 0
  depth := 1
  callers := []
  object := 0
  bridge := ⟨0, 0, 2, 0, 0⟩

/-- The name of the table hides a variable of the place of the call: the attribute that names it is
    handed on with the table for its value. -/
theorem evaluates_collected_map :
    let w : World := {}
    ∃ e h',
      Script.readProgram 0 (utf8 (invocationStatement "/" "card" (callAttributes "u" mapAttributes) ""))
          = .ok (.mk [] true [bridgeCall 1 "execute"
              [.text (utf8 "/"), .text (utf8 "card"), e, .text (utf8 "")]])
        ∧ callerPlace.Evaluates callerHeap w mapVariable.tree callerHeap w [.text (utf8 "m")]
        ∧ callerPlace.Evaluates callerHeap w e h' w [.table 3]
        ∧ ∀ k v, (k, v) ∈ (h'.table 3).toList ↔ k = .text (utf8 "title") ∧ v = .table 3 := by
  intro w
  obtain ⟨e, hread, -, hruns, -⟩ := handsOn_mapAttributes.evaluates_collected (by decide)
  let site := callerPlace.scope.site 1
  let title : CallAttribute 10 := ⟨1, "title", mapVariable⟩
  let note : CallAttribute 10 := ⟨3, "note", .ofText 9 ""⟩
  let h := tableHeap callerPlace callerHeap 0 mapHanded
  let h₁ := putPresent (h.newCell (.table 3)).2 3 (utf8 "title") (.table 3)
  let h₂ := putPresent (h₁.newCell (.text [])).2 3 (utf8 "note") (.text [])
  have htitle : (callerPlace.inside site 2 []).Evaluates h w (mapVariable.tree.shift 0) h w [.table 3] :=
    fun _ _ => .many 1 rfl
  have hnote : (callerPlace.inside site 2 [(title.valueName, 3)]).Evaluates h₁ w
      (note.value.tree.shift 0) h₁ w [.text []] := fun _ _ => .many 1 rfl
  have hlast : Collects callerPlace site 3 2 [(title.valueName, 3)] 0 [note] h₁ w
      [(utf8 "note", .text [])] h₂ w :=
    @Collects.cons 10 _ _ _ _ _ _ note [] h₁ h₁ h₂ w w w [.text []] [] hnote rfl rfl
      ⟨fun _ _ _ => .many 2 rfl, rfl⟩ (.nil _ _ _ _)
  have hcollects : Collects callerPlace site 3 2 [] 0 [title, note] h w
      [(utf8 "title", .table 3), (utf8 "note", .text [])] h₂ w :=
    @Collects.cons 10 _ _ _ _ _ _ title [note] h h h₂ w w w [.table 3] _ htitle rfl rfl
      ⟨fun _ _ _ => .many 2 rfl, rfl⟩ hlast
  obtain ⟨hevaluates, hentries⟩ := hruns callerPlace callerHeap w _ h₂ w (by decide) hcollects
  refine ⟨e, h₂, hread 0 "/" "card" "" (by decide) (by decide), fun _ _ => .many 1 rfl, hevaluates,
    fun k v => (hentries k v).trans ?_⟩
  simp [lastPresent, isPresent, eq_comm]

end Code

end ScriptedViews

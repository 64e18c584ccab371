import ScriptedViews.Proofs.Render.Alike.Caching
import ScriptedViews.Proofs.Render.Alike.Framings

set_option autoImplicit false

/-! # Compiling code is of no consequence

Code that is compiled before it runs and code that is read each time give the same, and so do the
engines that do the one or the other, as long as the source is the same statements either way. What
tells the two apart is what the statements stand in: a function with a parameter and no further
arguments, or a chunk. -/

namespace ScriptedViews

open Script (Value Bytes Heap State Stmt utf8 environmentName)
open Expansion (storeOf IsPlain directivesOf)

/-! ## Portable source -/

namespace Code

theorem Directive.leaves_stmt (line : Nat) (d : Directive) :
    (d.stmt line).leaves environmentName = true := by
  cases d <;>
    simp [Directive.stmt, bridgeCall, placeStmt, loadExpr, noAttributesExpr]

theorem Directive.leaveAll_stmts (line : Nat) (ds : List Directive) :
    Stmt.leaveAll environmentName (Directive.stmts line ds) = true := by
  induction ds generalizing line with
  | nil => rfl
  | cons d ds ih => simp [Directive.stmts, Directive.leaves_stmt, ih]

end Code

/-- The code of a view without scripts and expressions is the same statements as the body of a
    function and as a chunk. -/
theorem isPortable_of_isPlain {most : Nat} (hmost : most ≤ 191) {engine : Nat} {uri : String}
    {v : View} (hread : Expansion.IsRead engine uri v) (hplain : IsPlain v) :
    IsPortable most v.source := by
  refine .inl ⟨Code.Directive.stmts 1 (directivesOf v), fun levels hlevels => ?_,
    fun levels hlevels => ?_, Code.Directive.leaveAll_stmts _ _⟩
  · rw [hread.source_eq hplain, Code.readProgram_functionSource (by omega)]
    rfl
  · rw [hread.source_eq hplain, Code.readProgram_sources (by omega)]

/-! ## Compiling -/

namespace Setup

/-- The setup with code compiled, or not. -/
def compiling (s : Setup) (compiles : Bool) : Setup :=
  { s with config := { s.config with compile := compiles } }

/-- Whether the code of every view is the same statements as the body of a function and as a chunk,
    or is refused for the same reason as both. -/
def IsPortable (most : Nat) (sources : Sources) (s : Setup) : Prop :=
  ∀ loader uri v, s.loader = some loader → storeOf sources s loader uri = some v →
    ScriptedViews.IsPortable most v.source

/-- The same comes of whatever an engine is asked to do, whether it compiles code or reads it for
    each render. -/
theorem serve_compiling_iff (s : Setup) (sources : Sources) (os : List Operation) {most : Nat}
    (hpositive : 0 < most) (hmost : most ≤ 197) (hportable : s.IsPortable most sources)
    (hquiet : (s.compiling true).IsQuiet most sources os)
    (r : Except ViewError (List Outcome × Nat)) :
    EndsAs ((s.compiling true).serve sources os) r
      ↔ EndsAs ((s.compiling false).serve sources os) r := by
  have hagrees : (s.compiling true).Agrees (s.compiling false) := ⟨rfl, rfl, rfl⟩
  have hfits : Fit most sources (s.compiling true) (s.compiling false) := by
    intro loader uri v hloader hv
    have hread : storeOf sources (s.compiling true) loader = storeOf sources s loader :=
      Expansion.storeOf_congr rfl fun _ => rfl
    rw [hread] at hv
    exact .mixed (hportable loader uri v hloader hv)
  exact serve_iff hagrees (fun _ => ⟨hpositive, hmost⟩) hfits hquiet r

end Setup

/-- A world with an engine for two views, of which the page has been loaded, with an empty sink, and
    with a context that has the variables of the page. -/
def pageWorld : World :=
  let w := Setup.only { stores := #[Expansion.boxedViews] } Expansion.memorySetup (.memory 0) []
    #[{ language := "lua" }]
  let w := (({ w with sinks := #[{}] } : World).newContext 50 0).2
  let w := ((w.load 0 "/page.xview").toOption.map (·.2)).getD w
  (w.withHeap 0 fun h => ((), Render.bindVariables h 6 [] [] none ⟨0, 0, 6, 0, 0⟩)).2

/-- All places of the world of the page. -/
def pagePlaces : Script.Places :=
  (pageWorld.heapOf 0).places pageWorld.views.size

/-- The code of the page. -/
def pageSource : String :=
  ((storeOf { stores := #[Expansion.boxedViews] } Expansion.memorySetup (.memory 0)
    "/page.xview").map View.source).getD ""

theorem isIndifferent_pageSource : IsIndifferent pageSource := by
  let sources : Sources := { stores := #[Expansion.boxedViews] }
  obtain ⟨v, hv⟩ : ∃ v, storeOf sources Expansion.memorySetup (.memory 0) "/page.xview" = some v :=
    Option.isSome_iff_exists.1 (by decide +kernel)
  have hplain : IsPlain v := Expansion.isPlain_boxedViews rfl "/page.xview" v hv
  have hportable : ScriptedViews.IsPortable 0 v.source :=
    isPortable_of_isPlain (Nat.zero_le _) (isRead_of_storeOf hv) hplain
  have hsource : pageSource = v.source := by
    rw [pageSource, hv]
    rfl
  exact hsource ▸ hportable.isIndifferent

example : pageSource
    = "xview:print(\"a\");\nxview:execute(\"/\", \"box\", "
      ++ "(function() local map = \x7b\x7d return map end)(), "
      ++ "\"function()\\nxview:print(\\\"b\\\");\\nend\");\n" := by
  decide +kernel

/-- The page is loaded and rendered. -/
def visit : List Operation :=
  [.load "/page.xview", .render 0 [] none none]

end ScriptedViews

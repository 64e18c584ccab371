import ScriptedViews.Proofs.Render.Alike.Setups

set_option autoImplicit false

/-! # Keeping views is of no consequence

An engine that keeps its views and one that reads them again and again give the same for whatever
they are asked to do, as long as the source of every view is no more than the body of the function
that it is compiled into. -/

namespace ScriptedViews

open Script (Value Bytes Heap State utf8)
open Expansion (storeOf IsPlain isRead_of_readView directivesOf)

/-! ## Sealed source -/

/-- The code of a view without scripts and expressions is the body of one function. -/
theorem isSealed_of_isPlain {most : Nat} (hmost : most ≤ 191) {engine : Nat} {uri : String} {v : View}
    (hread : Expansion.IsRead engine uri v) (hplain : IsPlain v) : IsSealed most v.source := by
  refine .inl ⟨Code.Directive.stmts 1 (directivesOf v), fun levels hlevels => ?_⟩
  rw [hread.source_eq hplain, Code.readProgram_functionSource (by omega)]
  rfl

theorem isRead_of_storeOf {sources : Sources} {s : Setup} {loader : Loader} {uri : String} {v : View}
    (h : storeOf sources s loader uri = some v) : Expansion.IsRead 0 uri v := by
  unfold storeOf at h
  dsimp only at h
  cases hread : World.readView { sources } 0
      { config := s.config, loader, validator := s.validator, pool := ⟨0, []⟩, runtime := 0 } uri with
  | error e =>
    rw [hread] at h
    cases h
  | ok v' =>
    rw [hread] at h
    obtain rfl : v' = v := Option.some.inj h
    exact isRead_of_readView hread

/-! ## Quiet sessions by computation -/

namespace Session

/-- Whether there are few levels of calls, and fewer functions running than may be. -/
def isWithin (most : Nat) (t : State Bridge World Pending) : Bool :=
  t.level ≤ most && t.depth < Script.maxDepth

theorem isWithin_of_isWithin {compile : Bool} {most : Nat} (K : List (Script.Frame Pending))
    (t : State Bridge World Pending) (h : isWithin most t = true) : IsWithin compile most K t := by
  simp only [isWithin, Bool.and_eq_true, decide_eq_true_eq] at h
  exact fun _ => ⟨h.1, fun _ _ _ => h.2⟩

/-- Whether the machine goes quietly about one operation after the other, within some steps. -/
def endQuietly (most fuel engine : Nat) (os : List Operation) (s : Session) : Bool :=
  passesAll (State.endsQuietly Render.host (fun _ => isWithin most) fuel) fuel engine os s

theorem areQuiet_of_endQuietly {compile : Bool} {most fuel engine : Nat} {os : List Operation}
    {s : Session} (h : endQuietly most fuel engine os s = true) :
    AreQuiet compile most engine os s :=
  areQuiet_iff.2 (meetsAll_of_passesAll
    (fun _ => Script.State.quiet_of_endsQuietly fun K t => isWithin_of_isWithin K t) h)

end Session

/-! ## Keeping views -/

namespace Setup

/-- The setup with the views kept, or not. -/
def keepingViews (s : Setup) (keeps : Bool) : Setup :=
  { s with config := { s.config with cacheViews := keeps } }

/-- Whether the code of every view is compiled into one function that has it as its body, or is
    refused. -/
def IsSealed (most : Nat) (sources : Sources) (s : Setup) : Prop :=
  ∀ loader uri v, s.loader = some loader → storeOf sources s loader uri = some v →
    ScriptedViews.IsSealed most v.source

/-- Keeping views is of no consequence: the same comes of whatever an engine is asked to do, with the
    same failures, whether it keeps its views or reads them again. -/
theorem serve_keepingViews (s : Setup) (sources : Sources) (os : List Operation) {most : Nat}
    (hmost : s.config.compile = true → 0 < most ∧ most ≤ 197)
    (hsealed : s.config.compile = true → s.IsSealed most sources)
    (hquiet : (s.keepingViews true).IsQuiet most sources os)
    (r : Except ViewError (List Outcome × Nat)) :
    EndsAs ((s.keepingViews true).serve sources os) r
      ↔ EndsAs ((s.keepingViews false).serve sources os) r := by
  have hagrees : (s.keepingViews true).Agrees (s.keepingViews false) := ⟨rfl, rfl, rfl⟩
  have hfits : Fit most sources (s.keepingViews true) (s.keepingViews false) := by
    intro loader uri v hloader hv
    have hread : storeOf sources (s.keepingViews true) loader = storeOf sources s loader :=
      Expansion.storeOf_congr rfl fun _ => rfl
    rw [hread] at hv
    show Fits most v.source s.config.compile s.config.compile
    cases hcompile : s.config.compile with
    | false => exact .interpreted
    | true => exact .compiled (hsealed hcompile loader uri v hloader hv)
  exact serve_iff hagrees hmost hfits hquiet r

/-- Loads and renders of a page before and after views are forgotten. -/
def visits : List Operation :=
  [.load "/page.xview", .render 0 [] none none, .clearCache, .load "/page.xview",
    .render 1 [] none none, .render 0 [] none none]

theorem serve_keepingViews_boxedViews :
    let sources : Sources := { stores := #[Expansion.boxedViews] }
    ∃ rs : List Outcome, rs.map (fun r => r.writes.reverse.flatten)
        = [[], utf8 "a<p>b</p>", [], [], utf8 "a<p>b</p>", utf8 "a<p>b</p>"]
      ∧ EndsAs ((Expansion.memorySetup.keepingViews true).serve sources visits) (.ok (rs, 0))
      ∧ EndsAs ((Expansion.memorySetup.keepingViews false).serve sources visits) (.ok (rs, 0)) := by
  intro sources
  let s := Expansion.memorySetup
  let w : World := only sources (s.keepingViews true) (.memory 0) [] #[{ language := "lua" }]
  have hloader : (s.keepingViews true).loader = some (.memory 0) := rfl
  have hquiet : (s.keepingViews true).IsQuiet 10 sources visits := by
    intro fuel engine registry world h
    obtain ⟨rfl, rfl⟩ := eq_of_createEngine_zero hloader rfl rfl h
    have hends : Session.endQuietly 10 300 0 visits { world := w } = true := by decide +kernel
    exact Session.areQuiet_of_endQuietly hends
  have hsealed : s.IsSealed 10 sources := by
    intro loader uri v hloader hv
    obtain rfl : Loader.memory 0 = loader := Option.some.inj hloader
    have hplain : IsPlain v := Expansion.isPlain_boxedViews rfl uri v hv
    exact isSealed_of_isPlain (by decide) (isRead_of_storeOf hv) hplain
  have hdone : ((Session.performAll 300 0 visits { world := w }).map fun x =>
      (x.1.map fun r => r.writes.reverse.flatten, x.2.idleContexts 0))
        = some ([[], utf8 "a<p>b</p>", [], [], utf8 "a<p>b</p>", utf8 "a<p>b</p>"], 0) := by
    decide +kernel
  obtain ⟨x, hx, hwritten⟩ := Option.map_eq_some_iff.1 hdone
  obtain ⟨hwrites, hidle⟩ := Prod.mk.inj hwritten
  have hkept : EndsAs ((s.keepingViews true).serve sources visits) (.ok (x.1, 0)) :=
    hidle ▸ endsAs_serve_of_performAll hloader rfl rfl hx
  exact ⟨x.1, hwrites, hkept,
    (serve_keepingViews s sources visits (fun _ => by decide) (fun _ => hsealed) hquiet _).1 hkept⟩

/-- A view whose script ends the function that it is compiled into, and does something as it is
    compiled: it counts. -/
def countingViews : ViewStore :=
  [("/page.xview", ("<x:view xmlns:x=\"xview\"><p>$\x7bn\x7d</p><x:script>end, "
    ++ "(function() n = (n or 0) + 1 end)(), function()</x:script></x:view>").toUTF8)]

/-- A view that is compiled again counts again. -/
theorem serve_keepingViews_ne :
    let sources : Sources := { stores := #[countingViews] }
    let os : List Operation :=
      [.load "/page.xview", .render 0 [] none none, .load "/page.xview", .render 1 [] none none]
    let written (r : Performed ViewError (List Outcome × Nat)) : Option (List Bytes) :=
      r.bind fun r => r.toOption.map fun x => x.1.map fun r => r.writes.reverse.flatten
    written ((Expansion.memorySetup.keepingViews true).serve sources os 200)
        = some [[], utf8 "<p>1</p>", [], utf8 "<p>1</p>"]
      ∧ written ((Expansion.memorySetup.keepingViews false).serve sources os 200)
        = some [[], utf8 "<p>1</p>", [], utf8 "<p>2</p>"] := by
  decide +kernel

end Setup

end ScriptedViews

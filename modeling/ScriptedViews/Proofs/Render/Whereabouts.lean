import ScriptedViews.Proofs.Render.Statements

set_option autoImplicit false

/-! # Where code runs

What code that is part of a view can tell about the place where it runs, and what its expressions
come to there. An error may say where running functions were called from, so a place knows the
callers, and a run holds for every stack that has just these. -/

namespace ScriptedViews.Code

open Script (Value Scope Frame Site Expr utf8)
open Script.State

/-- Where code runs: the variables that it sees, how many calls it is nested in and where those were
    made, and the bridge. -/
structure Whereabouts where
  scope : Scope
  level : Nat
  depth : Nat
  callers : List (Option Site)
  /-- The object that stands for the bridge. -/
  object : Nat
  bridge : Bridge

namespace Whereabouts

variable (p : Whereabouts)

/-- Whether an expression has some values at a place. -/
def Evaluates (h : BridgeHeap) (w : World) (e : Expr) (h' : BridgeHeap) (w' : World)
    (vs : List Value) : Prop :=
  ∀ K, K.filterMap Frame.caller? = p.callers →
    Reaches Render.host ⟨h, w, K, .evaluate p.scope e, p.level, p.depth⟩
      ⟨h', w', K, .values vs, p.level, p.depth⟩

/-- Whether the name of the bridge denotes it. -/
structure SeesBridge (h : BridgeHeap) (w : World) : Prop where
  evaluates : ∀ line, p.Evaluates h w (.name line bridgeName) h w [.object p.object]
  object : h.objects[p.object]? = some (.host p.bridge)

variable {p : Whereabouts} {h h₁ h₂ : BridgeHeap} {w w₁ w₂ : World}

/-- A call of a method of the bridge with one argument does what the bridge does with the values of
    the argument. -/
theorem SeesBridge.evaluates_call (bridge : p.SeesBridge h w) {method : String}
    (hmethod : (Bridge.methods.map (·.1)).contains (utf8 method) = true) {line : Nat} {e : Expr}
    {vs rs : List Value} (evaluates : p.Evaluates h w e h₁ w₁ vs)
    (hturn : ∀ K, K.filterMap Frame.caller? = p.callers →
      Reaches Render.host
        (Script.State.turn ⟨h₁, w₁, K, .finished, p.level, p.depth⟩
          (Render.invoke (utf8 method) (.object p.object :: vs) p.level h₁ w₁))
        ⟨h₂, w₂, K, .values rs, p.level, p.depth⟩) :
    p.Evaluates h w (.methodCall line line (.name line bridgeName) (utf8 method) [e]) h₂ w₂ rs := by
  intro K hK
  -- The frames between the call and its parts are no calls.
  refine Expansion.reaches_bridgeCall (bridge.evaluates line _ ?_) bridge.object hmethod
    ((Reaches.many 1 rfl).trans ((evaluates (.lastItem [] :: _) ?_).trans (.many 1 rfl))) (hturn K hK)
  · exact hK
  · exact hK

end Whereabouts

end ScriptedViews.Code

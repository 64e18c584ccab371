import ScriptedViews.Proofs.Render.Acts
import ScriptedViews.Proofs.Render.Callees
import ScriptedViews.Proofs.Render.Failures

set_option autoImplicit false

/-! # What happens while renders run

Every step of the machine comes to some acts of renders, or to none, so what all acts keep holds at
any time of a render. The state before a step tells what the step adds to what has happened. -/

namespace ScriptedViews

open Script (Bytes Value Frame State hostPart utf8)

namespace ViewCall

/-- The URI of the view that is called. -/
def target (c : ViewCall) : String :=
  Bridge.target c.base c.tag

/-- What the engine does when the call is made. -/
def turn (c : ViewCall) (s : RenderState) : EngineTurn :=
  Render.callView s.level c.bridge c.base c.tag c.given c.content s.heap s.world

end ViewCall

/-! ## Steps -/

namespace RenderState

variable {s : RenderState} {o : Occasion}

/-- What the next step adds to what has happened. -/
def event? (s : RenderState) : Option ViewEvent :=
  match s.viewCall? with
  | some c => loadedEvent? s.world c.bridge.engine c.target
  | none =>
    match s.control, s.stack with
    | .values vs, .host p :: _ => p.resumedEvent? (.ok vs)
    | _, _ => none

/-- A method that does not call a view fails with an error that no view is the cause of, has an
    answer at once, or writes a value. -/
theorem invoke_cases {name : Bytes} {args : List Value} {K : List (Frame Pending)}
    (hmethod : s.methodCall? = some (name, args, K)) (hnone : s.viewCall? = none) :
    (∃ cause, cause.IsPlain ∧ Render.invoke name args s.level s.heap s.world
      = Render.failWith s.heap s.world cause)
    ∨ (∃ vs, Render.invoke name args s.level s.heap s.world = Render.answer s.heap s.world vs)
    ∨ ∃ b v, Render.invoke name args s.level s.heap s.world
      = Render.print b v s.heap s.world := by
  unfold viewCall? at hnone
  rw [hmethod] at hnone
  unfold Render.invoke
  split
  · next m b hlookup hb =>
    cases m with
    | print => exact .inr (.inr ⟨b, _, rfl⟩)
    | truthy => exact .inr (.inl ⟨_, rfl⟩)
    | uri => exact .inr (.inl ⟨_, rfl⟩)
    | path =>
      rw [Render.callMethod]
      cases hfirst : Bridge.textArgument (args.tail.getD 0 .nil) with
      | error cause => exact .inl ⟨cause, Bridge.isPlain_of_textArgument hfirst, rfl⟩
      | ok first =>
        cases hsecond : Bridge.optionalText (args.tail.getD 1 .nil) with
        | error cause => exact .inl ⟨cause, Bridge.isPlain_of_optionalText hsecond, rfl⟩
        | ok second => exact .inr (.inl ⟨_, rfl⟩)
    | execute =>
      have hname : name = utf8 "execute" := Bridge.eq_of_lookup_execute hlookup
      simp only [if_pos hname, hb] at hnone
      rw [Render.callMethod]
      -- It would call a view if all of its arguments were of their kinds.
      cases hbase : Bridge.textArgument (args.tail.getD 0 .nil) with
      | error cause => exact .inl ⟨cause, Bridge.isPlain_of_textArgument hbase, rfl⟩
      | ok base =>
        cases htag : Bridge.textArgument (args.tail.getD 1 .nil) with
        | error cause => exact .inl ⟨cause, Bridge.isPlain_of_textArgument htag, rfl⟩
        | ok tag =>
          cases hgiven : Bridge.optionalTable (args.tail.getD 2 .nil) with
          | error cause => exact .inl ⟨cause, Bridge.isPlain_of_optionalTable hgiven, rfl⟩
          | ok given =>
            cases hcontent : Bridge.optionalText (args.tail.getD 3 .nil) with
            | error cause => exact .inl ⟨cause, Bridge.isPlain_of_optionalText hcontent, rfl⟩
            | ok content => simp only [hbase, htag, hgiven, hcontent, reduceCtorEq] at hnone
  · exact .inl ⟨_, by simp [RaisedError.IsPlain, ViewError.nested?], rfl⟩

/-- A method that does not call a view does nothing to views. -/
theorem leads_invoke {name : Bytes} {args : List Value} {K : List (Frame Pending)}
    (hmethod : s.methodCall? = some (name, args, K)) (hnone : s.viewCall? = none)
    (L : List ViewEvent) (R : List Pending) : Leads o ⟨L, R, s.world⟩ L R
      (Render.invoke name args s.level s.heap s.world) := by
  obtain ⟨cause, -, heq⟩ | ⟨vs, heq⟩ | ⟨b, v, heq⟩ := invoke_cases hmethod hnone <;> rw [heq]
  · exact .failWith cause
  · exact .answer vs
  · exact .print b v

theorem rendersOn_turn (s : RenderState) (t : EngineTurn) :
    rendersOn (s.turn t).stack = rendersOf t ++ rendersOn s.stack := by
  rw [rendersOn, hostsOf_turn, List.filter_append]
  rfl

theorem world_turn (s : RenderState) (t : EngineTurn) : (s.turn t).world = t.world := by
  unfold State.turn
  dsimp only
  split <;> rfl

/-- A turn does to the state what it comes to. -/
theorem acts_turn {s₀ : Stage} {L : List ViewEvent} {R : List Pending} {t : EngineTurn}
    (ht : Leads o s₀ L R t) (hR : rendersOn s.stack = R) :
    Acts o s₀ ⟨L, rendersOn (s.turn t).stack, (s.turn t).world⟩ := by
  rw [rendersOn_turn, world_turn, hR]
  exact ht

/-- Whether a render is of the view that is called next, one level deeper. -/
def Calls (s : RenderState) (r : Request) : Prop :=
  ∃ c w', s.viewCall? = some c ∧ r.engine = c.bridge.engine ∧ r.depth = c.bridge.depth + 1
    ∧ s.world.load c.bridge.engine c.target = .ok (r.view, w')

/-- What the next step may come to: a view that it calls may be rendered, and the code may have been
    compiled of the view of the innermost render. -/
def occasion (s : RenderState) : Occasion where
  enters r R := R = rendersOn s.stack ∧ s.Calls r
  compiles R := R = rendersOn s.stack

/-- A function of the host goes on with values. -/
theorem step_of_values {p : Pending} {K : List (Frame Pending)} {vs : List Value}
    (hs : s.stack = .host p :: K) (hc : s.control = .values vs) : s.step Render.host
      = State.turn { s with stack := K, level := s.level - 1, control := .finished }
        (Render.resume p (.ok vs) (s.level - 1) s.heap s.world) := by
  obtain ⟨heap, world, stack, control, level, depth⟩ := s
  cases hs
  cases hc
  exact turn_congr rfl rfl rfl _

theorem acts_resumed {p : Pending} {K : List (Frame Pending)} (hs : s.stack = .host p :: K)
    (outcome : Except RaisedError (List Value)) (L : List ViewEvent) :
    Acts s.occasion ⟨L, rendersOn s.stack, s.world⟩
      ⟨(p.resumedEvent? outcome).toList ++ L,
        rendersOn (State.turn { s with stack := K, level := s.level - 1, control := .finished }
          (Render.resume p outcome (s.level - 1) s.heap s.world)).stack,
        (State.turn { s with stack := K, level := s.level - 1, control := .finished }
          (Render.resume p outcome (s.level - 1) s.heap s.world)).world⟩ := by
  have hrenders : rendersOn s.stack = [p].filter Pending.isRender ++ rendersOn K := by
    rw [hs, rendersOn_host]
  rw [hrenders]
  refine acts_turn (.resume p outcome fun hp => ?_) rfl
  show p :: rendersOn K = rendersOn s.stack
  rw [hrenders, List.filter_cons_of_pos hp]
  rfl

/-- What a step comes to. -/
theorem acts_step (hsound : s.IsSound) (L : List ViewEvent) :
    Acts s.occasion ⟨L, rendersOn s.stack, s.world⟩
      ⟨s.event?.toList ++ L, rendersOn (s.step Render.host).stack, (s.step Render.host).world⟩ := by
  unfold event?
  split
  · next c hcall =>
    obtain ⟨hpart, hstep⟩ := viewCall?_spec hcall
    rw [hstep]
    exact acts_turn
      (.callView fun r w' hengine hdepth hl => ⟨rfl, c, w', hcall, hengine, hdepth, hl⟩)
      (rendersOn_congr hpart)
  · next hnone =>
    split
    · next vs p K hc hs =>
      rw [step_of_values hs hc]
      exact acts_resumed hs (.ok vs) L
    · next hvalues =>
      have hmove : s.Moves Render.host (s.step Render.host) := hsound.moves
      generalize s.step Render.host = t at hmove ⊢
      cases hmove with
      | internal h =>
        rw [rendersOn_congr h.hostPart, h.world]
        exact .refl
      | ended hs => exact .refl
      | @invoked K hpart hshaped name args hmethod =>
        exact acts_turn (leads_invoke hmethod hnone L _) (rendersOn_congr hpart)
      | @resumed p K outcome hs harrives =>
        have hevent : p.resumedEvent? outcome = none := by
          cases harrives with
          | values hc => exact absurd hs (hvalues _ _ _ hc)
          | failed hc => cases p <;> rfl
          | raised hc hf => cases p <;> rfl
        have hacts := acts_resumed hs outcome L
        rwa [hevent] at hacts
      | described hs hc => exact .refl
      | undescribed hs hc =>
        rw [hs]
        exact .refl

/-- A step leaves renders active as they are, or ends some of the innermost, or starts the render of
    a view that is called. -/
theorem active_step (hsound : s.IsSound) :
    activeOn (s.step Render.host).stack <:+ activeOn s.stack
      ∨ ∃ r, activeOn (s.step Render.host).stack = r :: activeOn s.stack ∧ s.Calls r := by
  have hkept {a b : Stage} (ha : Act s.occasion a b)
      (h : a.active <:+ activeOn s.stack ∨ ∃ r, a.active = r :: activeOn s.stack ∧ s.Calls r) :
      b.active <:+ activeOn s.stack ∨ ∃ r, b.active = r :: activeOn s.stack ∧ s.Calls r := by
    obtain hactive | ⟨r₀, hactive⟩ | ⟨r₀, -, -, hactive, ⟨hR, hcalls⟩, -⟩ := ha.active
    · rwa [hactive]
    · rw [hactive] at h
      obtain h | ⟨r, heq, -⟩ := h
      · exact .inl ((List.suffix_cons r₀ _).trans h)
      · exact .inl ((List.cons.inj heq).2 ▸ List.suffix_refl _)
    · refine .inr ⟨r₀, ?_, hcalls⟩
      rw [hactive, Stage.active, hR, filterMap_request?_rendersOn]
  have hstart : (⟨[], rendersOn s.stack, s.world⟩ : Stage).active = activeOn s.stack :=
    filterMap_request?_rendersOn s.stack
  have hend := Acts.keeps hkept (acts_step hsound [])
    (.inl (hstart ▸ List.suffix_refl _))
  rwa [Stage.active, filterMap_request?_rendersOn] at hend

/-! ## Runs -/

/-- What happens in a number of steps, the last of it first. -/
def events (s : RenderState) : Nat → List ViewEvent
  | 0 => []
  | n + 1 => events (s.step Render.host) n ++ s.event?.toList

theorem events_succ (s : RenderState) (n : Nat) :
    s.events (n + 1) = (event? (s.stepMany Render.host n)).toList ++ s.events n := by
  induction n generalizing s with
  | zero => exact (List.append_nil _).symm
  | succ n ih =>
    rw [events, ih, events, List.append_assoc]
    rfl

/-- What holds of what there is at a state, and is kept by every act that its step may come to,
    holds of what there is after that. -/
theorem keeps_stepMany {I : Stage → Prop} (hsound : ∀ n, (s.stepMany Render.host n).IsSound)
    (L : List ViewEvent) (hs : I ⟨L, rendersOn s.stack, s.world⟩) (n : Nat)
    (hact : ∀ m < n, ∀ {a b : Stage}, Act (occasion (s.stepMany Render.host m)) a b → I a → I b) :
    I ⟨s.events n ++ L, rendersOn (s.stepMany Render.host n).stack,
      (s.stepMany Render.host n).world⟩ := by
  induction n with
  | zero => exact hs
  | succ n ih =>
    have hbefore := ih fun m hlt => hact m (by omega)
    have hacts := acts_step (hsound n) (s.events n ++ L)
    rw [State.stepMany_add, events_succ, List.append_assoc]
    exact hacts.keeps (hact n (by omega)) hbefore

end RenderState

/-! ## Renders from outside -/

namespace World

variable {w : World} {engine : Nat} {e : Engine} {I : Stage → Prop}

/-- The stage that a render from outside starts on, after some things have happened. -/
def stageAt (w : World) (L : List ViewEvent) (runtime : Nat) : Stage :=
  ⟨L, [], w.withoutHeap runtime⟩

/-- What the start of a render may come to: it is the only one then. -/
def occasion (w : World) (engine view sink : Nat) (attributes : List (String × Json))
    (children : Option String) : Occasion where
  enters r R := r = w.requestOf engine view sink attributes children ∧ R = []
  compiles _ := False

/-- What holds at the start of a render, and is kept by every act that it may come to, holds at any
    time of it. -/
theorem Settled.keeps_rendering (hw : w.Settled) (he : w.engines[engine]? = some e)
    (view sink : Nat) (attributes : List (String × Json)) (children : Option String)
    (L : List ViewEvent)
    (hI : I ((w.given engine attributes).stageAt L (w.runtimeOf engine)))
    (hstart : ∀ {a b : Stage}, Act (w.occasion engine view sink attributes children) a b →
      I a → I b)
    (n : Nat)
    (hact : ∀ m < n, ∀ {a b : Stage}, Act (RenderState.occasion
      ((w.rendering engine view sink attributes children).stepMany Render.host m)) a b →
      I a → I b) :
    let s := w.rendering engine view sink attributes children
    I ⟨RenderState.events s n ++ L, rendersOn (s.stepMany Render.host n).stack,
      (s.stepMany Render.host n).world⟩ := by
  refine RenderState.keeps_stepMany
    (fun n => (hw.underway he view sink attributes children n).sound) L ?_ n hact
  exact Acts.keeps hstart (RenderState.acts_turn (s := ⟨_, _, [], .finished, 0, 0⟩)
    (.start ⟨rfl, rfl⟩) rfl) hI

end World

end ScriptedViews

import ScriptedViews.Proofs.Script.Internal.Heaps
import ScriptedViews.Script.Machine.Statement

set_option autoImplicit false

/-! # Steps that the host has no part in

Most steps are code that goes on by itself. They leave the world alone and put frames on the stack or
take some off, but none that belongs to the host. That they take off no such frame rests on what the
stack looks like: what is left by a statement, or by a call in the place of the running function,
stands right above frames of statements, down to the function that they belong to. -/

namespace ScriptedViews.Script

variable {ω σ φ : Type}

/-! ## Stacks -/

namespace Frame

/-- Whether the frame belongs to the host: it is one of its functions, or the text of an error is
    made for one. -/
def isHosts : Frame φ → Bool
  | .host _ => true
  | .describing => true
  | _ => false

/-- Whether the frame is a statement that waits for a part of it. -/
def isStatement : Frame φ → Bool
  | .body .. => true
  | .declare .. => true
  | .targetObject .. => true
  | .targetKey .. => true
  | .assignment .. => true
  | .assignRest .. => true
  | .discard => true
  | .cond .. => true
  | .whileTest .. => true
  | .whileBody .. => true
  | .repeatBody .. => true
  | .untilTest => true
  | .numericStart .. => true
  | .intBody .. => true
  | .floatBody .. => true
  | .genericStart .. => true
  | .genericNext .. => true
  | .genericBody .. => true
  | .results => true
  | _ => false

/-- Whether the frame is a call whose results are those of the running function. -/
def isTail : Frame φ → Bool
  | .callee _ _ _ tail => tail
  | .receiver _ _ _ _ _ tail => tail
  | .methodOf _ _ _ _ tail => tail
  | .arguments _ _ _ tail => tail
  | _ => false

/-- The table that waits for a field. -/
def construction? : Frame φ → Option Construction
  | .fieldItem _ c _ => some c
  | .fieldLast c => some c
  | .fieldKey _ c _ _ _ => some c
  | .fieldValue _ c _ _ _ => some c
  | _ => none

end Frame

/-- A stack from the innermost frame on that belongs to the host. -/
def hostPart (K : List (Frame φ)) : List (Frame φ) :=
  K.dropWhile fun f => !f.isHosts

theorem hostPart_of_not {f : Frame φ} (h : f.isHosts = false) (K : List (Frame φ)) :
    hostPart (f :: K) = hostPart K := by
  rw [hostPart, List.dropWhile_cons_of_pos (by rw [h]; rfl), hostPart]

/-- Whether a stack starts with statements of a running function. -/
def InBody : List (Frame φ) → Prop
  | [] => False
  | f :: K => f.isActivation = true ∨ f.isStatement = true ∧ InBody K

/-- Whether a table has no two entries with the same key while it is constructed. -/
def Construction.IsDistinct (c : Construction) : Prop :=
  Table.AreDistinct c.table.entries

namespace Frame

/-- Whether a frame may stand on a stack. -/
structure Fits (f : Frame φ) (K : List (Frame φ)) : Prop where
  inBody : f.isStatement = true ∨ f.isTail = true → InBody K
  distinct : ∀ c, f.construction? = some c → c.IsDistinct

/-- A frame that may stand anywhere. -/
theorem Fits.of_plain {f : Frame φ} (K : List (Frame φ)) (hs : f.isStatement = false)
    (ht : f.isTail = false) (hc : f.construction? = none) : f.Fits K :=
  ⟨by simp [hs, ht], by simp [hc]⟩

theorem Fits.of_inBody {f : Frame φ} {K : List (Frame φ)} (hK : InBody K)
    (hc : f.construction? = none) : f.Fits K :=
  ⟨fun _ => hK, by simp [hc]⟩

/-- A frame that takes the place of another one is the last of a function only if that one was. -/
theorem Fits.of_tail {f g : Frame φ} {K : List (Frame φ)} (hg : g.Fits K)
    (ht : f.isTail = true → g.isTail = true) (hs : f.isStatement = false)
    (hc : f.construction? = none) : f.Fits K :=
  ⟨fun h => hg.inBody (.inr (ht (h.resolve_left (by simp [hs])))), by simp [hc]⟩

end Frame

/-- Whether every frame may stand where it does. -/
def Shaped : List (Frame φ) → Prop
  | [] => True
  | f :: K => f.Fits K ∧ Shaped K

namespace Control

/-- Whether something is done for the statement that runs. -/
def isStatement : Control → Bool
  | .execute .. => true
  | .resolve .. => true
  | .assignAll .. => true
  | .store .. => true
  | .finished => true
  | .leaving => true
  | .returning .. => true
  | _ => false

/-- The table that is being constructed. -/
def construction? : Control → Option Construction
  | .construct _ c _ => some c
  | _ => none

/-- Whether a failure is on its way. -/
def isFailed : Control → Bool
  | .failed _ => true
  | _ => false

/-- Whether something may be done above a stack. -/
structure Fits (c : Control) (K : List (Frame φ)) : Prop where
  inBody : c.isStatement = true → InBody K
  distinct : ∀ d, c.construction? = some d → d.IsDistinct

theorem Fits.of_plain {c : Control} (K : List (Frame φ)) (hs : c.isStatement = false)
    (hc : c.construction? = none) : c.Fits K :=
  ⟨by simp [hs], by simp [hc]⟩

theorem Fits.of_inBody {c : Control} {K : List (Frame φ)} (hK : InBody K)
    (hc : c.construction? = none) : c.Fits K :=
  ⟨fun _ => hK, by simp [hc]⟩

end Control

namespace State

/-- Whether the stack looks as it should, and no table has two entries with the same key. -/
structure IsOrderly (s : State ω σ φ) : Prop where
  shaped : Shaped s.stack
  distinct : s.heap.IsDistinct

/-- Whether a state is one that runs go through. -/
structure IsSound (s : State ω σ φ) : Prop extends s.IsOrderly where
  fits : s.control.Fits s.stack

/-- The frame on top, and what is below it. -/
theorem IsOrderly.shaped_cons {s : State ω σ φ} {f : Frame φ} {K : List (Frame φ)}
    (h : s.IsOrderly) (hs : s.stack = f :: K) : f.Fits K ∧ Shaped K := by
  have hstack := h.shaped
  rwa [hs] at hstack

/-- Whether one state comes out of another one without the host, which alone has failures. -/
structure Internal (s t : State ω σ φ) : Prop where
  world : t.world = s.world
  heap : s.heap.Grows t.heap
  hostPart : hostPart t.stack = hostPart s.stack
  sound : t.IsSound
  quiet : t.control.isFailed = false

variable {s t : State ω σ φ} {f : Frame φ} {c : Control}

namespace Internal

/-- Only the world, the heap and the stack of the state before count. -/
theorem congr {s' : State ω σ φ} (h : Internal s' t) (hworld : s'.world = s.world)
    (hheap : s'.heap = s.heap) (hstack : Script.hostPart s'.stack = Script.hostPart s.stack) :
    Internal s t :=
  ⟨h.world.trans hworld, hheap ▸ h.heap, h.hostPart.trans hstack, h.sound, h.quiet⟩

/-- A frame that does not belong to the host may be put on the stack before. -/
theorem of_push (hf : f.isHosts = false) (h : Internal (s.push f c) t) : Internal s t :=
  h.congr rfl rfl (hostPart_of_not hf _)

/-- The heap may grow before. -/
theorem of_heap {heap : Heap ω} (hg : s.heap.Grows heap)
    (h : Internal { s with heap } t) : Internal s t :=
  ⟨h.world, hg.trans h.heap, h.hostPart, h.sound, h.quiet⟩

end Internal

/-! ## Moves -/

namespace IsOrderly

variable (h : s.IsOrderly)

include h

theorem setHeap {heap : Heap ω} (hg : s.heap.Grows heap) : IsOrderly { s with heap } :=
  ⟨h.shaped, hg.distinct h.distinct⟩

theorem pushed (hf : f.Fits s.stack) (c : Control) : (s.push f c).IsOrderly :=
  ⟨⟨hf, h.shaped⟩, h.distinct⟩

theorem go (hc : c.Fits s.stack) (hq : c.isFailed = false) : Internal s (s.go c) :=
  ⟨rfl, .refl _, rfl, ⟨⟨h.shaped, h.distinct⟩, hc⟩, hq⟩

theorem give (vs : List Value) : Internal s (s.give vs) :=
  h.go (.of_plain _ rfl rfl) rfl

theorem giveOne (v : Value) : Internal s (s.giveOne v) :=
  h.give [v]

theorem push (hm : f.isHosts = false) (hf : f.Fits s.stack) (hc : c.Fits (f :: s.stack))
    (hq : c.isFailed = false) : Internal s (s.push f c) :=
  ⟨rfl, .refl _, hostPart_of_not hm _, ⟨h.pushed hf c, hc⟩, hq⟩

theorem raise (site : Option Site) (message : Bytes) : Internal s (s.raise site message) :=
  h.go (.of_plain _ rfl rfl) rfl

theorem raiseText (site : Option Site) (message : String) :
    Internal s (s.raiseText site message) :=
  h.raise site _

theorem callFrom (hm : f.isHosts = false) (hf : f.Fits s.stack) (v : Value) (vs : List Value)
    (site : Option Site) : Internal s (s.callFrom f v vs site) := by
  unfold State.callFrom
  split
  · exact h.raiseText site _
  · have hnative : Frame.native.Fits (f :: s.stack) := .of_plain _ rfl rfl rfl
    exact ⟨rfl, .refl _, (hostPart_of_not rfl _).trans (hostPart_of_not hm _),
      ⟨⟨⟨hnative, hf, h.shaped⟩, h.distinct⟩, .of_plain _ rfl rfl⟩, rfl⟩

theorem enter (hm : f.isHosts = false) (hf : f.Fits s.stack) (hc : c.Fits (f :: s.stack))
    (hq : c.isFailed = false) : Internal s (s.enter f c) := by
  have hstack : IsOrderly (s.enter f c) := ⟨⟨hf, h.shaped⟩, h.distinct⟩
  refine ⟨rfl, .refl _, hostPart_of_not hm _, ⟨hstack, ?_⟩, ?_⟩
  all_goals unfold State.enter; dsimp only; split
  · exact .of_plain _ rfl rfl
  · exact hc
  · rfl
  · exact hq

theorem leave (hc : c.Fits s.stack) (hq : c.isFailed = false) :
    Internal s (s.leave c) :=
  ⟨rfl, .refl _, rfl, ⟨⟨h.shaped, h.distinct⟩, hc⟩, hq⟩

/-- The heap grows, and something else is done. -/
theorem goWith {heap : Heap ω} (hg : s.heap.Grows heap) (hc : c.Fits s.stack)
    (hq : c.isFailed = false) : Internal s { s with heap, control := c } :=
  ⟨rfl, hg, rfl, ⟨⟨h.shaped, hg.distinct h.distinct⟩, hc⟩, hq⟩

end IsOrderly

end State

end ScriptedViews.Script

import ScriptedViews.Pool

set_option autoImplicit false

/-! # Pools that are shared

A pool that several holders ask at once keeps a count of its idle contexts beside the contexts
themselves. The count is looked at first, and the contexts, which only one holder at a time may look
at, decide: a context is taken only if both say that there is one, and kept only if both say that
there is room. -/

namespace ScriptedViews

/-- Idle contexts, the one that was put back first at the front, and how many there are. -/
structure CountedPool (γ : Type) where
  capacity : Nat
  contexts : List γ
  count : Nat
deriving Repr, Inhabited

namespace CountedPool

variable {σ γ ε : Type}

/-- A pool that is full from the start. -/
def create (kind : ContextKind σ γ ε) (capacity : Nat) (s : σ) :
    Except ε (CountedPool γ) × σ :=
  match Pool.makeMany kind capacity s with
  | (.error e, s) => (.error e, s)
  | (.ok cs, s) => (.ok ⟨capacity, cs, cs.length⟩, s)

/-- How many contexts are idle, by the count. -/
def len (p : CountedPool γ) : Nat := p.count

/-- Whether no context is idle, by the count. -/
def isEmpty (p : CountedPool γ) : Bool := p.len == 0

/-- Take the idle context that was put back first. -/
def take? (p : CountedPool γ) : Option (γ × CountedPool γ) :=
  if 0 < p.count then
    match p.contexts with
    | c :: rest => some (c, { p with contexts := rest, count := rest.length })
    | [] => none
  else none

/-- Take the idle context that was put back first, or make one. The pool is told also where that
    fails. -/
def acquire (kind : ContextKind σ γ ε) (p : CountedPool γ) (s : σ) :
    Except ε γ × CountedPool γ × σ :=
  match p.take? with
  | some (c, p) => (.ok c, p, s)
  | none =>
    match kind.make s with
    | (.error e, s) => (.error e, p, s)
    | (.ok c, s) => (.ok c, p, s)

/-- Keep a wiped context if there is room. -/
def keep (p : CountedPool γ) (c : γ) : CountedPool γ :=
  if p.count < p.capacity then
    if p.contexts.length < p.capacity then
      let contexts := p.contexts ++ [c]
      { p with contexts, count := contexts.length }
    else p
  else p

/-- Give a context back: it is wiped, and kept if there is room. -/
def release (kind : ContextKind σ γ ε) (p : CountedPool γ) (c : γ) (s : σ) :
    CountedPool γ × σ :=
  match kind.wipe c s with
  | (some c, s) => (p.keep c, s)
  | (none, s) => (p, s)

/-- The text that describes a pool. -/
def describe (p : CountedPool γ) : String :=
  "ContextPool \x7b len: " ++ toString p.len ++ ", capacity: " ++ toString p.capacity ++ " \x7d"

end CountedPool

end ScriptedViews

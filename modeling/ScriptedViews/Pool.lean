set_option autoImplicit false

/-! # Pools of contexts

Contexts that are kept for reuse. The capacity bounds how many idle ones are kept and nothing else:
whoever asks gets a context, made on the spot if none is idle. A context is wiped before it is kept,
and one that cannot be wiped is thrown away. -/

namespace ScriptedViews

/-- How contexts are made and wiped, in a world of type `σ`. -/
structure ContextKind (σ γ ε : Type) where
  /-- Make a context, or fail to. -/
  make : σ → Except ε γ × σ
  /-- Wipe a context, or fail to. -/
  wipe : γ → σ → Option γ × σ

/-- Idle contexts, the one that was put back first at the front. -/
structure Pool (γ : Type) where
  capacity : Nat
  idle : List γ
deriving Repr, Inhabited

namespace Pool

variable {σ γ ε : Type}

/-- Make `count` contexts. The world is as the last attempt leaves it. -/
def makeMany (kind : ContextKind σ γ ε) : Nat → σ → Except ε (List γ) × σ
  | 0, s => (.ok [], s)
  | count + 1, s =>
    match kind.make s with
    | (.error e, s) => (.error e, s)
    | (.ok c, s) =>
      match makeMany kind count s with
      | (.error e, s) => (.error e, s)
      | (.ok cs, s) => (.ok (c :: cs), s)

/-- A pool that is full from the start. -/
def create (kind : ContextKind σ γ ε) (capacity : Nat) (s : σ) : Except ε (Pool γ) × σ :=
  match makeMany kind capacity s with
  | (.error e, s) => (.error e, s)
  | (.ok cs, s) => (.ok ⟨capacity, cs⟩, s)

/-- Take the idle context that was put back first. -/
def take? (p : Pool γ) : Option (γ × Pool γ) :=
  match p.idle with
  | c :: rest => some (c, { p with idle := rest })
  | [] => none

/-- Take the idle context that was put back first, or make one. -/
def acquire (kind : ContextKind σ γ ε) (p : Pool γ) (s : σ) : Except ε (γ × Pool γ) × σ :=
  match p.take? with
  | some r => (.ok r, s)
  | none =>
    match kind.make s with
    | (.error e, s) => (.error e, s)
    | (.ok c, s) => (.ok (c, p), s)

/-- Keep a wiped context if there is room. -/
def keep (p : Pool γ) (c : γ) : Pool γ :=
  if p.idle.length < p.capacity then { p with idle := p.idle ++ [c] } else p

/-- Give a context back: it is wiped, and kept if there is room. -/
def release (kind : ContextKind σ γ ε) (p : Pool γ) (c : γ) (s : σ) : Pool γ × σ :=
  match kind.wipe c s with
  | (some c, s) => (p.keep c, s)
  | (none, s) => (p, s)

/-- The text that describes a pool. -/
def describe (p : Pool γ) : String :=
  "ContextPool \x7b len: " ++ toString p.idle.length ++ ", capacity: " ++ toString p.capacity
    ++ " \x7d"

end Pool

end ScriptedViews

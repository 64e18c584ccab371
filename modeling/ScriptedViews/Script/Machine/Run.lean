import ScriptedViews.Script.Machine.Resume

set_option autoImplicit false

/-! # Running the machine

One step, and many. A run ends when nothing is left on the stack, and a run that does not get there
within the given number of steps has no outcome. -/

namespace ScriptedViews.Script

namespace State

variable {ω σ φ : Type}

/-- Take a frame off the stack and go on with the outcome that it waits for. -/
def settle (s : State ω σ φ) (resume : State ω σ φ → Frame φ → State ω σ φ) : State ω σ φ :=
  match s.stack with
  | [] => s
  | f :: rest => resume { s with stack := rest } f

/-- One step. -/
def step (host : Host ω σ φ) (s : State ω σ φ) : State ω σ φ :=
  match s.control with
  | .evaluate scope e => s.evaluate scope e
  | .evaluateAll scope done es => s.evaluateAll scope done es
  | .construct scope c fields => s.construct scope c fields
  | .execute scope body => s.execute scope body
  | .resolve scope line done rest values => s.resolve scope line done rest values
  | .assignAll pairs => s.assignAll pairs
  | .invoke callee args site => s.invoke host callee args site
  | .index object key site hops => s.index host object key site hops
  | .store object key value site hops => s.store object key value site hops
  | .sort task site => s.sortPart task site
  | .values vs => s.settle fun s f => s.resumeValues host vs f
  | .finished => s.settle fun s f => s.resumeFinished f
  | .leaving => s.settle fun s f => s.resumeLeaving f
  | .returning vs => s.settle fun s f => s.resumeReturning vs f
  | .raised error => s.settle fun s f => s.resumeRaised host error f
  | .failed cause => s.settle fun s f => s.resumeFailed host cause f

/-- The outcome of a run that has ended. -/
def outcome? (s : State ω σ φ) : Option (Except RaisedError (List Value)) :=
  match s.stack, s.control with
  | [], .values vs => some (.ok vs)
  | [], .failed cause => some (.error cause)
  | [], .finished => some (.ok [])
  | [], .leaving => some (.ok [])
  | [], .returning vs => some (.ok vs)
  | [], .raised v => some (.error (.runtime (errorText v)))
  | _, _ => none

/-- Take steps until the run has ended, or as many as the fuel allows. -/
def run (host : Host ω σ φ) : Nat → State ω σ φ → State ω σ φ
  | 0, s => s
  | fuel + 1, s =>
    match s.outcome? with
    | some _ => s
    | none => run host fuel (s.step host)

end State

namespace Host

variable {ω σ φ : Type}

/-- The machine as it starts with an action of the host. -/
def start (t : Turn ω σ φ) : State ω σ φ :=
  State.turn { heap := t.heap, world := t.world, stack := [], control := .finished } t

/-- What comes of an action of the host. -/
structure Result (ω σ : Type) where
  heap : Heap ω
  world : σ
  /-- None if the steps did not suffice. -/
  outcome : Option (Except RaisedError (List Value))

/-- Do what the host wants, in as many steps as the fuel allows. -/
def perform (host : Host ω σ φ) (fuel : Nat) (t : Turn ω σ φ) : Result ω σ :=
  let s := (start t).run host fuel
  ⟨s.heap, s.world, s.outcome?⟩

end Host

end ScriptedViews.Script

import ScriptedViews.Pool.Counted

set_option autoImplicit false

/-! # The count of a shared pool

The count that a pool keeps beside its contexts is their number, and there are never more than the
capacity. So both looks at a pool agree, what it does is said by its contexts alone, and it does
what the pool without a count does. -/

namespace ScriptedViews

namespace CountedPool

variable {σ γ ε : Type} {kind : ContextKind σ γ ε} {p : CountedPool γ}

/-- The count is right, and there is room for all that is idle. -/
structure Sound (p : CountedPool γ) : Prop where
  count_eq : p.count = p.contexts.length
  le_capacity : p.contexts.length ≤ p.capacity

/-- A pool without its count. -/
def toPool (p : CountedPool γ) : Pool γ := ⟨p.capacity, p.contexts⟩

/-! ## Taking -/

/-- Some context is idle: the first one is taken, and nothing is asked of the world. -/
theorem acquire_of_cons (h : p.Sound) {c : γ} {rest : List γ} (hcs : p.contexts = c :: rest)
    (s : σ) :
    p.acquire kind s = (.ok c, { p with contexts := rest, count := rest.length }, s) := by
  have hcount : 0 < p.count := by simp [h.count_eq, hcs]
  simp only [acquire, take?, if_pos hcount, hcs]

/-- No context is idle: one is made, and the pool stays as it is. -/
theorem acquire_of_nil (h : p.Sound) (hcs : p.contexts = []) (s : σ) :
    p.acquire kind s = ((kind.make s).1, p, (kind.make s).2) := by
  have hcount : ¬ 0 < p.count := by simp [h.count_eq, hcs]
  simp only [acquire, take?, if_neg hcount]
  rcases kind.make s with ⟨made | c, s'⟩ <;> rfl

theorem sound_acquire (h : p.Sound) (s : σ) : (p.acquire kind s).2.1.Sound := by
  cases hcs : p.contexts with
  | nil => rwa [acquire_of_nil h hcs]
  | cons c rest =>
    rw [acquire_of_cons h hcs]
    have hle := h.le_capacity
    rw [hcs, List.length_cons] at hle
    exact ⟨rfl, by simpa using (by omega : rest.length ≤ p.capacity)⟩

theorem capacity_acquire (h : p.Sound) (s : σ) :
    (p.acquire kind s).2.1.capacity = p.capacity := by
  cases hcs : p.contexts with
  | nil => rw [acquire_of_nil h hcs]
  | cons c rest => rw [acquire_of_cons h hcs]

/-- Where no context can be had, the pool stays as it is. -/
theorem acquire_of_error (h : p.Sound) {s : σ} {e : ε} (he : (p.acquire kind s).1 = .error e) :
    (p.acquire kind s).2.1 = p := by
  cases hcs : p.contexts with
  | nil => rw [acquire_of_nil h hcs]
  | cons c rest =>
    rw [acquire_of_cons h hcs] at he
    cases he

/-! ## Giving back -/

/-- Whether there is room is decided by the contexts. -/
theorem keep_eq (h : p.Sound) (c : γ) :
    p.keep c = if p.contexts.length < p.capacity then
      { p with contexts := p.contexts ++ [c], count := p.contexts.length + 1 } else p := by
  simp only [keep, h.count_eq, List.length_append, List.length_singleton]
  split <;> rfl

theorem sound_keep (h : p.Sound) (c : γ) : (p.keep c).Sound := by
  rw [keep_eq h]
  split
  · next hroom =>
    exact ⟨by simp, by simpa using (by omega : p.contexts.length + 1 ≤ p.capacity)⟩
  · exact h

theorem capacity_keep (h : p.Sound) (c : γ) : (p.keep c).capacity = p.capacity := by
  rw [keep_eq h]
  split <;> rfl

/-- What the pool holds after a context was given back: it as well, wiped, if wiping went well and
    there was room, and else what it held. -/
theorem contexts_release (h : p.Sound) (c : γ) (s : σ) :
    (p.release kind c s).1.contexts =
      if p.contexts.length < p.capacity then p.contexts ++ (kind.wipe c s).1.toList
      else p.contexts := by
  unfold release
  rcases kind.wipe c s with ⟨wiped | c', s'⟩
  · simp
  · simp only [keep_eq h]
    split <;> simp

theorem sound_release (h : p.Sound) (c : γ) (s : σ) : (p.release kind c s).1.Sound := by
  unfold release
  rcases kind.wipe c s with ⟨wiped | c', s'⟩
  · exact h
  · exact sound_keep h c'

theorem capacity_release (h : p.Sound) (c : γ) (s : σ) :
    (p.release kind c s).1.capacity = p.capacity := by
  unfold release
  rcases kind.wipe c s with ⟨wiped | c', s'⟩
  · rfl
  · exact capacity_keep h c'

theorem world_release (c : γ) (s : σ) : (p.release kind c s).2 = (kind.wipe c s).2 := by
  unfold release
  rcases kind.wipe c s with ⟨wiped | c', s'⟩ <;> rfl

/-! ## Starting -/

theorem length_of_makeMany (count : Nat) {s s' : σ} {cs : List γ}
    (h : Pool.makeMany kind count s = (.ok cs, s')) : cs.length = count := by
  induction count generalizing s cs s' with
  | zero =>
    cases h
    rfl
  | succ count ih =>
    unfold Pool.makeMany at h
    rcases hmake : kind.make s with ⟨made | c, s₁⟩
    · simp [hmake] at h
    · rcases hrest : Pool.makeMany kind count s₁ with ⟨rest | cs', s₂⟩
      · simp [hmake, hrest] at h
      · simp only [hmake, hrest, Prod.mk.injEq, Except.ok.injEq] at h
        rw [← h.1, List.length_cons, ih hrest]

theorem sound_create {capacity : Nat} {s s' : σ} (h : create kind capacity s = (.ok p, s')) :
    p.Sound ∧ p.capacity = capacity := by
  unfold create at h
  rcases hmany : Pool.makeMany kind capacity s with ⟨made | cs, s₁⟩
  · simp [hmany] at h
  · simp only [hmany, Prod.mk.injEq, Except.ok.injEq] at h
    obtain ⟨rfl, -⟩ := h
    exact ⟨⟨rfl, Nat.le_of_eq (length_of_makeMany capacity hmany)⟩, rfl⟩

/-! ## The pool without its count -/

theorem create_toPool (capacity : Nat) (s : σ) :
    Pool.create kind capacity s =
      ((create kind capacity s).1.map toPool, (create kind capacity s).2) := by
  unfold Pool.create create
  rcases Pool.makeMany kind capacity s with ⟨made | cs, s'⟩ <;> rfl

theorem acquire_toPool (h : p.Sound) (s : σ) :
    p.toPool.acquire kind s =
      ((p.acquire kind s).1.map fun c => (c, (p.acquire kind s).2.1.toPool),
        (p.acquire kind s).2.2) := by
  cases hcs : p.contexts with
  | nil =>
    rw [acquire_of_nil h hcs]
    simp only [Pool.acquire, Pool.take?, toPool, hcs]
    rcases kind.make s with ⟨made | c, s'⟩ <;> rfl
  | cons c rest =>
    rw [acquire_of_cons h hcs]
    simp only [Pool.acquire, Pool.take?, toPool, hcs, Except.map]

theorem release_toPool (h : p.Sound) (c : γ) (s : σ) :
    p.toPool.release kind c s = ((p.release kind c s).1.toPool, (p.release kind c s).2) := by
  unfold Pool.release release
  rcases kind.wipe c s with ⟨wiped | c', s'⟩
  · rfl
  · by_cases hroom : p.contexts.length < p.capacity <;>
      simp [keep_eq h, Pool.keep, toPool, hroom]

end CountedPool

end ScriptedViews

import Mathlib.Data.List.InsertIdx
import Mathlib.Data.List.Perm.Basic
import Mathlib.Data.List.Range
import ScriptedViews.Proofs.Pool.Counted

set_option autoImplicit false

/-! # Lending contexts

Holders of contexts ask a pool for them, use them, and give them back in any order, and they give
the pool contexts of their own. What has become of every context after that is told by a history:
contexts are numbered in the order in which they are made, whatever they are, and the history keeps
the numbers of those that were put among the idle ones, handed out from there, lent and thrown
away. The numbers travel with the contexts, so the pool itself decides where each number goes. -/

namespace ScriptedViews

variable {σ γ ε : Type}

/-! ## Holders -/

/-- What is done next with a pool and the contexts on loan from it. -/
inductive Deal (σ γ : Type) where
  /-- Ask for a context. -/
  | acquire
  /-- Do something with the context of a guard. -/
  | use (guard : Nat) (f : γ → σ → γ × σ)
  /-- Drop a guard, which gives its context back. -/
  | drop (guard : Nat)
  /-- Give the pool a context that it did not lend. -/
  | release (make : σ → γ × σ)

/-- A pool, the contexts of the guards that were not dropped yet, and the world. -/
structure Lending (σ γ : Type) where
  pool : CountedPool γ
  guards : List γ
  world : σ

namespace Lending

/-- A new pool that has lent nothing. -/
def open? (kind : ContextKind σ γ ε) (capacity : Nat) (s : σ) : Option (Lending σ γ) :=
  match CountedPool.create kind capacity s with
  | (.ok pool, world) => some { pool, guards := [], world }
  | (.error _, _) => none

/-- What a deal leaves. A guard that is not there is neither used nor dropped. -/
def deal (kind : ContextKind σ γ ε) (l : Lending σ γ) : Deal σ γ → Lending σ γ
  | .acquire =>
    match l.pool.acquire kind l.world with
    | (.ok c, pool, world) => { pool, guards := l.guards ++ [c], world }
    | (.error _, pool, world) => { l with pool, world }
  | .use guard f =>
    match l.guards[guard]? with
    | some c =>
      let (c, world) := f c l.world
      { l with guards := l.guards.set guard c, world }
    | none => l
  | .drop guard =>
    match l.guards[guard]? with
    | some c =>
      let (pool, world) := l.pool.release kind c l.world
      { pool, guards := l.guards.eraseIdx guard, world }
    | none => l
  | .release make =>
    let (c, world) := make l.world
    let (pool, world) := l.pool.release kind c world
    { l with pool, world }

end Lending

/-! ## Numbered contexts -/

/-- A context and which one it is. -/
structure Numbered (γ : Type) where
  number : Nat
  context : γ

/-- What becomes of a context in someone's hands. -/
inductive Event where
  | used
  | wiped (ok : Bool)

/-- A world, how many contexts were made in it, how often one was asked for, and what became of
    which context, the last event first. -/
structure Book (σ : Type) where
  world : σ
  made : Nat := 0
  asked : Nat := 0
  log : List (Nat × Event) := []

/-- The same contexts, numbered in the order in which they are made. -/
def ContextKind.numbered (kind : ContextKind σ γ ε) : ContextKind (Book σ) (Numbered γ) ε where
  make b :=
    match kind.make b.world with
    | (.error e, world) => (.error e, { b with world, asked := b.asked + 1 })
    | (.ok c, world) =>
      (.ok ⟨b.made, c⟩, { b with world, made := b.made + 1, asked := b.asked + 1 })
  wipe c b :=
    match kind.wipe c.context b.world with
    | (some x, world) =>
      (some ⟨c.number, x⟩, { b with world, log := (c.number, .wiped true) :: b.log })
    | (none, world) => (none, { b with world, log := (c.number, .wiped false) :: b.log })

section Numbering

variable {kind : ContextKind σ γ ε} {b : Book σ} {s : σ}

theorem numbered_make_of_ok {x : γ} (h : kind.make b.world = (.ok x, s)) :
    kind.numbered.make b =
      (.ok ⟨b.made, x⟩, { b with world := s, made := b.made + 1, asked := b.asked + 1 }) := by
  simp only [ContextKind.numbered, h]

theorem numbered_make_of_error {e : ε} (h : kind.make b.world = (.error e, s)) :
    kind.numbered.make b = (.error e, { b with world := s, asked := b.asked + 1 }) := by
  simp only [ContextKind.numbered, h]

theorem numbered_wipe_of_some {c : Numbered γ} {x : γ}
    (h : kind.wipe c.context b.world = (some x, s)) :
    kind.numbered.wipe c b = (some ⟨c.number, x⟩,
      { b with world := s, log := (c.number, .wiped true) :: b.log }) := by
  simp only [ContextKind.numbered, h]

theorem numbered_wipe_of_none {c : Numbered γ} (h : kind.wipe c.context b.world = (none, s)) :
    kind.numbered.wipe c b =
      (none, { b with world := s, log := (c.number, .wiped false) :: b.log }) := by
  simp only [ContextKind.numbered, h]

end Numbering

/-- The same deal with numbered contexts. -/
def Deal.numbered : Deal σ γ → Deal (Book σ) (Numbered γ)
  | .acquire => .acquire
  | .use guard f => .use guard fun c b =>
    (⟨c.number, (f c.context b.world).1⟩,
      { b with world := (f c.context b.world).2, log := (c.number, .used) :: b.log })
  | .drop guard => .drop guard
  | .release make => .release fun b =>
    (⟨b.made, (make b.world).1⟩, { b with world := (make b.world).2, made := b.made + 1 })

/-- A pool of numbered contexts without the numbers. -/
def CountedPool.plain (p : CountedPool (Numbered γ)) : CountedPool γ :=
  { p with contexts := p.contexts.map Numbered.context }

/-- A pool of numbered contexts and those on loan from it, without the numbers. -/
def Lending.plain (l : Lending (Book σ) (Numbered γ)) : Lending σ γ :=
  ⟨l.pool.plain, l.guards.map Numbered.context, l.world.world⟩

/-! ## Histories -/

/-- A pool, what is on loan from it, and what became of every context so far, by its number. -/
structure History (σ γ : Type) where
  now : Lending (Book σ) (Numbered γ)
  /-- The contexts that were put among the idle ones, in that order. -/
  put : List Nat
  /-- The contexts that were among the idle ones and were handed out, in that order. -/
  handed : List Nat := []
  /-- The contexts that were lent to someone. -/
  lent : List Nat := []
  /-- The contexts that were given back and not kept. -/
  discarded : List Nat := []

namespace History

/-- The numbers of the idle contexts, the one that was put back first at the front. -/
def idle (h : History σ γ) : List Nat := h.now.pool.contexts.map Numbered.number

/-- The numbers of the contexts on loan. -/
def onLoan (h : History σ γ) : List Nat := h.now.guards.map Numbered.number

/-- The history of a new pool. Its contexts count as put back in the order in which they were
    made. -/
def open? (kind : ContextKind σ γ ε) (capacity : Nat) (s : σ) : Option (History σ γ) :=
  (Lending.open? kind.numbered capacity { world := s }).map fun now =>
    { now, put := now.pool.contexts.map Numbered.number }

/-- Context `n` was given back, which leaves `now`: it was kept if there is one more idle context
    than before. -/
def returned (h : History σ γ) (now : Lending (Book σ) (Numbered γ)) (n : Nat) : History σ γ :=
  if now.pool.contexts.length = h.now.pool.contexts.length + 1 then
    { h with now, put := h.put ++ [n] }
  else { h with now, discarded := h.discarded ++ [n] }

/-- How a deal goes on with a history. What was lent is the guard that is new, and it was handed
    out from the idle contexts if none was asked for. -/
def deal (kind : ContextKind σ γ ε) (h : History σ γ) (d : Deal σ γ) : History σ γ :=
  let now := h.now.deal kind.numbered d.numbered
  match d with
  | .acquire =>
    match now.guards.drop h.now.guards.length with
    | c :: _ =>
      { h with
        now
        lent := h.lent ++ [c.number]
        handed := if now.world.asked = h.now.world.asked then h.handed ++ [c.number] else h.handed }
    | [] => { h with now }
  | .use _ _ => { h with now }
  | .drop guard =>
    match h.now.guards[guard]? with
    | some c => h.returned now c.number
    | none => { h with now }
  | .release _ => h.returned now h.now.world.made

/-- What holds at every moment of a pool's life. -/
structure WellKept (capacity : Nat) (h : History σ γ) : Prop where
  capacity_eq : h.now.pool.capacity = capacity
  /-- The count is right. -/
  len_eq : h.now.pool.len = h.idle.length
  /-- There are never more idle contexts than the capacity. -/
  len_le : h.now.pool.len ≤ capacity
  /-- Every context that was made is in one place, once: idle, on loan, or thrown away. -/
  places : (h.idle ++ h.onLoan ++ h.discarded).Perm (List.range h.now.world.made)
  /-- An idle context was never lent, or the last thing that became of it is that it was wiped. -/
  clean : ∀ n ∈ h.idle,
    n ∉ h.lent ∧ h.now.world.log.lookup n = none ∨
      h.now.world.log.lookup n = some (.wiped true)
  /-- Idle contexts are handed out in the order in which they were put back, and those of the
      start first. -/
  order : h.put = h.handed ++ h.idle
  seeds : List.range capacity <+: h.put

/-- What the next deal does. -/
structure GoesOn (kind : ContextKind σ γ ε) (capacity : Nat) (h : History σ γ) : Prop where
  /-- A new context is made just when none is idle. -/
  asks : (h.deal kind .acquire).now.world.asked =
    h.now.world.asked + if h.idle = [] then 1 else 0
  /-- Where no context can be had, the pool stays as it is. -/
  fails : ∀ e, (h.now.pool.acquire kind.numbered h.now.world).1 = .error e →
    (h.deal kind .acquire).now.pool = h.now.pool
  /-- The context of a dropped guard is thrown away just when it cannot be wiped or the pool is
      full. -/
  drops : ∀ guard c, h.now.guards[guard]? = some c →
    (h.deal kind (.drop guard)).discarded = h.discarded ++
      if (kind.wipe c.context h.now.world.world).1.isNone ∨ h.idle.length = capacity
        then [c.number] else []
  /-- And so is one that the pool did not lend. -/
  releases : ∀ make c s, make h.now.world.world = (c, s) →
    (h.deal kind (.release make)).discarded = h.discarded ++
      if (kind.wipe c s).1.isNone ∨ h.idle.length = capacity then [h.now.world.made] else []

end History

variable {kind : ContextKind σ γ ε} {capacity : Nat}

/-! ## Numbers change nothing -/

theorem makeMany_plain (count : Nat) (b : Book σ) :
    Pool.makeMany kind count b.world =
      ((Pool.makeMany kind.numbered count b).1.map (List.map Numbered.context),
        (Pool.makeMany kind.numbered count b).2.world) := by
  induction count generalizing b with
  | zero => rfl
  | succ count ih =>
    rcases hmake : kind.make b.world with ⟨made | x, s⟩
    · simp only [Pool.makeMany, hmake, numbered_make_of_error hmake, Except.map]
    · simp only [Pool.makeMany, hmake, numbered_make_of_ok hmake]
      have hrest := ih { b with world := s, made := b.made + 1, asked := b.asked + 1 }
      simp only at hrest
      rw [hrest]
      rcases Pool.makeMany kind.numbered count _ with ⟨rest | cs, b'⟩ <;> rfl

theorem Lending.open?_plain (s : σ) :
    Lending.open? kind capacity s =
      (Lending.open? kind.numbered capacity { world := s }).map Lending.plain := by
  unfold Lending.open? CountedPool.create
  rw [makeMany_plain capacity { world := s }]
  rcases Pool.makeMany kind.numbered capacity { world := s } with ⟨made | cs, b⟩
  · rfl
  · simp [Except.map, Lending.plain, CountedPool.plain]

namespace CountedPool

theorem take?_plain (p : CountedPool (Numbered γ)) :
    p.plain.take? = p.take?.map fun r => (r.1.context, r.2.plain) := by
  unfold take? plain
  cases p.contexts <;> by_cases hcount : 0 < p.count <;> simp [hcount]

theorem acquire_plain (p : CountedPool (Numbered γ)) (b : Book σ) :
    p.plain.acquire kind b.world =
      ((p.acquire kind.numbered b).1.map Numbered.context,
        (p.acquire kind.numbered b).2.1.plain, (p.acquire kind.numbered b).2.2.world) := by
  unfold acquire
  rw [take?_plain]
  cases p.take? with
  | some r => rfl
  | none =>
    rcases hmake : kind.make b.world with ⟨made | x, s⟩
    · simp only [Option.map_none, numbered_make_of_error hmake, Except.map]
    · simp only [Option.map_none, numbered_make_of_ok hmake, Except.map]

theorem keep_plain (p : CountedPool (Numbered γ)) (c : Numbered γ) :
    p.plain.keep c.context = (p.keep c).plain := by
  unfold keep plain
  by_cases hcount : p.count < p.capacity <;>
    by_cases hroom : p.contexts.length < p.capacity <;> simp [hcount, hroom]

theorem release_plain (p : CountedPool (Numbered γ)) (c : Numbered γ) (b : Book σ) :
    p.plain.release kind c.context b.world =
      ((p.release kind.numbered c b).1.plain, (p.release kind.numbered c b).2.world) := by
  unfold release
  rcases hwipe : kind.wipe c.context b.world with ⟨wiped | x, s⟩
  · simp only [numbered_wipe_of_none hwipe]
  · simp only [numbered_wipe_of_some hwipe, ← keep_plain]

end CountedPool

theorem Lending.deal_plain (l : Lending (Book σ) (Numbered γ)) (d : Deal σ γ) :
    (l.deal kind.numbered d.numbered).plain = l.plain.deal kind d := by
  cases d with
  | acquire =>
    simp only [Lending.deal, Deal.numbered, Lending.plain, CountedPool.acquire_plain]
    rcases l.pool.acquire kind.numbered l.world with ⟨taken | c, pool, world⟩
    · rfl
    · simp [Except.map]
  | use guard f =>
    simp only [Lending.deal, Deal.numbered, Lending.plain, List.getElem?_map]
    cases l.guards[guard]? with
    | none => rfl
    | some c => simp [List.map_set]
  | drop guard =>
    simp only [Lending.deal, Deal.numbered, Lending.plain, List.getElem?_map]
    cases l.guards[guard]? with
    | none => rfl
    | some c => simp [CountedPool.release_plain, List.eraseIdx_map]
  | release make =>
    simp only [Lending.deal, Deal.numbered, Lending.plain]
    have h : l.pool.plain.release kind _ _ = _ := CountedPool.release_plain l.pool
      ⟨l.world.made, (make l.world.world).1⟩
      { l.world with world := (make l.world.world).2, made := l.world.made + 1 }
    simp only at h
    rw [h]

/-! ## The start -/

theorem makeMany_numbered (count : Nat) {b b' : Book σ} {cs : List (Numbered γ)}
    (h : Pool.makeMany kind.numbered count b = (.ok cs, b')) :
    cs.map Numbered.number = List.range' b.made count ∧ b'.made = b.made + count ∧
      b'.log = b.log := by
  induction count generalizing b cs b' with
  | zero =>
    cases h
    exact ⟨rfl, rfl, rfl⟩
  | succ count ih =>
    unfold Pool.makeMany at h
    rcases hmake : kind.make b.world with ⟨made | x, s⟩
    · simp [numbered_make_of_error hmake] at h
    · simp only [numbered_make_of_ok hmake] at h
      rcases hrest : Pool.makeMany kind.numbered count
        { b with world := s, made := b.made + 1, asked := b.asked + 1 } with ⟨rest | cs', b₂⟩
      · simp [hrest] at h
      · simp only [hrest, Prod.mk.injEq, Except.ok.injEq] at h
        obtain ⟨rfl, rfl⟩ := h
        obtain ⟨hnumbers, hmade, hlog⟩ := ih hrest
        refine ⟨?_, ?_, hlog⟩
        · rw [List.map_cons, hnumbers, List.range'_succ]
        · simp only [hmade]
          omega

namespace History

variable {h : History σ γ}

theorem WellKept.sound (hk : h.WellKept capacity) : h.now.pool.Sound where
  count_eq := hk.len_eq.trans (by simp [idle])
  le_capacity := by
    have hlen := hk.len_eq ▸ hk.len_le
    simpa [idle, hk.capacity_eq] using hlen

theorem wellKept_open {s : σ} (hopen : open? kind capacity s = some h) :
    h.WellKept capacity := by
  unfold open? Lending.open? at hopen
  rcases hcreate : CountedPool.create kind.numbered capacity { world := s } with ⟨made | pool, b⟩
  · simp [hcreate] at hopen
  · simp only [hcreate, Option.map_some, Option.some.injEq] at hopen
    subst hopen
    obtain ⟨hsound, hcapacity⟩ := CountedPool.sound_create hcreate
    unfold CountedPool.create at hcreate
    rcases hmany : Pool.makeMany kind.numbered capacity { world := s } with ⟨made | cs, b'⟩
    · simp [hmany] at hcreate
    · simp only [hmany, Prod.mk.injEq, Except.ok.injEq] at hcreate
      obtain ⟨rfl, rfl⟩ := hcreate
      obtain ⟨hnumbers, hmade, hlog⟩ := makeMany_numbered capacity hmany
      have hrange : cs.map Numbered.number = List.range capacity := by
        rw [hnumbers, List.range_eq_range']
      exact {
        capacity_eq := rfl
        len_eq := by simp [CountedPool.len, idle]
        len_le := hsound.count_eq.le.trans hsound.le_capacity
        places := by simp [idle, onLoan, hrange, hmade]
        clean := fun n _ => .inl ⟨by simp, by simp [hlog]⟩
        order := by simp [idle]
        seeds := by simp [hrange] }

/-! ## Giving a context back -/

/-- What is idle after a context was given back. -/
theorem numbers_release {p : CountedPool (Numbered γ)} (hp : p.Sound) (c : Numbered γ)
    (b : Book σ) :
    (p.release kind.numbered c b).1.contexts.map Numbered.number =
      p.contexts.map Numbered.number ++
        if (kind.wipe c.context b.world).1.isNone ∨ p.contexts.length = p.capacity then []
        else [c.number] := by
  rw [CountedPool.contexts_release hp]
  have hle := hp.le_capacity
  rcases hwipe : kind.wipe c.context b.world with ⟨wiped | x, s⟩
  · simp [numbered_wipe_of_none hwipe]
  · by_cases hroom : p.contexts.length < p.capacity
    · simp [numbered_wipe_of_some hwipe, hroom, hroom.ne]
    · simp [(by omega : p.contexts.length = p.capacity)]

/-- What the book says after a context was given back. -/
theorem world_release {p : CountedPool (Numbered γ)} (c : Numbered γ) (b : Book σ) :
    (p.release kind.numbered c b).2 =
      { b with
        world := (kind.wipe c.context b.world).2
        log := (c.number, .wiped (kind.wipe c.context b.world).1.isSome) :: b.log } := by
  rw [CountedPool.world_release]
  rcases hwipe : kind.wipe c.context b.world with ⟨wiped | x, s⟩
  · simp [numbered_wipe_of_none hwipe]
  · simp [numbered_wipe_of_some hwipe]

/-- Giving back throws a context away just when it cannot be wiped or the pool is full. -/
theorem discarded_returned (hk : h.WellKept capacity) {guards : List (Numbered γ)}
    (c : Numbered γ) (b : Book σ) :
    (h.returned ⟨(h.now.pool.release kind.numbered c b).1, guards,
        (h.now.pool.release kind.numbered c b).2⟩ c.number).discarded =
      h.discarded ++ if (kind.wipe c.context b.world).1.isNone ∨ h.idle.length = capacity
        then [c.number] else [] := by
  have hreleased : (h.now.pool.release kind.numbered c b).1.contexts.map Numbered.number = _ :=
    numbers_release hk.sound c b
  have hnumbers := congrArg List.length hreleased
  simp only [List.length_map, List.length_append, hk.capacity_eq] at hnumbers
  simp only [returned, idle, List.length_map]
  by_cases hgone : (kind.wipe c.context b.world).1.isNone ∨
    h.now.pool.contexts.length = capacity
  · simp only [if_pos hgone, List.length_nil] at hnumbers ⊢
    rw [if_neg (by omega)]
  · simp only [if_neg hgone, List.length_singleton] at hnumbers ⊢
    simp [hnumbers]

/-- A context that is in nobody's hands but its holder's was given back. -/
theorem wellKept_returned (hk : h.WellKept capacity) {guards : List (Numbered γ)} (c : Numbered γ)
    (b : Book σ)
    (hplaces : (h.idle ++ (c.number :: guards.map Numbered.number) ++ h.discarded).Perm
      (List.range b.made))
    (hlog : b.log = h.now.world.log) :
    (h.returned ⟨(h.now.pool.release kind.numbered c b).1, guards,
      (h.now.pool.release kind.numbered c b).2⟩ c.number).WellKept capacity := by
  have hnumbers : (h.now.pool.release kind.numbered c b).1.contexts.map Numbered.number = _ :=
    numbers_release hk.sound c b
  have hworld : (h.now.pool.release kind.numbered c b).2 = _ := world_release c b
  have hsound : (h.now.pool.release kind.numbered c b).1.Sound :=
    CountedPool.sound_release hk.sound c b
  have hcapacity : (h.now.pool.release kind.numbered c b).1.capacity = capacity :=
    (CountedPool.capacity_release hk.sound c b).trans hk.capacity_eq
  generalize h.now.pool.release kind.numbered c b = after at *
  obtain ⟨pool, b'⟩ := after
  simp only at hnumbers hworld hsound hcapacity ⊢
  have hlength := congrArg List.length hnumbers
  simp only [List.length_map, List.length_append, hk.capacity_eq] at hlength
  have hlen : pool.len ≤ capacity := hcapacity ▸ hsound.count_eq.le.trans hsound.le_capacity
  -- The context that was given back is not among those that were idle.
  have hclean : ∀ n ∈ h.idle,
      n ∉ h.lent ∧ b'.log.lookup n = none ∨ b'.log.lookup n = some (.wiped true) := by
    intro n hn
    have hne : n ≠ c.number := by
      have hnodup := hplaces.nodup_iff.2 List.nodup_range
      simp only [List.append_assoc, List.cons_append, List.nodup_append, List.mem_cons] at hnodup
      exact hnodup.2.2 _ hn _ (.inl rfl)
    have hlookup : b'.log.lookup n = h.now.world.log.lookup n := by
      simp [hworld, List.lookup_cons, beq_false_of_ne hne, hlog]
    rw [hlookup]
    exact hk.clean n hn
  by_cases hgone : (kind.wipe c.context b.world).1.isNone ∨
    h.now.pool.contexts.length = capacity
  · simp only [hk.capacity_eq, if_pos hgone, List.append_nil, List.length_nil] at hnumbers hlength
    rw [returned, if_neg (by simp only; omega)]
    exact {
      capacity_eq := hcapacity
      len_eq := by simpa [idle, CountedPool.len] using hsound.count_eq
      len_le := hlen
      places := by
        rw [hworld]
        refine List.Perm.trans ?_ hplaces
        simp only [idle, onLoan, hnumbers, List.append_assoc, List.cons_append]
        refine List.Perm.append_left _ ?_
        rw [← List.append_assoc]
        exact List.perm_append_singleton _ _
      clean := by
        simp only [idle, hnumbers]
        exact hclean
      order := by
        simp only [idle, hnumbers]
        exact hk.order
      seeds := hk.seeds }
  · simp only [hk.capacity_eq, if_neg hgone, List.length_singleton] at hnumbers hlength
    rw [returned, if_pos (by simp only; omega)]
    exact {
      capacity_eq := hcapacity
      len_eq := by simpa [idle, CountedPool.len] using hsound.count_eq
      len_le := hlen
      places := by
        rw [hworld]
        refine List.Perm.trans ?_ hplaces
        simp [idle, onLoan, hnumbers]
      clean := by
        intro n hn
        simp only [idle, hnumbers, List.mem_append, List.mem_singleton] at hn
        obtain hn | rfl := hn
        · exact hclean n hn
        · refine .inr ?_
          have hsome : (kind.wipe c.context b.world).1.isSome = true := by
            simpa [Option.isSome_iff_ne_none] using fun heq => hgone (.inl (by simp [heq]))
          simp [hworld, hsome]
      order := by
        simp only [idle, hnumbers, ← List.append_assoc]
        rw [hk.order, idle]
      seeds := hk.seeds.trans (List.prefix_append _ _) }

/-! ## One deal -/

theorem wellKept_acquire (hk : h.WellKept capacity) :
    (h.deal kind .acquire).WellKept capacity := by
  have hplaces := hk.places
  unfold deal Lending.deal Deal.numbered
  cases hcs : h.now.pool.contexts with
  | nil =>
    have hidle : h.idle = [] := by simp [idle, hcs]
    rw [CountedPool.acquire_of_nil hk.sound hcs]
    rcases hmake : kind.make h.now.world.world with ⟨made | x, s⟩
    · rw [numbered_make_of_error hmake]
      simp only [List.drop_length]
      exact { hk with }
    · rw [numbered_make_of_ok hmake]
      simp only [List.drop_left, Nat.succ_ne_self, if_false]
      exact {
        hk with
        places := by
          rw [hidle, List.nil_append] at hplaces
          simp only [idle, hcs, onLoan, List.map_nil, List.nil_append, List.map_append,
            List.map_cons, List.append_assoc, List.singleton_append, List.range_succ]
          refine List.perm_middle.trans ?_
          refine (List.Perm.cons _ hplaces).trans ?_
          exact (List.perm_append_singleton _ _).symm
        clean := by simp [idle, hcs] }
  | cons c rest =>
    have hidle : h.idle = c.number :: rest.map Numbered.number := by simp [idle, hcs]
    rw [CountedPool.acquire_of_cons hk.sound hcs]
    simp only [List.drop_left, if_true]
    have hlen := hk.len_le
    rw [hk.len_eq, hidle, List.length_cons] at hlen
    exact {
      capacity_eq := hk.capacity_eq
      len_eq := by simp [CountedPool.len, idle]
      len_le := by
        simp only [CountedPool.len]
        simp only [List.length_map] at hlen
        omega
      places := by
        refine List.Perm.trans ?_ hplaces
        simp only [idle, onLoan, hcs, List.map_append, List.map_cons, List.map_nil,
          List.append_assoc, List.cons_append, List.nil_append]
        rw [← List.append_assoc]
        refine List.perm_middle.trans ?_
        simp
      clean := by
        intro n hn
        have hnodup := hplaces.nodup_iff.2 List.nodup_range
        rw [hidle] at hnodup
        simp only [List.cons_append, List.nodup_cons, List.mem_append] at hnodup
        have hne : n ≠ c.number := fun heq => hnodup.1 (heq ▸ .inl (.inl hn))
        obtain ⟨hlent, hlog⟩ | hlog := hk.clean n (by rw [hidle]; exact List.mem_cons_of_mem _ hn)
        · exact .inl ⟨by simp [hlent, hne], hlog⟩
        · exact .inr hlog
      order := by
        rw [hk.order, hidle]
        simp [idle]
      seeds := hk.seeds }

theorem wellKept_use (hk : h.WellKept capacity) (guard : Nat) (f : γ → σ → γ × σ) :
    (h.deal kind (.use guard f)).WellKept capacity := by
  cases hc : h.now.guards[guard]? with
  | none =>
    simp only [deal, Lending.deal, Deal.numbered, hc]
    exact { hk with }
  | some c =>
    simp only [deal, Lending.deal, Deal.numbered, hc]
    have honLoan : (h.now.guards.set guard
        ⟨c.number, (f c.context h.now.world.world).1⟩).map Numbered.number = h.onLoan := by
      have hnumber : h.onLoan[guard]? = some c.number := by simp [onLoan, hc]
      obtain ⟨hlt, hget⟩ := List.getElem?_eq_some_iff.1 hnumber
      rw [List.map_set, ← hget]
      exact List.set_getElem_self hlt
    exact {
      hk with
      places := by
        simp only [onLoan, honLoan]
        exact hk.places
      clean := by
        intro n hn
        have hne : n ≠ c.number := by
          have hnodup := hk.places.nodup_iff.2 List.nodup_range
          have hmem : c.number ∈ h.onLoan :=
            List.mem_map_of_mem (List.mem_of_getElem? hc)
          simp only [List.append_assoc, List.nodup_append, List.mem_append] at hnodup
          exact hnodup.2.2 _ hn _ (.inl hmem)
        simp only [List.lookup_cons, beq_false_of_ne hne]
        exact hk.clean n hn }

/-- A guard that was dropped is one that is on loan no more. -/
theorem places_drop (hk : h.WellKept capacity) {guard : Nat} {c : Numbered γ}
    (hc : h.now.guards[guard]? = some c) :
    (h.idle ++ (c.number :: (h.now.guards.eraseIdx guard).map Numbered.number)
      ++ h.discarded).Perm (List.range h.now.world.made) := by
  obtain ⟨hlt, rfl⟩ := List.getElem?_eq_some_iff.1 hc
  refine List.Perm.trans ?_ hk.places
  refine List.Perm.append_right _ (List.Perm.append_left _ ?_)
  exact (List.getElem_cons_eraseIdx_perm hlt).map Numbered.number

/-- A context that the pool did not lend is a new one. -/
theorem places_release (hk : h.WellKept capacity) :
    (h.idle ++ (h.now.world.made :: h.onLoan) ++ h.discarded).Perm
      (List.range (h.now.world.made + 1)) := by
  rw [List.range_succ, List.append_assoc, List.cons_append]
  refine List.perm_middle.trans ?_
  rw [← List.append_assoc]
  exact (hk.places.cons _).trans (List.perm_append_singleton _ _).symm

theorem deal_drop {guard : Nat} {c : Numbered γ} (hc : h.now.guards[guard]? = some c) :
    h.deal kind (.drop guard) =
      h.returned ⟨(h.now.pool.release kind.numbered c h.now.world).1,
        h.now.guards.eraseIdx guard,
        (h.now.pool.release kind.numbered c h.now.world).2⟩ c.number := by
  simp only [deal, Lending.deal, Deal.numbered, hc]

theorem deal_release {make : σ → γ × σ} {x : γ} {s : σ}
    (hmake : make h.now.world.world = (x, s)) :
    h.deal kind (.release make) =
      let b : Book σ := { h.now.world with world := s, made := h.now.world.made + 1 }
      h.returned ⟨(h.now.pool.release kind.numbered ⟨h.now.world.made, x⟩ b).1, h.now.guards,
        (h.now.pool.release kind.numbered ⟨h.now.world.made, x⟩ b).2⟩ h.now.world.made := by
  simp only [deal, Lending.deal, Deal.numbered, hmake]

theorem wellKept_deal (hk : h.WellKept capacity) (d : Deal σ γ) :
    (h.deal kind d).WellKept capacity := by
  cases d with
  | acquire => exact wellKept_acquire hk
  | use guard f => exact wellKept_use hk guard f
  | drop guard =>
    cases hc : h.now.guards[guard]? with
    | none =>
      simp only [deal, Lending.deal, Deal.numbered, hc]
      exact { hk with }
    | some c =>
      rw [deal_drop hc]
      exact wellKept_returned hk c h.now.world (places_drop hk hc) rfl
  | release make =>
    rcases hmake : make h.now.world.world with ⟨x, s⟩
    rw [deal_release hmake]
    exact wellKept_returned hk ⟨h.now.world.made, x⟩ _ (places_release hk) rfl

theorem goesOn (hk : h.WellKept capacity) : h.GoesOn kind capacity where
  asks := by
    unfold deal Lending.deal Deal.numbered
    cases hcs : h.now.pool.contexts with
    | nil =>
      rw [CountedPool.acquire_of_nil hk.sound hcs]
      rcases hmake : kind.make h.now.world.world with ⟨made | x, s⟩
      · simp [numbered_make_of_error hmake, idle, hcs]
      · simp [numbered_make_of_ok hmake, idle, hcs]
    | cons c rest =>
      rw [CountedPool.acquire_of_cons hk.sound hcs]
      simp [idle, hcs]
  fails e he := by
    have hpool := CountedPool.acquire_of_error hk.sound he
    unfold deal Lending.deal Deal.numbered
    rcases hacquire : h.now.pool.acquire kind.numbered h.now.world with ⟨taken | c, pool, b⟩
    · rw [hacquire] at hpool
      simpa using hpool
    · simp [hacquire] at he
  drops guard c hc := by
    rw [deal_drop hc]
    exact discarded_returned hk c h.now.world
  releases make x s hmake := by
    rw [deal_release hmake]
    exact discarded_returned hk ⟨h.now.world.made, x⟩ _

/-! ## A pool's life -/

theorem now_returned (now : Lending (Book σ) (Numbered γ)) (n : Nat) :
    (h.returned now n).now = now := by
  unfold returned
  split <;> rfl

theorem now_deal (d : Deal σ γ) : (h.deal kind d).now = h.now.deal kind.numbered d.numbered := by
  cases d with
  | acquire =>
    simp only [deal]
    split <;> rfl
  | use guard f => rfl
  | drop guard =>
    cases hc : h.now.guards[guard]? with
    | none => simp only [deal, hc]
    | some c => simp only [deal, hc, now_returned]
  | release make => simp only [deal, now_returned]

/-- A history tells what is done with contexts without numbers. -/
theorem plain_foldl (deals : List (Deal σ γ)) (h : History σ γ) :
    (deals.foldl (deal kind) h).now.plain = deals.foldl (Lending.deal kind) h.now.plain := by
  induction deals generalizing h with
  | nil => rfl
  | cons d deals ih => rw [List.foldl_cons, List.foldl_cons, ih, now_deal, Lending.deal_plain]

theorem wellKept_foldl (deals : List (Deal σ γ)) (hk : h.WellKept capacity) :
    (deals.foldl (deal kind) h).WellKept capacity := by
  induction deals generalizing h with
  | nil => exact hk
  | cons d deals ih => exact ih (wellKept_deal hk d)

/-- Whatever is done with a pool and the contexts on loan from it, for contexts of any kind: the
    history tells what happened, it is well kept, and the next deal goes on with it. -/
theorem wellKept_lending (kind : ContextKind σ γ ε) (capacity : Nat) (s : σ) (l : Lending σ γ)
    (hopen : Lending.open? kind capacity s = some l) (deals : List (Deal σ γ)) :
    ∃ start, open? kind capacity s = some start ∧
      (deals.foldl (deal kind) start).now.plain = deals.foldl (Lending.deal kind) l ∧
      (deals.foldl (deal kind) start).WellKept capacity ∧
      (deals.foldl (deal kind) start).GoesOn kind capacity := by
  rw [Lending.open?_plain, Option.map_eq_some_iff] at hopen
  obtain ⟨now, hnow, rfl⟩ := hopen
  have hstart : open? kind capacity s =
      some { now, put := now.pool.contexts.map Numbered.number } := by simp [open?, hnow]
  have hk : (deals.foldl (deal kind) _).WellKept capacity :=
    wellKept_foldl deals (wellKept_open hstart)
  exact ⟨_, hstart, plain_foldl deals _, hk, goesOn hk⟩

/-- Sheets with lines on them. There are three, and a sheet with more than one line cannot be
    wiped. -/
def sheets : ContextKind Nat (List String) String where
  make used := if used < 3 then (.ok [], used + 1) else (.error "no sheet is left", used)
  wipe c used := (if c.length ≤ 1 then some [] else none, used)

/-- What two holders do with sheets: both ask for one, the second writes more than can be wiped, and
    the sheets come back in the order in which they were lent. -/
def twoHolders : List (Deal Nat (List String)) :=
  [.acquire, .acquire, .use 0 fun c used => ("a" :: c, used),
    .use 1 fun c used => ("b" :: "c" :: c, used), .drop 0, .drop 0]

theorem wellKept_twoHolders :
    Lending.open? sheets 1 0 = some ⟨⟨1, [[]], 1⟩, [], 1⟩ ∧
      ∃ start, open? sheets 1 0 = some start ∧
        (twoHolders.foldl (deal sheets) start).now.plain =
          twoHolders.foldl (Lending.deal sheets) ⟨⟨1, [[]], 1⟩, [], 1⟩ ∧
        (twoHolders.foldl (deal sheets) start).WellKept 1 ∧
        (twoHolders.foldl (deal sheets) start).GoesOn sheets 1 :=
  ⟨rfl, wellKept_lending sheets 1 0 ⟨⟨1, [[]], 1⟩, [], 1⟩ rfl twoHolders⟩

/-- The sheet with two lines is thrown away. -/
example : (open? sheets 1 0).map (fun h =>
    let h := twoHolders.foldl (deal sheets) h
    (h.idle, h.onLoan, h.discarded, h.put, h.handed)) =
      some ([0], [], [1], [0, 0], [0]) := by decide

end History

end ScriptedViews

import ScriptedViews.Proofs.Render.Underway

set_option autoImplicit false

/-! # Pools while renders run

Renders take contexts from the pools of engines, have contexts made and give them back. While they
do, a pool and the contexts on loan make up for at least what the pool held before, and the pool
never holds more than its capacity. So a pool that was full is full again when nothing is on loan. -/

namespace ScriptedViews

/-! ## One pool -/

/-- What has become of a pool, and which contexts are on loan, the one that was lent last at the
    front. -/
inductive Pool.Deals (p₀ : Pool Nat) : Pool Nat → List Nat → Prop
  | start : Deals p₀ p₀ []
  | taken {p p' : Pool Nat} {lent : List Nat} {c : Nat} (h : Deals p₀ p lent)
      (hp : p.take? = some (c, p')) : Deals p₀ p' (c :: lent)
  | made {p : Pool Nat} {lent : List Nat} (h : Deals p₀ p lent) (c : Nat) : Deals p₀ p (c :: lent)
  | back {p : Pool Nat} {lent : List Nat} {c : Nat} (h : Deals p₀ p (c :: lent)) :
      Deals p₀ (p.keep c) lent

namespace Pool

variable {p₀ p p' : Pool Nat} {lent : List Nat} {c : Nat}

theorem take?_eq_some_iff : p.take? = some (c, p') ↔
    p.idle = c :: p'.idle ∧ p'.capacity = p.capacity := by
  obtain ⟨capacity, idle⟩ := p
  obtain ⟨capacity', idle'⟩ := p'
  unfold take?
  cases idle with
  | nil => simp
  | cons d rest =>
    simp only [Option.some.injEq, Prod.mk.injEq, mk.injEq, List.cons.injEq]
    constructor
    · rintro ⟨rfl, rfl, rfl⟩
      exact ⟨⟨rfl, rfl⟩, rfl⟩
    · rintro ⟨⟨rfl, rfl⟩, rfl⟩
      exact ⟨rfl, rfl, rfl⟩

theorem capacity_keep (p : Pool Nat) (c : Nat) : (p.keep c).capacity = p.capacity := by
  unfold keep
  split <;> rfl

theorem length_keep (p : Pool Nat) (c : Nat) :
    (p.keep c).idle.length = if p.idle.length < p.capacity then p.idle.length + 1
      else p.idle.length := by
  unfold keep
  split <;> simp

/-- A pool that was full holds no more than its capacity, and with what is on loan no less. -/
theorem Deals.bounds (h : p₀.Deals p lent) (hfull : p₀.idle.length = p₀.capacity) :
    p.capacity = p₀.capacity ∧ p.idle.length ≤ p.capacity
      ∧ p.capacity ≤ p.idle.length + lent.length := by
  induction h with
  | start => exact ⟨rfl, Nat.le_of_eq hfull, Nat.le_of_eq hfull.symm⟩
  | taken h hp ih =>
    obtain ⟨hidle, hcapacity⟩ := take?_eq_some_iff.1 hp
    have hlength := congrArg List.length hidle
    simp only [List.length_cons] at hlength ⊢
    omega
  | made h c ih =>
    simp only [List.length_cons]
    omega
  | @back p lent c h ih =>
    simp only [List.length_cons] at ih
    rw [capacity_keep, length_keep]
    split <;> omega

end Pool

/-! ## The pools of a scene -/

/-- The contexts that renders of an engine have. -/
def lentBy (i : Nat) (L : List Loan) : List Nat :=
  (L.filter fun l => l.engine == i).map Loan.context

/-- Whether the engines of a scene are those of a world, and their pools have become what they are
    by what is on loan. -/
structure Scene.Accounts (w₀ : World) (s : Scene) : Prop where
  size : s.world.engines.size = w₀.engines.size
  engines : ∀ (i : Nat) (e₀ : Engine), w₀.engines[i]? = some e₀ → ∃ e,
    s.world.engines[i]? = some e ∧ e₀.SameBut e ∧ e₀.pool.Deals e.pool (lentBy i s.loans)

section Accounts

variable {runtime : Nat} {makes : Scene → Nat → Prop} {s s' : Scene} {w₀ : World}

theorem lentBy_cons_self (i c : Nat) (L : List Loan) :
    lentBy i (⟨i, c⟩ :: L) = c :: lentBy i L := by
  simp [lentBy]

theorem lentBy_cons_ne {i j : Nat} (h : j ≠ i) (c : Nat) (L : List Loan) :
    lentBy i (⟨j, c⟩ :: L) = lentBy i L := by
  simp [lentBy, h]

theorem Scene.Accounts.of_engines (h : s.Accounts w₀)
    (hengines : s'.world.engines = s.world.engines) (hloans : s'.loans = s.loans) :
    s'.Accounts w₀ := by
  obtain ⟨hsize, hall⟩ := h
  rw [← hengines, ← hloans] at *
  exact ⟨hsize, hall⟩

/-- The pool of one engine is changed. -/
theorem Scene.Accounts.modifyPool {L L' : List Loan} {h h' : BridgeHeap} {w : World}
    (ha : Scene.Accounts w₀ ⟨L, h, w⟩) (i : Nat) {f : Engine → Pool Nat}
    (hself : ∀ (e : Engine) (p₀ : Pool Nat), w.engines[i]? = some e →
      p₀.Deals e.pool (lentBy i L) →
      p₀.Deals (f e) (lentBy i L'))
    (hother : ∀ j, j ≠ i → lentBy j L' = lentBy j L) :
    Scene.Accounts w₀ ⟨L', h', w.modifyEngine i fun e => { e with pool := f e }⟩ := by
  refine ⟨(World.size_modifyEngine _ _ _).trans ha.size, fun j e₀ he₀ => ?_⟩
  obtain ⟨e, he, hsame, hdeals⟩ := ha.engines j e₀ he₀
  simp only at he hdeals
  rw [World.getElem?_modifyEngine, he]
  by_cases hij : i = j
  · subst hij
    rw [if_pos rfl]
    exact ⟨_, rfl, ⟨hsame.config, hsame.loader, hsame.validator, hsame.runtime, hsame.isHeld⟩,
      hself e _ he hdeals⟩
  · rw [if_neg hij, hother j (Ne.symm hij)]
    exact ⟨e, rfl, hsame, hdeals⟩

theorem Deed.accounts (hd : Deed runtime makes s s') (h : s.Accounts w₀) : s'.Accounts w₀ := by
  cases hd with
  | @taken L heap w i c e pool he hr hp =>
    refine h.modifyPool i (fun e' p₀ he' hdeals => ?_) fun j hj => lentBy_cons_ne hj.symm c L
    cases he'.symm.trans he
    rw [lentBy_cons_self]
    exact .taken hdeals hp
  | @made s i c e he hr hm =>
    refine ⟨h.size, fun j e₀ he₀ => ?_⟩
    obtain ⟨e', he', hsame, hdeals⟩ := h.engines j e₀ he₀
    refine ⟨e', he', hsame, ?_⟩
    by_cases hij : i = j
    · subst hij
      rw [lentBy_cons_self]
      exact .made hdeals c
    · rw [lentBy_cons_ne hij]
      exact hdeals
  | @back L heap w i c =>
    refine h.modifyPool i (fun e' p₀ he' hdeals => ?_) fun j hj => (lentBy_cons_ne hj.symm c L).symm
    rw [lentBy_cons_self] at hdeals
    exact .back hdeals
  | loaded hl =>
    obtain ⟨hsize, hengines⟩ := World.engines_load hl
    refine ⟨hsize.trans h.size, fun j e₀ he₀ => ?_⟩
    obtain ⟨e, he, hsame, hdeals⟩ := h.engines j e₀ he₀
    obtain ⟨e', he', hsame', hpool⟩ := hengines j e he
    refine ⟨e', he', hsame.trans hsame', ?_⟩
    rw [hpool]
    exact hdeals
  | _ => exact h.of_engines rfl rfl

/-- All that renders do is accounted for. -/
theorem Deeds.accounts (hd : Deeds runtime makes s s') (h : s.Accounts w₀) : s'.Accounts w₀ := by
  induction hd with
  | refl => exact h
  | tail _ hd ih => exact hd.accounts ih

theorem accounts_start (h : BridgeHeap) (w : World) : Scene.Accounts w ⟨[], h, w⟩ :=
  ⟨rfl, fun _ e he => ⟨e, he, e.sameBut_refl, .start⟩⟩

end Accounts

end ScriptedViews

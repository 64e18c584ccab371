import Mathlib.Data.List.Perm.Subperm
import ScriptedViews.Proofs.Render.Ledger

set_option autoImplicit false

/-! # Contexts apart

As long as every context that gets made is a new one, no two renders have the same context, and no
context is both idle and on loan: all contexts of the engines that use a runtime, idle and on loan,
are different tables of its heap. -/

namespace ScriptedViews

/-! ## Idle contexts -/

/-- The idle contexts of an engine, if it uses a runtime. -/
def Engine.idleOn (runtime : Nat) (e : Engine) : List Nat :=
  if e.runtime = runtime then e.pool.idle else []

/-- The idle contexts of the engines that use a runtime. -/
def World.idle (w : World) (runtime : Nat) : List Nat :=
  w.engines.toList.flatMap (Engine.idleOn runtime)

namespace World

variable {w w' : World} {i runtime : Nat} {f : Engine → Engine}

/-- The idle contexts of one engine stand among those of the others. -/
theorem exists_idle {e : Engine} (he : w.engines[i]? = some e) (f : Engine → Engine)
    (runtime : Nat) : ∃ l₁ l₂, w.idle runtime = l₁ ++ e.idleOn runtime ++ l₂
      ∧ (w.modifyEngine i f).idle runtime = l₁ ++ (f e).idleOn runtime ++ l₂ := by
  obtain ⟨hlt, rfl⟩ := Array.getElem?_eq_some_iff.1 he
  obtain ⟨l₁, e, l₂, hl, rfl, hmodify⟩ :=
    List.exists_of_modify f (i := i) (l := w.engines.toList) (by simpa using hlt)
  have hself : w.engines[l₁.length] = e := by
    rw [← Array.getElem_toList, List.getElem_of_eq hl]
    simp
  refine ⟨l₁.flatMap (Engine.idleOn runtime), l₂.flatMap (Engine.idleOn runtime), ?_, ?_⟩
  · rw [idle, hl, hself]
    simp
  · rw [idle, modifyEngine, Array.toList_modify, hmodify, hself]
    simp

theorem modifyEngine_of_none (he : w.engines[i]? = none) (f : Engine → Engine) :
    w.modifyEngine i f = w := by
  have hmodify : w.engines.modify i f = w.engines := by
    apply Array.ext_getElem?
    intro j
    rw [Array.getElem?_modify]
    split
    · next hij => rw [← hij, he]; rfl
    · rfl
  rw [modifyEngine, hmodify]

theorem idle_modifyEngine (hf : ∀ e, w.engines[i]? = some e →
    (f e).idleOn runtime = e.idleOn runtime) :
    (w.modifyEngine i f).idle runtime = w.idle runtime := by
  cases he : w.engines[i]? with
  | none => rw [modifyEngine_of_none he]
  | some e =>
    obtain ⟨l₁, l₂, hidle, hmodify⟩ := exists_idle he f runtime
    rw [hidle, hmodify, hf e he]

/-- Loading a view leaves idle contexts alone. -/
theorem idle_load {j view : Nat} {uri : String} (hl : w.load j uri = .ok (view, w'))
    (runtime : Nat) : w'.idle runtime = w.idle runtime := by
  obtain ⟨rfl, -⟩ | ⟨e, v, -, -, rfl, rfl⟩ := load_cases hl
  · rfl
  · split
    · exact idle_modifyEngine (w := (w.addView v).2) fun e _ => rfl
    · rfl

end World

/-! ## All contexts of a runtime -/

/-- The contexts of the engines that use a runtime: those on loan and those that are idle. -/
def Scene.contexts (runtime : Nat) (s : Scene) : List Nat :=
  s.loans.map Loan.context ++ s.world.idle runtime

/-- Whether all contexts are different tables. -/
structure Scene.IsApart (runtime : Nat) (s : Scene) : Prop where
  nodup : (s.contexts runtime).Nodup
  lt : ∀ c ∈ s.contexts runtime, c < s.heap.tables.size

/-- Whether a table is none of the contexts there are. -/
structure IsFresh (runtime : Nat) (s : Scene) (c : Nat) : Prop where
  not_mem : c ∉ s.contexts runtime
  lt : c < s.heap.tables.size

variable {runtime : Nat} {makes : Scene → Nat → Prop} {s s' : Scene}

/-- There are fewer contexts on a heap that has grown. -/
theorem Scene.IsApart.of_subperm (h : s.IsApart runtime)
    (hsub : (s'.contexts runtime).Subperm (s.contexts runtime))
    (hsize : s.heap.tables.size ≤ s'.heap.tables.size) : s'.IsApart runtime where
  nodup := by
    obtain ⟨l, hperm, hsublist⟩ := hsub
    exact hperm.nodup_iff.1 (h.nodup.sublist hsublist)
  lt c hc := Nat.lt_of_lt_of_le (h.lt c (hsub.subset hc)) hsize

theorem Scene.IsApart.congr (h : s.IsApart runtime)
    (hcontexts : s'.contexts runtime = s.contexts runtime)
    (hsize : s.heap.tables.size ≤ s'.heap.tables.size) : s'.IsApart runtime :=
  h.of_subperm (hcontexts ▸ .refl _) hsize

theorem Scene.IsApart.cons (h : s.IsApart runtime) {c : Nat} (hc : IsFresh runtime s c)
    (hcontexts : s'.contexts runtime = c :: s.contexts runtime) (hheap : s'.heap = s.heap) :
    s'.IsApart runtime where
  nodup := by
    rw [hcontexts]
    exact List.nodup_cons.2 ⟨hc.not_mem, h.nodup⟩
  lt d hd := by
    rw [hcontexts] at hd
    rw [hheap]
    rcases List.mem_cons.1 hd with rfl | hd
    · exact hc.lt
    · exact h.lt d hd

/-- What an engine keeps changes, and no other context. -/
theorem exists_contexts {w : World} {i : Nat} {e : Engine} (he : w.engines[i]? = some e)
    (hr : e.runtime = runtime) (L : List Loan) (h h' : BridgeHeap) (f : Engine → Pool Nat) :
    ∃ others, ((Scene.mk L h w).contexts runtime).Perm (e.pool.idle ++ others)
      ∧ ((Scene.mk L h' (w.modifyEngine i fun e => { e with pool := f e })).contexts runtime).Perm
        ((f e).idle ++ others) := by
  obtain ⟨l₁, l₂, hidle, hmodify⟩ :=
    World.exists_idle he (fun e => { e with pool := f e }) runtime
  have hmove (a : List Nat) : (L.map Loan.context ++ (l₁ ++ a ++ l₂)).Perm
      (a ++ (L.map Loan.context ++ l₁ ++ l₂)) := by
    rw [← List.append_assoc, ← List.append_assoc, ← List.append_assoc]
    exact List.perm_append_comm.append_right l₂
  simp only [Engine.idleOn, if_pos hr] at hidle hmodify
  exact ⟨L.map Loan.context ++ l₁ ++ l₂, by rw [Scene.contexts, hidle]; exact hmove _,
    by rw [Scene.contexts, hmodify]; exact hmove _⟩

/-- A context that is taken is no longer idle. -/
theorem contexts_taken {L : List Loan} {h : BridgeHeap} {w : World} {i c : Nat} {e : Engine}
    {pool : Pool Nat} (he : w.engines[i]? = some e) (hr : e.runtime = runtime)
    (hp : e.pool.take? = some (c, pool)) :
    ((Scene.mk (⟨i, c⟩ :: L) h (w.modifyEngine i fun e => { e with pool })).contexts runtime).Perm
      ((Scene.mk L h w).contexts runtime) := by
  obtain ⟨others, hbefore, hafter⟩ := exists_contexts he hr L h h fun _ => pool
  rw [(Pool.take?_eq_some_iff.1 hp).1] at hbefore
  exact (hafter.cons c).trans hbefore.symm

/-- A context that is given back is idle, or gone. -/
theorem contexts_back {L : List Loan} {h h' : BridgeHeap} {w : World} {i c : Nat} {e : Engine}
    (he : w.engines[i]? = some e) (hr : e.runtime = runtime) :
    ((Scene.mk L h' (w.modifyEngine i fun e =>
      { e with pool := e.pool.keep c })).contexts runtime).Subperm
      ((Scene.mk (⟨i, c⟩ :: L) h w).contexts runtime) := by
  obtain ⟨others, hbefore, hafter⟩ := exists_contexts he hr L h h' fun e => e.pool.keep c
  unfold Pool.keep at hafter ⊢
  refine hafter.subperm.trans ?_
  split
  · rw [List.append_assoc]
    exact (List.perm_middle.trans (hbefore.symm.cons c)).subperm
  · exact hbefore.symm.subperm.trans (List.sublist_cons_self c _).subperm

theorem Deed.apart (hd : Deed runtime (IsFresh runtime) s s') (hproper : s.IsProper runtime)
    (h : s.IsApart runtime) : s'.IsApart runtime := by
  cases hd with
  | code hg => exact h.of_subperm (.refl _) hg.size_le
  | @taken L heap w i c e pool he hr hp => exact h.of_subperm (contexts_taken he hr hp).subperm (Nat.le_refl _)
  | @made _ i c e he hr hm => exact h.cons hm rfl rfl
  | @bound L heap w b defaults attributes children =>
    obtain ⟨h₁, hg₁, hg₂⟩ := exists_bindVariables heap b.context defaults attributes children b
    exact h.of_subperm (.refl _) (Nat.le_trans hg₁.size_le hg₂.size_le)
  | @back L heap w i c =>
    obtain ⟨e, he, hr⟩ := hproper.loans _ List.mem_cons_self
    exact h.of_subperm (contexts_back he hr) (grows_contextClear heap c).size_le
  | published | compiled | named | wrote => exact h.of_subperm (.refl _) (Nat.le_refl _)
  | loaded hl =>
    refine h.of_subperm ?_ (Nat.le_refl _)
    rw [Scene.contexts, Scene.contexts, World.idle_load hl]

/-- All contexts stay apart if those that get made are new. -/
theorem Deeds.apart (hd : Deeds runtime (IsFresh runtime) s s') (hproper : s.IsProper runtime)
    (h : s.IsApart runtime) : s'.IsApart runtime := by
  induction hd with
  | refl => exact h
  | tail hds hd ih => exact hd.apart (Deeds.proper hds hproper) ih

/-! ## Other runtimes -/

variable {other : Nat}

/-- Renders of engines that use one runtime leave idle contexts of another one alone. -/
theorem Deed.idle_eq (hd : Deed runtime makes s s') (hproper : s.IsProper runtime)
    (hne : other ≠ runtime) : s'.world.idle other = s.world.idle other := by
  cases hd with
  | @taken L heap w i c e pool he hr hp =>
    refine World.idle_modifyEngine fun e' he' => ?_
    cases he'.symm.trans he
    rw [Engine.idleOn, Engine.idleOn, if_neg (by rw [hr]; exact hne.symm),
      if_neg (by rw [hr]; exact hne.symm)]
  | @back L heap w i c =>
    refine World.idle_modifyEngine fun e he => ?_
    have hr : e.runtime = runtime := (hproper.loans _ List.mem_cons_self).runtime_eq he
    rw [Engine.idleOn, Engine.idleOn, if_neg (by rw [hr]; exact hne.symm),
      if_neg (by rw [hr]; exact hne.symm)]
  | loaded hl => exact World.idle_load hl other
  | _ => rfl

theorem Deeds.idle_eq (hd : Deeds runtime makes s s') (hproper : s.IsProper runtime)
    (hne : other ≠ runtime) : s'.world.idle other = s.world.idle other := by
  induction hd with
  | refl => rfl
  | tail hds hd ih => exact (hd.idle_eq (Deeds.proper hds hproper) hne).trans ih

end ScriptedViews

import ScriptedViews.Proofs.Script.Internal.Operators

set_option autoImplicit false

/-! # Calls without the host

Only a method of the host's objects needs the host: functions of the script and of the library are
code that goes on by itself. A call in the place of the running function takes that function off the
stack, and what stands above it belongs to its statements. -/

namespace ScriptedViews.Script

variable {ω σ φ : Type}

theorem Heap.grows_bindParams (ns : List Name) (args : List Value) (vars : List (Name × Nat))
    (h : Heap ω) : h.Grows (Heap.bindParams ns args vars h).2.2 := by
  induction ns generalizing args vars h with
  | nil => exact .refl h
  | cons n ns ih => exact (grows_newCell h _).trans (ih _ _ _)

theorem Frame.isHosts_of_isStatement {f : Frame φ} (hf : f.isStatement = true) :
    f.isHosts = false := by
  cases f <;> first | rfl | cases hf

theorem Frame.isHosts_of_isActivation {f : Frame φ} (hf : f.isActivation = true) :
    f.isHosts = false := by
  cases f <;> first | rfl | cases hf

/-- Above the running function stand its statements, which do not belong to the host. -/
theorem InBody.exists_dropWhile {K : List (Frame φ)} (hK : InBody K) (hs : Shaped K) :
    ∃ site rest, K.dropWhile (fun f => !f.isActivation) = .activation site :: rest
      ∧ hostPart rest = hostPart K ∧ Shaped rest := by
  induction K with
  | nil => exact hK.elim
  | cons f K ih =>
    rw [List.dropWhile_cons]
    rcases hK with hf | ⟨hf, hK⟩
    · obtain ⟨site, rfl⟩ : ∃ site, f = .activation site := by
        cases f <;> first | exact ⟨_, rfl⟩ | cases hf
      exact ⟨site, K, rfl, rfl, hs.2⟩
    · have hactivation : f.isActivation = false := by
        cases f <;> first | rfl | cases hf
      obtain ⟨site, rest, hdrop, hsame, hrest⟩ := ih hK hs.2
      rw [if_pos (by simp [hactivation]), hostPart_of_not (f.isHosts_of_isStatement hf)]
      exact ⟨site, rest, hdrop, hsame, hrest⟩

namespace State.IsOrderly

variable {host : Host ω σ φ} {s : State ω σ φ} (h : s.IsOrderly)

include h

/-! ## Functions of the script -/

theorem callFunction (c : Closure) (args : List Value) (site : Option Site) :
    Internal s (s.callFunction c args site) := by
  unfold State.callFunction
  split
  · exact h.raiseText site _
  · split
    next params isVararg body _ =>
    have hg := Heap.grows_bindParams params args c.vars s.heap
    have hactivation : (Frame.activation site).Fits s.stack := .of_plain _ rfl rfl rfl
    exact ⟨rfl, hg, hostPart_of_not rfl _, ⟨⟨⟨hactivation, h.shaped⟩, hg.distinct h.distinct⟩,
      .of_inBody (.inl rfl) rfl⟩, rfl⟩

/-! ## Functions of the library -/

theorem raiseValue (site : Option Site) (v : Value) (n : Int) :
    Internal s (s.raiseValue site v n) := by
  unfold State.raiseValue
  split
  · exact h.raise _ _
  · exact h.go (.of_plain _ rfl rfl) rfl

theorem callError (a : Arguments) (site : Option Site) : Internal s (s.callError a site) := by
  unfold State.callError
  split
  · exact h.raiseText site _
  · exact h.raiseValue site _ _

theorem callAssert (a : Arguments) (site : Option Site) : Internal s (s.callAssert a site) := by
  unfold State.callAssert
  split
  · split
    · exact h.raiseText site _
    · exact h.giveOne _
  · split
    · exact h.give _
    · exact h.raiseValue site _ _

theorem callGuarded (a : Arguments) (site : Option Site) : Internal s (s.callGuarded a site) := by
  unfold State.callGuarded
  split
  · exact h.raiseText site _
  · exact h.enter rfl (.of_plain _ rfl rfl rfl) (.of_plain _ rfl rfl) rfl

theorem textOf (v : Value) (site : Option Site) : Internal s (s.textOf v site) := by
  unfold State.textOf
  split
  · exact h.giveOne _
  · exact h.callFrom rfl (.of_plain _ rfl rfl rfl) _ _ _

theorem continueFormat (p : Format.Progress) (site : Option Site) :
    Internal s (s.continueFormat p site) := by
  cases p with
  | done bytes => exact h.giveOne _
  | failed reason => exact h.raiseText site _
  | ask v d t =>
    exact .of_push rfl ((h.pushed (.of_plain _ rfl rfl rfl) .finished).textOf v site)

theorem callPairs (a : Arguments) (site : Option Site) : Internal s (s.callPairs a site) := by
  unfold State.callPairs
  split
  · exact h.raiseText site _
  · split
    · exact h.give _
    · exact h.callFrom rfl (.of_plain _ rfl rfl rfl) _ _ _

theorem loadSource (name source : Bytes) (environment : Value) :
    Internal s (s.loadSource name source environment) := by
  unfold State.loadSource
  split
  · next hr => exact h.goWith (Heap.grows_readChunk hr) (.of_plain _ rfl rfl) rfl
  · exact h.give _

theorem callLoad (a : Arguments) (site : Option Site) : Internal s (s.callLoad a site) := by
  unfold State.callLoad
  dsimp only
  split
  · exact h.raiseText site _
  · split
    · split
      · exact h.raiseText site _
      · split
        · exact h.loadSource _ _ _
        · exact h.give _
    · split
      · exact h.raiseText site _
      · split
        · exact h.callFrom rfl (.of_plain _ rfl rfl rfl) _ _ _
        · split
          · exact h.raiseText site _
          · exact h.give _

theorem addPiece (source : Bytes) (reader : Value) (name : Bytes) (environment piece : Value) :
    Internal s (s.addPiece source reader name environment piece) := by
  unfold State.addPiece
  split
  · exact h.loadSource _ _ _
  · split
    · exact h.loadSource _ _ _
    · exact h.callFrom rfl (.of_plain _ rfl rfl rfl) _ _ _
    · exact h.give _

theorem callSort (a : Arguments) (site : Option Site) : Internal s (s.callSort a site) := by
  unfold State.callSort
  split
  · exact h.raiseText site _
  · dsimp only
    split
    · exact h.give _
    · split
      · exact h.go (.of_plain _ rfl rfl) rfl
      · split
        · exact h.go (.of_plain _ rfl rfl) rfl
        · split
          · exact h.raiseText site _
          · exact h.give _

theorem callBuiltin (a : Arguments) (site : Option Site) : Internal s (s.callBuiltin a site) := by
  unfold State.callBuiltin
  split
  · next hr => exact h.goWith (Heap.grows_run? hr) (.of_plain _ rfl rfl) rfl
  · exact h.raiseText site _
  · split
    · exact h.callAssert a site
    · exact h.callError a site
    · exact h.callGuarded a site
    · exact h.callLoad a site
    · exact h.callPairs a site
    · split
      · exact h.raiseText site _
      · exact h.push rfl (.of_plain _ rfl rfl rfl) (.of_plain _ rfl rfl) rfl
    · exact h.continueFormat _ site
    · exact h.callSort a site
    · split
      · exact h.raiseText site _
      · split
        · exact h.give _
        · exact h.textOf _ site

/-! ## Any function -/

theorem invoke {callee : Value} (hcallee : ∀ name, callee ≠ .method name) (args : List Value)
    (site : Option Site) : Internal s (s.invoke host callee args site) := by
  unfold State.invoke
  split
  · split
    · exact h.callFunction _ args site
    · exact h.badOperand _ _ site
  · exact h.callBuiltin _ site
  · next name => exact (hcallee name rfl).elim
  · split
    · exact h.badOperand _ _ site
    · exact h.go (.of_plain _ rfl rfl) rfl

/-- A call in the place of the running function comes without the host, or is one of a method. -/
theorem invokeLast (hb : InBody s.stack) {callee : Value} (hcallee : ∀ name, callee ≠ .method name)
    (args : List Value) (site : Site) : Internal s (s.invokeLast host callee args site) := by
  unfold State.invokeLast
  split
  · obtain ⟨caller, rest, hdrop, hsame, hrest⟩ := hb.exists_dropWhile h.shaped
    rw [hdrop]
    exact ⟨rfl, .refl _, hsame, ⟨⟨hrest, h.distinct⟩, .of_plain _ rfl rfl⟩, rfl⟩
  · exact h.invoke hcallee args _

end State.IsOrderly

end ScriptedViews.Script

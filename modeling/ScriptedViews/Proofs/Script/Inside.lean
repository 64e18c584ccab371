import ScriptedViews.Proofs.Script.Lines
import ScriptedViews.Proofs.Script.Scans

set_option autoImplicit false

/-! # Phrases inside other source

A phrase that takes up all of a piece of source is read from it in the same way when the piece stands
inside other source, right before a sign that goes on with no phrase, or is all of the source. It may
be given another amount of fuel there, and a setting that allows more. One relation tells what
reading a piece on its own and inside other source have to do with each other; it has a rule for each
way in which phrases are put together, and holds of each kind of phrase, by induction on the fuel. -/

namespace ScriptedViews.Script.Grammar

/-! ## What stands around a piece -/

/-- The signs that may stand right after a piece: they go on with no phrase. -/
def closingSigns : List Sign :=
  [.rightParen, .kwIf, .kwEnd]

/-- What stands around a piece of source: so many lines above it, and right after it a sign that goes
    on with no phrase, or the end of the source. -/
structure Surroundings where
  lines : Nat
  /-- The line that the piece ends on. -/
  stop : Nat
  symbol : Symbol
  /-- The line of what stands right after the piece. -/
  line : Nat
  rest : List Token
  closes : symbol = .stop ∨ ∃ s ∈ closingSigns, symbol = .sign s

namespace Surroundings

variable (F : Surroundings)

/-- Where reading stands in a piece on its own with some tokens of it left. -/
def alone (ts : List Token) (last : Nat) : Cursor :=
  ⟨ts ++ [⟨.stop, F.stop⟩], last⟩

/-- Where reading stands in the source around it with some tokens of the piece left. -/
def around (ts : List Token) (last : Nat) : Cursor :=
  ⟨ts.map (Token.shift F.lines) ++ ⟨F.symbol, F.line⟩ :: F.rest, last + F.lines⟩

end Surroundings

theorem Surroundings.symbol_cases (F : Surroundings) : F.symbol = .stop
    ∨ F.symbol = .sign .rightParen ∨ F.symbol = .sign .kwIf ∨ F.symbol = .sign .kwEnd := by
  rcases F.closes with hstop | ⟨s, hs, hsign⟩
  · exact .inl hstop
  · simp only [closingSigns, List.mem_cons, List.not_mem_nil, or_false] at hs
    rcases hs with rfl | rfl | rfl
    · exact .inr (.inl hsign)
    · exact .inr (.inr (.inl hsign))
    · exact .inr (.inr (.inr hsign))

/-- No other sign stands after a piece. -/
theorem Surroundings.ne_sign (F : Surroundings) {s : Sign} (h : s ∉ closingSigns) :
    F.symbol ≠ .sign s := by
  rintro hs
  rcases F.closes with hstop | ⟨t, ht, hsign⟩
  · cases hs.symm.trans hstop
  · cases hs.symm.trans hsign
    exact h ht

/-- Whether one phrase reads inside other source what another one reads from the tokens of a piece,
    with `g` applied to what is read. That takes at least `least` tokens. Some phrases take the end
    of the source for their own, and are only comparable, unless `closed`, if they end before it or
    what stands after the piece ends them too. -/
def Inside {α : Type} (F : Surroundings) (g : α → α) (least : Nat) (closed : Bool) (p q : Phrase α)
    (ts : List Token) : Prop :=
  ∀ last a c, p.run (F.alone ts last) = .ok (a, c) →
    ∃ rest last', c = F.alone rest last' ∧ rest.length + least ≤ ts.length
      ∧ (closed = true ∨ rest ≠ [] ∨ endsBlock F.symbol = true →
        q.run (F.around ts last) = .ok (g a, F.around rest last'))

variable {α β : Type} {F : Surroundings} {g : α → α} {g' : β → β} {least : Nat} {closed : Bool}
  {ts : List Token} {p q : Phrase α} {f f' : α → Phrase β}

namespace Inside

/-! ## Rules -/

theorem weaken {k : Nat} (h : Inside F g k closed p q ts) (hk : least ≤ k) :
    Inside F g least closed p q ts := by
  intro last a c hp
  obtain ⟨rest, last', rfl, hlength, hq⟩ := h last a c hp
  exact ⟨rest, last', rfl, by omega, hq⟩

theorem pure {a b : α} (h : b = g a) : Inside F g 0 closed (Pure.pure a) (Pure.pure b) ts := by
  intro last a' c hp
  cases hp
  exact ⟨ts, last, rfl, Nat.le_refl _, fun _ => by rw [h]; rfl⟩

theorem fail {reason : String} : Inside F g least closed (Grammar.fail reason) q ts :=
  fun _ _ _ hp => by cases hp

theorem run_bind {p : Phrase α} {f : α → Phrase β} {c c' : Cursor} {b : β}
    (h : (p >>= f).run c = .ok (b, c')) :
    ∃ a c₁, p.run c = .ok (a, c₁) ∧ (f a).run c₁ = .ok (b, c') := by
  rw [StateT.run_bind] at h
  obtain ⟨⟨a, c₁⟩, hp, hf⟩ := exists_of_bind_eq_ok h
  exact ⟨a, c₁, hp, hf⟩

theorem bind_run {p : Phrase α} {f : α → Phrase β} {c c₁ c' : Cursor} {a : α} {b : β}
    (hp : p.run c = .ok (a, c₁)) (hf : (f a).run c₁ = .ok (b, c')) :
    (p >>= f).run c = .ok (b, c') := by
  rw [StateT.run_bind, hp]
  exact hf

/-- One phrase after another. -/
theorem bind {k : Nat} (hp : Inside F g k true p q ts)
    (hf : ∀ a rest, rest.length + k ≤ ts.length →
      Inside F g' (least - k) closed (f a) (f' (g a)) rest) :
    Inside F g' least closed (p >>= f) (q >>= f') ts := by
  intro last b c h
  obtain ⟨a, c₁, hrun, hrest⟩ := run_bind h
  obtain ⟨rest, last', rfl, hlength, hq⟩ := hp last a c₁ hrun
  obtain ⟨rest', last'', rfl, hlength', hq'⟩ := hf a rest hlength last' b c hrest
  exact ⟨rest', last'', rfl, by omega, fun hclosed => bind_run (hq (.inl rfl)) (hq' hclosed)⟩

/-- A phrase of whose outcome something is made. -/
theorem map {h : α → β} {h' : α → β} (hp : Inside F g least closed p q ts)
    (hh : ∀ a, h' (g a) = g' (h a)) :
    Inside F g' least closed (p >>= fun a => Pure.pure (h a)) (q >>= fun a => Pure.pure (h' a)) ts := by
  intro last b c hrun
  obtain ⟨a, c₁, hp', hrest⟩ := run_bind hrun
  cases hrest
  obtain ⟨rest, last', rfl, hlength, hq⟩ := hp last a _ hp'
  exact ⟨rest, last', rfl, hlength, fun hclosed => bind_run (hq hclosed) (by rw [hh]; rfl)⟩

/-- A phrase that might take the end of the source for its own, and one that takes a token. -/
theorem bind_open {k : Nat} (hp : Inside F g k false p q ts)
    (hf : ∀ a rest, rest.length + k ≤ ts.length →
      Inside F g' (least - k) closed (f a) (f' (g a)) rest)
    (hk : k < least) : Inside F g' least closed (p >>= f) (q >>= f') ts := by
  intro last b c h
  obtain ⟨a, c₁, hrun, hrest⟩ := run_bind h
  obtain ⟨rest, last', rfl, hlength, hq⟩ := hp last a c₁ hrun
  have hne : rest ≠ [] := by
    rintro rfl
    obtain ⟨rest', -, -, hlength', -⟩ := hf a [] hlength last' b c hrest
    simp only [List.length_nil] at hlength'
    omega
  obtain ⟨rest', last'', rfl, hlength', hq'⟩ := hf a rest hlength last' b c hrest
  exact ⟨rest', last'', rfl, by omega, fun hclosed => bind_run (hq (.inr (.inl hne))) (hq' hclosed)⟩

/-- What takes a token cannot be read at the end. -/
theorem of_nil {k : Nat} (hp : Inside F g (k + 1) true p q []) {r : Phrase β} :
    Inside F g' least closed (p >>= f) r [] := by
  intro last b c h
  obtain ⟨a, c₁, hrun, -⟩ := run_bind h
  obtain ⟨rest, last', -, hlength, -⟩ := hp last a c₁ hrun
  simp at hlength

/-- A token is seen as it is. -/
theorem peek_cons {t : Token} {f f' : Token → Phrase β}
    (h : Inside F g' least closed (f t) (f' (t.shift F.lines)) (t :: ts)) :
    Inside F g' least closed (peek >>= f) (peek >>= f') (t :: ts) :=
  h

/-- At the end of the piece its surroundings are seen. -/
theorem peek_nil {f f' : Token → Phrase β}
    (h : Inside F g' least closed (f ⟨.stop, F.stop⟩) (f' ⟨F.symbol, F.line⟩) []) :
    Inside F g' least closed (peek >>= f) (peek >>= f') [] :=
  h

/-- What is left is seen as it is. -/
theorem get_bind {f f' : Cursor → Phrase β}
    (h : ∀ last, Inside F g' least closed (f (F.alone ts last)) (f' (F.around ts last)) ts) :
    Inside F g' least closed (get >>= f) (get >>= f') ts :=
  fun last b c hrun => h last last b c hrun

theorem advance_alone {t : Token} {last : Nat} {c : Cursor}
    (h : advance.run (F.alone (t :: ts) last) = .ok ((), c)) :
    c = F.alone ts t.line ∧ advance.run (F.around (t :: ts) last) = .ok ((), F.around ts t.line) := by
  cases ts with
  | nil =>
    cases h
    obtain ⟨lines, stop, symbol, line, rest, rfl | ⟨s, -, rfl⟩⟩ := F <;> exact ⟨rfl, rfl⟩
  | cons u us =>
    obtain ⟨symbol, line⟩ := u
    cases symbol <;> cases h <;> exact ⟨rfl, rfl⟩

/-- Going past a token. -/
theorem advance_cons {t : Token} {f f' : Unit → Phrase β}
    (h : Inside F g' (least - 1) closed (f ()) (f' ()) ts) :
    Inside F g' least closed (advance >>= f) (advance >>= f') (t :: ts) := by
  intro last b c hrun
  obtain ⟨⟨⟩, c₁, hadvance, hrest⟩ := run_bind hrun
  obtain ⟨rfl, hadvance'⟩ := advance_alone hadvance
  obtain ⟨rest, last', rfl, hlength, hq⟩ := h t.line b c hrest
  refine ⟨rest, last', rfl, ?_, fun hclosed => bind_run hadvance' (hq hclosed)⟩
  rw [List.length_cons]
  omega

/-- The line of the token that was read last. -/
theorem lastLine_bind {f f' : Nat → Phrase β}
    (h : ∀ last, Inside F g' least closed (f last) (f' (last + F.lines)) ts) :
    Inside F g' least closed (lastLine >>= f) (lastLine >>= f') ts :=
  fun last b c hrun => h last last b c hrun

/-! ## Signs and names -/

/-- Whether a token is a sign. -/
def isSign (s : Sign) (t : Token) : Bool :=
  match t.symbol with
  | .sign u => s == u
  | _ => false

theorem isSign_of_ne {s : Sign} {t : Token} (h : t.symbol ≠ .sign s) : isSign s t = false := by
  obtain ⟨symbol, line⟩ := t
  cases symbol with
  | sign u => exact beq_eq_false_iff_ne.2 fun hu => h (by rw [hu])
  | _ => rfl

theorem run_sees (s : Sign) (t : Token) (us : List Token) (last : Nat) :
    (sees s).run ⟨t :: us, last⟩ = .ok (isSign s t, ⟨t :: us, last⟩) := by
  obtain ⟨symbol, line⟩ := t
  cases symbol <;> rfl

/-- A sign is seen as it is, and none at the end but the one that stands there. -/
theorem sees {s : Sign} (hs : F.symbol ≠ .sign s) :
    Inside F id 0 closed (sees s) (sees s) ts := by
  intro last a c hrun
  cases ts with
  | nil =>
    cases hrun
    refine ⟨[], last, rfl, Nat.le_refl _, fun _ => ?_⟩
    have hrun' : (Grammar.sees s).run (F.around [] last) = _ :=
      run_sees s ⟨F.symbol, F.line⟩ F.rest _
    rw [hrun', isSign_of_ne hs]
    rfl
  | cons t ts =>
    have hrun' : (Grammar.sees s).run (F.alone (t :: ts) last) = _ := run_sees s t _ last
    rw [hrun'] at hrun
    cases hrun
    exact ⟨t :: ts, last, rfl, Nat.le_refl _, fun _ => run_sees s (t.shift F.lines) _ _⟩

/-- At a token it is known whether it is the sign. -/
theorem sees_cons {s : Sign} {t : Token} {f f' : Bool → Phrase β}
    (h : Inside F g' least closed (f (isSign s t)) (f' (isSign s t)) (t :: ts)) :
    Inside F g' least closed (Grammar.sees s >>= f) (Grammar.sees s >>= f') (t :: ts) := by
  intro last b c hrun
  obtain ⟨took, c₁, hsees, hrest⟩ := run_bind hrun
  have hsees' : (Grammar.sees s).run (F.alone (t :: ts) last) = _ := run_sees s t _ last
  rw [hsees] at hsees'
  cases hsees'
  obtain ⟨rest, last', rfl, hlength, hq⟩ := h last b c hrest
  exact ⟨rest, last', rfl, hlength,
    fun hclosed => bind_run (run_sees s (t.shift F.lines) _ _) (hq hclosed)⟩

theorem run_accept (s : Sign) (t : Token) (us : List Token) (last : Nat) :
    (accept s).run ⟨t :: us, last⟩ = if isSign s t = true
      then (advance >>= fun _ => Pure.pure true).run ⟨t :: us, last⟩
      else .ok (false, ⟨t :: us, last⟩) := by
  have hsees := run_sees s t us last
  rw [accept, StateT.run_bind, hsees]
  by_cases hsign : isSign s t = true
  · rw [if_pos hsign, hsign]
    rfl
  · rw [if_neg hsign, Bool.eq_false_iff.2 hsign]
    rfl

/-- A sign is taken if it is there. A phrase that takes a token may be read instead even if the sign
    is the one that stands after the piece. -/
theorem accept_bind {s : Sign} {f f' : Bool → Phrase β} (hs : F.symbol ≠ .sign s ∨ 1 ≤ least)
    (htrue : ∀ t us, ts = t :: us → Inside F g' (least - 1) closed (f true) (f' true) us)
    (hfalse : Inside F g' least closed (f false) (f' false) ts) :
    Inside F g' least closed (accept s >>= f) (accept s >>= f') ts := by
  intro last b c hrun
  obtain ⟨took, c₁, haccept, hrest⟩ := run_bind hrun
  cases ts with
  | nil =>
    cases haccept
    obtain ⟨rest, last', rfl, hlength, hq⟩ := hfalse last b c hrest
    have hne : F.symbol ≠ .sign s := hs.resolve_right fun hleast => by
      simp only [List.length_nil] at hlength
      omega
    have haccept' : (accept s).run (F.around [] last) = .ok (false, F.around [] last) := by
      have hsign : isSign s ⟨F.symbol, F.line⟩ = false := isSign_of_ne hne
      have := run_accept s ⟨F.symbol, F.line⟩ F.rest (last + F.lines)
      rwa [hsign] at this
    exact ⟨rest, last', rfl, hlength, fun hclosed => bind_run haccept' (hq hclosed)⟩
  | cons t us =>
    have halone : (accept s).run (F.alone (t :: us) last) = _ := run_accept s t _ last
    have haround : (accept s).run (F.around (t :: us) last) = _ := run_accept s (t.shift F.lines) _ _
    have hshift : isSign s (t.shift F.lines) = isSign s t := rfl
    rw [haccept] at halone
    rw [hshift] at haround
    by_cases hsign : isSign s t = true
    · rw [if_pos hsign] at halone haround
      obtain ⟨⟨⟩, c₂, hadvance, htook⟩ := run_bind halone.symm
      obtain ⟨rfl, hadvance'⟩ := advance_alone hadvance
      cases htook
      obtain ⟨rest, last', rfl, hlength, hq⟩ := htrue t us rfl t.line b c hrest
      refine ⟨rest, last', rfl, ?_, fun hclosed => ?_⟩
      · rw [List.length_cons]
        omega
      · exact bind_run (haround.trans (bind_run hadvance' rfl)) (hq hclosed)
    · rw [if_neg hsign] at halone haround
      cases halone
      obtain ⟨rest, last', rfl, hlength, hq⟩ := hfalse last b c hrest
      exact ⟨rest, last', rfl, hlength, fun hclosed => bind_run haround (hq hclosed)⟩

/-- A sign that has to come next. -/
theorem expect {s : Sign} {reason : String} :
    Inside F id 1 true (expect s reason) (expect s reason) ts :=
  accept_bind (.inr (Nat.le_refl _)) (fun _ _ _ => pure rfl) fail

/-- A name that has to come next. -/
theorem takeName : Inside F id 1 true takeName takeName ts := by
  cases ts with
  | nil => exact peek_nil fail
  | cons t ts =>
    obtain ⟨symbol, line⟩ := t
    refine peek_cons ?_
    cases symbol with
    | name n => exact advance_cons (pure rfl)
    | _ => exact fail

/-! ## Settings -/

end Inside

/-- Whether expressions may use in one setting what they may use in another one. -/
structure Setting.Allows (s s' : Setting) : Prop where
  isVararg : s.isVararg = true → s'.isVararg = true
  levels : s.levels ≤ s'.levels

/-- Whether statements may use in one setting what they may use in another one. -/
structure Setting.AllowsAll (s s' : Setting) : Prop extends s.Allows s' where
  inLoop : s.inLoop = true → s'.inLoop = true
  locals : s'.locals ≤ s.locals

namespace Inside

/-- Going one level deeper. -/
theorem enter_bind {s s' : Setting} {f f' : Setting → Phrase β} (hs : s.levels ≤ s'.levels)
    (h : ∀ levels levels', s.levels = levels + 1 → s'.levels = levels' + 1 → levels ≤ levels' →
      Inside F g' least closed (f { s with levels }) (f' { s' with levels := levels' }) ts) :
    Inside F g' least closed (enter s >>= f) (enter s' >>= f') ts := by
  obtain ⟨isVararg, inLoop, locals, levels⟩ := s
  obtain ⟨isVararg', inLoop', locals', levels'⟩ := s'
  intro last b c hrun
  cases levels with
  | zero => cases hrun
  | succ levels =>
    cases levels' with
    | zero => exact absurd hs (by simp)
    | succ levels' => exact h levels levels' rfl rfl (Nat.le_of_succ_le_succ hs) last b c hrun

/-- Having more variables. -/
theorem declare_bind {s s' : Setting} {count : Nat} {f f' : Setting → Phrase β}
    (hs : s'.locals ≤ s.locals)
    (h : Inside F g' least closed (f { s with locals := s.locals + count })
      (f' { s' with locals := s'.locals + count }) ts) :
    Inside F g' least closed (declare s count >>= f) (declare s' count >>= f') ts := by
  intro last b c hrun
  by_cases hmax : maxLocals < s.locals + count
  · simp only [declare, if_pos hmax] at hrun
    cases hrun
  · have hmax' : ¬ maxLocals < s'.locals + count := by omega
    simp only [declare, if_neg hmax, if_neg hmax'] at hrun ⊢
    exact h last b c hrun

/-! ## Phrases without expressions in them -/

theorem nameList {fuel fuel' : Nat} (hfuel : ts.length < fuel) (hfuel' : ts.length < fuel') :
    Inside F id 1 true (nameList fuel) (nameList fuel') ts := by
  induction fuel generalizing fuel' ts with
  | zero => exact absurd hfuel (Nat.not_lt_zero _)
  | succ fuel ih =>
    obtain ⟨fuel', rfl⟩ : ∃ n, fuel' = n + 1 := ⟨fuel' - 1, by omega⟩
    refine takeName.bind fun n rest hrest => ?_
    refine accept_bind (.inl (F.ne_sign (by decide))) (fun t us hus => ?_) (pure rfl)
    subst hus
    rw [List.length_cons] at hrest
    exact (ih (by omega) (by omega)).bind fun ns rest _ => pure rfl

theorem params {fuel fuel' : Nat} (hfuel : ts.length < fuel) (hfuel' : ts.length < fuel') :
    Inside F id 1 true (params fuel) (params fuel') ts := by
  induction fuel generalizing fuel' ts with
  | zero => exact absurd hfuel (Nat.not_lt_zero _)
  | succ fuel ih =>
    obtain ⟨fuel', rfl⟩ : ∃ n, fuel' = n + 1 := ⟨fuel' - 1, by omega⟩
    refine accept_bind (.inl (F.ne_sign (by decide))) (fun t us _ => pure rfl) ?_
    refine takeName.bind fun n rest hrest => ?_
    refine accept_bind (.inl (F.ne_sign (by decide))) (fun t us hus => ?_) (pure rfl)
    subst hus
    rw [List.length_cons] at hrest
    exact (ih (by omega) (by omega)).bind fun r rest _ => pure rfl

theorem paramList {fuel fuel' : Nat} (hfuel : ts.length < fuel) (hfuel' : ts.length < fuel') :
    Inside F id 2 true (paramList fuel) (paramList fuel') ts := by
  refine expect.bind fun _ rest hrest => ?_
  refine accept_bind (.inr (Nat.le_refl _)) (fun t us _ => pure rfl) ?_
  exact (params (by omega) (by omega)).bind fun r rest _ => expect.bind fun _ rest _ => pure rfl

theorem fieldPath {fuel fuel' : Nat} (hfuel : ts.length < fuel) (hfuel' : ts.length < fuel')
    (e : Expr) : Inside F (Expr.shift F.lines) 0 true (fieldPath fuel e)
      (fieldPath fuel' (e.shift F.lines)) ts := by
  induction fuel generalizing fuel' ts e with
  | zero => exact absurd hfuel (Nat.not_lt_zero _)
  | succ fuel ih =>
    obtain ⟨fuel', rfl⟩ : ∃ n, fuel' = n + 1 := ⟨fuel' - 1, by omega⟩
    refine accept_bind (.inl (F.ne_sign (by decide))) (fun t us hus => ?_) (pure rfl)
    subst hus
    rw [List.length_cons] at hfuel hfuel'
    refine takeName.bind fun n rest hrest => lastLine_bind fun last => ?_
    exact ih (by omega) (by omega) (.index last e (.text n))

/-! ## Expressions -/

end Inside

/-- Whether the phrases that are read with some fuel are read inside other source as well, with
    whatever fuel is enough for as many tokens. A phrase that another one starts with needs less. -/
structure ReadsInside (F : Surroundings) (fuel : Nat) : Prop where
  expression {fuel' : Nat} {s s' : Setting} {ts : List Token} (tightness : Nat) (hs : s.Allows s')
    (hfuel : 16 * ts.length + 3 ≤ fuel) (hfuel' : 16 * ts.length + 3 ≤ fuel') :
    Inside F (Expr.shift F.lines) 1 true (expression fuel s tightness)
      (expression fuel' s' tightness) ts
  joined {fuel' : Nat} {s s' : Setting} {ts : List Token} (tightness : Nat) (left : Expr)
    (hs : s.Allows s') (hfuel : 16 * ts.length + 1 ≤ fuel) (hfuel' : 16 * ts.length + 1 ≤ fuel') :
    Inside F (Expr.shift F.lines) 0 true (joined fuel s tightness left)
      (joined fuel' s' tightness (left.shift F.lines)) ts
  simple {fuel' : Nat} {s s' : Setting} {ts : List Token} (hs : s.Allows s')
    (hfuel : 16 * ts.length + 2 ≤ fuel) (hfuel' : 16 * ts.length + 2 ≤ fuel') :
    Inside F (Expr.shift F.lines) 1 true (simple fuel s) (simple fuel' s') ts
  suffixed {fuel' : Nat} {s s' : Setting} {ts : List Token} (hs : s.Allows s')
    (hfuel : 16 * ts.length + 1 ≤ fuel) (hfuel' : 16 * ts.length + 1 ≤ fuel') :
    Inside F (Expr.shift F.lines) 1 true (suffixed fuel s) (suffixed fuel' s') ts
  suffixes {fuel' : Nat} {s s' : Setting} {ts : List Token} (e : Expr) (hs : s.Allows s')
    (hfuel : 16 * ts.length + 3 ≤ fuel) (hfuel' : 16 * ts.length + 3 ≤ fuel') :
    Inside F (Expr.shift F.lines) 0 true (suffixes fuel s e) (suffixes fuel' s' (e.shift F.lines)) ts
  arguments {fuel' : Nat} {s s' : Setting} {ts : List Token} (hs : s.Allows s')
    (hfuel : 16 * ts.length + 2 ≤ fuel) (hfuel' : 16 * ts.length + 2 ≤ fuel') :
    Inside F (List.map (Expr.shift F.lines)) 1 true (arguments fuel s) (arguments fuel' s') ts
  expressions {fuel' : Nat} {s s' : Setting} {ts : List Token} (hs : s.Allows s')
    (hfuel : 16 * ts.length + 4 ≤ fuel) (hfuel' : 16 * ts.length + 4 ≤ fuel') :
    Inside F (List.map (Expr.shift F.lines)) 1 true (expressions fuel s) (expressions fuel' s') ts
  constructor {fuel' : Nat} {s s' : Setting} {ts : List Token} (hs : s.Allows s')
    (hfuel : 16 * ts.length + 1 ≤ fuel) (hfuel' : 16 * ts.length + 1 ≤ fuel') :
    Inside F (List.map (Field.shift F.lines)) 1 true (Grammar.constructor fuel s)
      (Grammar.constructor fuel' s') ts
  fieldList {fuel' : Nat} {s s' : Setting} {ts : List Token} (hs : s.Allows s')
    (hfuel : 16 * ts.length + 5 ≤ fuel) (hfuel' : 16 * ts.length + 5 ≤ fuel') :
    Inside F (List.map (Field.shift F.lines)) 1 true (fieldList fuel s) (fieldList fuel' s') ts
  field {fuel' : Nat} {s s' : Setting} {ts : List Token} (hs : s.Allows s')
    (hfuel : 16 * ts.length + 4 ≤ fuel) (hfuel' : 16 * ts.length + 4 ≤ fuel') :
    Inside F (Field.shift F.lines) 1 true (field fuel s) (field fuel' s') ts
  functionBody {fuel' : Nat} {s s' : Setting} {ts : List Token} (lead : List Name)
    (hs : s.Allows s') (hfuel : 16 * ts.length + 2 ≤ fuel) (hfuel' : 16 * ts.length + 2 ≤ fuel') :
    Inside F (Function.shift F.lines) 1 true (functionBody fuel s lead)
      (functionBody fuel' s' lead) ts
  block {fuel' : Nat} {s s' : Setting} {ts : List Token} (hs : s.AllowsAll s')
    (hfuel : 16 * ts.length + 3 ≤ fuel) (hfuel' : 16 * ts.length + 3 ≤ fuel') :
    Inside F (List.map (Stmt.shift F.lines)) 0 false (block fuel s) (block fuel' s') ts
  statement {fuel' : Nat} {s s' : Setting} {ts : List Token} (hs : s.AllowsAll s')
    (hfuel : 16 * ts.length + 2 ≤ fuel) (hfuel' : 16 * ts.length + 2 ≤ fuel') :
    Inside F (Prod.map (List.map (Stmt.shift F.lines)) id) 1 true (statement fuel s)
      (statement fuel' s') ts
  conditional {fuel' : Nat} {s s' : Setting} {ts : List Token} (hs : s.AllowsAll s')
    (hfuel : 16 * ts.length + 4 ≤ fuel) (hfuel' : 16 * ts.length + 4 ≤ fuel') :
    Inside F (Stmt.shift F.lines) 1 true (conditional fuel s) (conditional fuel' s') ts
  loop {fuel' : Nat} {s s' : Setting} {ts : List Token} (line : Nat) (hs : s.AllowsAll s')
    (hfuel : 16 * ts.length + 1 ≤ fuel) (hfuel' : 16 * ts.length + 1 ≤ fuel') :
    Inside F (Stmt.shift F.lines) 1 true (loop fuel s line) (loop fuel' s' (line + F.lines)) ts
  assignment {fuel' : Nat} {s s' : Setting} {ts : List Token} (targets : List Expr)
    (hs : s.AllowsAll s') (hfuel : 16 * ts.length + 1 ≤ fuel) (hfuel' : 16 * ts.length + 1 ≤ fuel') :
    Inside F (Stmt.shift F.lines) 1 true (assignment fuel s targets)
      (assignment fuel' s' (targets.map (Expr.shift F.lines))) ts

section Steps

variable {fuel fuel' : Nat} {s s' : Setting} (ih : ReadsInside F fuel)

include ih

theorem ReadsInside.expression_succ (tightness : Nat) (hs : s.Allows s')
    (hfuel : 16 * ts.length + 3 ≤ fuel + 1) (hfuel' : 16 * ts.length + 3 ≤ fuel' + 1) :
    Inside F (Expr.shift F.lines) 1 true (Grammar.expression (fuel + 1) s tightness)
      (Grammar.expression (fuel' + 1) s' tightness) ts := by
  rw [Grammar.expression, Grammar.expression]
  refine .enter_bind hs.levels fun levels levels' hl hl' hle => ?_
  have hinner : Setting.Allows { s with levels } { s' with levels := levels' } := ⟨hs.isVararg, hle⟩
  have hsimple : Inside F (Expr.shift F.lines) 1 true (Grammar.simple fuel { s with levels })
      (Grammar.simple fuel' { s' with levels := levels' }) ts :=
    ih.simple hinner (by omega) (by omega)
  cases ts with
  | nil => exact .peek_nil (.of_nil hsimple)
  | cons t ts =>
    obtain ⟨symbol, line⟩ := t
    rw [List.length_cons] at hfuel hfuel'
    refine .peek_cons ?_
    simp only [Token.shift]
    split
    · split
      · refine .peek_cons (.advance_cons ?_)
        refine (ih.expression unaryTightness hinner (by omega) (by omega)).bind fun e rest hrest => ?_
        exact ih.joined tightness (.unary line _ e) hinner (by omega) (by omega)
      · refine hsimple.bind fun left rest hrest => ?_
        rw [List.length_cons] at hrest
        exact ih.joined tightness left hinner (by omega) (by omega)
    · refine hsimple.bind fun left rest hrest => ?_
      rw [List.length_cons] at hrest
      exact ih.joined tightness left hinner (by omega) (by omega)

theorem ReadsInside.joined_succ (tightness : Nat) (left : Expr) (hs : s.Allows s')
    (hfuel : 16 * ts.length + 1 ≤ fuel + 1) (hfuel' : 16 * ts.length + 1 ≤ fuel' + 1) :
    Inside F (Expr.shift F.lines) 0 true (Grammar.joined (fuel + 1) s tightness left)
      (Grammar.joined (fuel' + 1) s' tightness (left.shift F.lines)) ts := by
  rw [Grammar.joined, Grammar.joined]
  cases ts with
  | nil =>
    refine .peek_nil ?_
    rcases F.symbol_cases with h | h | h | h <;> rw [h] <;> exact .pure rfl
  | cons t ts =>
    obtain ⟨symbol, line⟩ := t
    rw [List.length_cons] at hfuel hfuel'
    refine .peek_cons ?_
    simp only [Token.shift]
    split
    · split
      · rename_i joint leftHold rightHold hjoint
        split
        · refine .peek_cons (.advance_cons ?_)
          refine (ih.expression rightHold hs (by omega) (by omega)).bind fun right rest hrest => ?_
          refine .lastLine_bind fun last => ?_
          have hjoined : Inside F (Expr.shift F.lines) 0 true
              (Grammar.joined fuel s tightness (joint.apply line last left right))
              (Grammar.joined fuel' s' tightness ((joint.apply line last left right).shift F.lines))
              rest := ih.joined tightness _ hs (by omega) (by omega)
          rw [← Joint.apply_shift] at hjoined
          exact hjoined
        · exact .pure rfl
      · exact .pure rfl
    · exact .pure rfl

theorem ReadsInside.simple_succ (hs : s.Allows s')
    (hfuel : 16 * ts.length + 2 ≤ fuel + 1) (hfuel' : 16 * ts.length + 2 ≤ fuel' + 1) :
    Inside F (Expr.shift F.lines) 1 true (Grammar.simple (fuel + 1) s)
      (Grammar.simple (fuel' + 1) s') ts := by
  rw [Grammar.simple, Grammar.simple]
  have hsuffixed : Inside F (Expr.shift F.lines) 1 true (Grammar.suffixed fuel s)
      (Grammar.suffixed fuel' s') ts := ih.suffixed hs (by omega) (by omega)
  cases ts with
  | nil =>
    refine .peek_nil ?_
    rcases F.symbol_cases with h | h | h | h <;> rw [h] <;> exact hsuffixed
  | cons t ts =>
    obtain ⟨symbol, line⟩ := t
    rw [List.length_cons] at hfuel hfuel'
    refine .peek_cons ?_
    simp only [Token.shift]
    split
    · exact .advance_cons (.pure rfl)
    · exact .advance_cons (.pure rfl)
    · exact .advance_cons (.pure rfl)
    · exact .advance_cons (.pure rfl)
    · exact .advance_cons (.pure rfl)
    · by_cases hvararg : s.isVararg = true
      · rw [if_pos hvararg, if_pos (hs.isVararg hvararg)]
        exact .advance_cons (.pure rfl)
      · rw [if_neg hvararg]
        exact .fail
    · refine (ih.constructor hs ?_ ?_).bind fun fields rest _ => .pure ?_
      · rw [List.length_cons]
        omega
      · rw [List.length_cons]
        omega
      · simp only [Expr.shift, shiftFields_eq_map]
    · refine .advance_cons ((ih.functionBody [] hs (by omega) (by omega)).bind fun f rest _ => ?_)
      exact .pure (by rw [Expr.shift])
    · exact hsuffixed

theorem ReadsInside.suffixed_succ (hs : s.Allows s')
    (hfuel : 16 * ts.length + 1 ≤ fuel + 1) (hfuel' : 16 * ts.length + 1 ≤ fuel' + 1) :
    Inside F (Expr.shift F.lines) 1 true (Grammar.suffixed (fuel + 1) s)
      (Grammar.suffixed (fuel' + 1) s') ts := by
  rw [Grammar.suffixed, Grammar.suffixed]
  cases ts with
  | nil => exact .peek_nil .fail
  | cons t ts =>
    obtain ⟨symbol, line⟩ := t
    rw [List.length_cons] at hfuel hfuel'
    refine .peek_cons ?_
    simp only [Token.shift]
    split
    · rename_i n
      exact .peek_cons (.advance_cons (ih.suffixes (.name line n) hs (by omega) (by omega)))
    · refine .advance_cons ?_
      refine (ih.expression 0 hs (by omega) (by omega)).bind fun e rest hrest => ?_
      refine Inside.expect.bind fun _ rest' hrest' => ?_
      exact ih.suffixes (.single e) hs (by omega) (by omega)
    · exact .fail

theorem ReadsInside.suffixes_succ (e : Expr) (hs : s.Allows s')
    (hfuel : 16 * ts.length + 3 ≤ fuel + 1) (hfuel' : 16 * ts.length + 3 ≤ fuel' + 1) :
    Inside F (Expr.shift F.lines) 0 true (Grammar.suffixes (fuel + 1) s e)
      (Grammar.suffixes (fuel' + 1) s' (e.shift F.lines)) ts := by
  rw [Grammar.suffixes, Grammar.suffixes]
  cases ts with
  | nil =>
    refine .peek_nil (.peek_nil ?_)
    rcases F.symbol_cases with h | h | h | h <;> rw [h] <;> exact .pure rfl
  | cons t ts =>
    obtain ⟨symbol, line⟩ := t
    have hcall : Inside F (Expr.shift F.lines) 0 true
        (Grammar.arguments fuel s >>= fun args => Grammar.suffixes fuel s (.call line e args))
        (Grammar.arguments fuel' s' >>= fun args =>
          Grammar.suffixes fuel' s' (.call (line + F.lines) (e.shift F.lines) args))
        (⟨symbol, line⟩ :: ts) := by
      rw [List.length_cons] at hfuel hfuel'
      refine (ih.arguments hs ?_ ?_).bind fun args rest hrest => ?_
      · rw [List.length_cons]
        omega
      · rw [List.length_cons]
        omega
      rw [List.length_cons] at hrest
      have hsuffixes : Inside F (Expr.shift F.lines) 0 true
          (Grammar.suffixes fuel s (.call line e args))
          (Grammar.suffixes fuel' s' ((Expr.call line e args).shift F.lines)) rest :=
        ih.suffixes _ hs (by omega) (by omega)
      rwa [Expr.shift, shiftExprs_eq_map] at hsuffixes
    rw [List.length_cons] at hfuel hfuel'
    refine .peek_cons (.peek_cons ?_)
    simp only [Token.shift]
    split
    · refine .advance_cons (Inside.takeName.bind fun n rest hrest => .lastLine_bind fun last => ?_)
      exact ih.suffixes (.index last e (.text n)) hs (by omega) (by omega)
    · refine .advance_cons ((ih.expression 0 hs (by omega) (by omega)).bind fun key rest hrest => ?_)
      refine Inside.expect.bind fun _ rest' hrest' => .lastLine_bind fun last => ?_
      exact ih.suffixes (.index last e key) hs (by omega) (by omega)
    · refine .advance_cons (Inside.takeName.bind fun n rest hrest => .lastLine_bind fun fieldLine => ?_)
      have harguments : Inside F (List.map (Expr.shift F.lines)) 1 true (Grammar.arguments fuel s)
          (Grammar.arguments fuel' s') rest := ih.arguments hs (by omega) (by omega)
      cases rest with
      | nil => exact .peek_nil (.of_nil harguments)
      | cons u us =>
        refine .peek_cons (harguments.bind fun args rest hrest' => ?_)
        rw [List.length_cons] at hrest hrest'
        have hsuffixes : Inside F (Expr.shift F.lines) 0 true
            (Grammar.suffixes fuel s (.methodCall u.line fieldLine e n args))
            (Grammar.suffixes fuel' s' ((Expr.methodCall u.line fieldLine e n args).shift F.lines))
            rest := ih.suffixes _ hs (by omega) (by omega)
        rwa [Expr.shift, shiftExprs_eq_map] at hsuffixes
    · exact hcall
    · exact hcall
    · exact hcall
    · exact .pure rfl

theorem ReadsInside.arguments_succ (hs : s.Allows s')
    (hfuel : 16 * ts.length + 2 ≤ fuel + 1) (hfuel' : 16 * ts.length + 2 ≤ fuel' + 1) :
    Inside F (List.map (Expr.shift F.lines)) 1 true (Grammar.arguments (fuel + 1) s)
      (Grammar.arguments (fuel' + 1) s') ts := by
  rw [Grammar.arguments, Grammar.arguments]
  cases ts with
  | nil => exact .peek_nil .fail
  | cons t ts =>
    obtain ⟨symbol, line⟩ := t
    have hconstructor : Inside F (List.map (Field.shift F.lines)) 1 true
        (Grammar.constructor fuel s) (Grammar.constructor fuel' s') (⟨symbol, line⟩ :: ts) :=
      ih.constructor hs (by omega) (by omega)
    rw [List.length_cons] at hfuel hfuel'
    refine .peek_cons ?_
    simp only [Token.shift]
    split
    · exact .advance_cons (.pure rfl)
    · exact hconstructor.bind fun fields rest _ => .pure (by simp)
    · refine Inside.weaken (k := 2) (.advance_cons ?_) (by omega)
      refine .accept_bind (.inr (Nat.le_refl _)) (fun t us _ => .pure rfl) ?_
      refine (ih.expressions hs (by omega) (by omega)).bind fun es rest _ => ?_
      exact Inside.expect.bind fun _ rest' _ => .pure rfl
    · exact .fail

theorem ReadsInside.expressions_succ (hs : s.Allows s')
    (hfuel : 16 * ts.length + 4 ≤ fuel + 1) (hfuel' : 16 * ts.length + 4 ≤ fuel' + 1) :
    Inside F (List.map (Expr.shift F.lines)) 1 true (Grammar.expressions (fuel + 1) s)
      (Grammar.expressions (fuel' + 1) s') ts := by
  rw [Grammar.expressions, Grammar.expressions]
  refine (ih.expression 0 hs (by omega) (by omega)).bind fun e rest hrest => ?_
  refine .accept_bind (.inl (F.ne_sign (by decide))) (fun t us hus => ?_) (.pure rfl)
  subst hus
  rw [List.length_cons] at hrest
  exact (ih.expressions hs (by omega) (by omega)).bind fun es rest _ => .pure rfl

theorem ReadsInside.constructor_succ (hs : s.Allows s')
    (hfuel : 16 * ts.length + 1 ≤ fuel + 1) (hfuel' : 16 * ts.length + 1 ≤ fuel' + 1) :
    Inside F (List.map (Field.shift F.lines)) 1 true (Grammar.constructor (fuel + 1) s)
      (Grammar.constructor (fuel' + 1) s') ts := by
  rw [Grammar.constructor, Grammar.constructor]
  refine Inside.expect.bind fun _ rest hrest => ?_
  exact (ih.fieldList hs (by omega) (by omega)).weaken (Nat.zero_le _)

theorem ReadsInside.fieldList_succ (hs : s.Allows s')
    (hfuel : 16 * ts.length + 5 ≤ fuel + 1) (hfuel' : 16 * ts.length + 5 ≤ fuel' + 1) :
    Inside F (List.map (Field.shift F.lines)) 1 true (Grammar.fieldList (fuel + 1) s)
      (Grammar.fieldList (fuel' + 1) s') ts := by
  rw [Grammar.fieldList, Grammar.fieldList]
  refine .accept_bind (.inl (F.ne_sign (by decide))) (fun t us _ => .pure rfl) ?_
  refine (ih.field hs (by omega) (by omega)).bind fun f rest hrest => ?_
  have hmore {us : List Token} (hus : us.length + 1 ≤ rest.length) :
      Inside F (List.map (Field.shift F.lines)) 0 true
        (Grammar.fieldList fuel s >>= fun fs => pure (f :: fs))
        (Grammar.fieldList fuel' s' >>= fun fs => pure (f.shift F.lines :: fs)) us :=
    (ih.fieldList hs (by omega) (by omega)).bind fun fs rest _ => .pure rfl
  refine .accept_bind (.inl (F.ne_sign (by decide))) (fun t us hus => ?_) ?_
  · exact hmore (Nat.le_of_eq (congrArg List.length hus).symm)
  refine .accept_bind (.inl (F.ne_sign (by decide))) (fun t us hus => ?_) ?_
  · exact hmore (Nat.le_of_eq (congrArg List.length hus).symm)
  · exact Inside.expect.bind fun _ rest' _ => .pure rfl

theorem ReadsInside.field_succ (hs : s.Allows s')
    (hfuel : 16 * ts.length + 4 ≤ fuel + 1) (hfuel' : 16 * ts.length + 4 ≤ fuel' + 1) :
    Inside F (Field.shift F.lines) 1 true (Grammar.field (fuel + 1) s)
      (Grammar.field (fuel' + 1) s') ts := by
  rw [Grammar.field, Grammar.field]
  have hitem : Inside F (Field.shift F.lines) 1 true
      (Grammar.expression fuel s 0 >>= fun e => pure (.item e))
      (Grammar.expression fuel' s' 0 >>= fun e => pure (.item e)) ts :=
    (ih.expression 0 hs (by omega) (by omega)).bind fun e rest _ => .pure rfl
  -- Which kind of field it is shows in two tokens, and a name may be the last one of the piece.
  cases ts with
  | nil =>
    intro last a c hrun
    obtain ⟨rest, -, -, hlength, -⟩ := hitem last a c hrun
    simp at hlength
  | cons t ts =>
    obtain ⟨symbol, line⟩ := t
    rw [List.length_cons] at hfuel hfuel'
    cases symbol with
    | name n =>
      cases ts with
      | nil =>
        have hsymbol := F.symbol_cases
        obtain ⟨lines, stop, symbol, line, rest, closes⟩ := F
        dsimp only at hsymbol
        rcases hsymbol with rfl | rfl | rfl | rfl <;> exact hitem
      | cons u us =>
        obtain ⟨symbol, line⟩ := u
        rw [List.length_cons] at hfuel hfuel'
        cases symbol with
        | sign sign =>
          cases sign with
          | equal =>
            refine .get_bind fun _ => .advance_cons (.advance_cons ?_)
            refine (ih.expression 0 hs (by omega) (by omega)).bind fun value rest _ => ?_
            exact .lastLine_bind fun last => .pure rfl
          | _ => exact hitem
        | _ => exact hitem
    | sign sign =>
      cases sign with
      | leftBracket =>
        refine .get_bind fun _ => .advance_cons ?_
        refine (ih.expression 0 hs (by omega) (by omega)).bind fun key rest hrest => ?_
        refine Inside.expect.bind fun _ rest' hrest' => Inside.expect.bind fun _ rest'' hrest'' => ?_
        refine (ih.expression 0 hs (by omega) (by omega)).bind fun value rest _ => ?_
        exact .lastLine_bind fun last => .pure rfl
      | _ => exact hitem
    | _ => exact hitem

theorem ReadsInside.functionBody_succ (lead : List Name) (hs : s.Allows s')
    (hfuel : 16 * ts.length + 2 ≤ fuel + 1) (hfuel' : 16 * ts.length + 2 ≤ fuel' + 1) :
    Inside F (Function.shift F.lines) 1 true (Grammar.functionBody (fuel + 1) s lead)
      (Grammar.functionBody (fuel' + 1) s' lead) ts := by
  rw [Grammar.functionBody, Grammar.functionBody]
  refine Inside.weaken (k := 3) ?_ (by omega)
  refine (Inside.paramList (by omega) (by omega)).bind fun r rest hrest => ?_
  obtain ⟨names, isVararg⟩ := r
  refine .declare_bind (Nat.le_refl _) ?_
  have hblock : Inside F (List.map (Stmt.shift F.lines)) 0 false
      (Grammar.block fuel { isVararg, levels := s.levels, locals := 0 + (lead.length + names.length) })
      (Grammar.block fuel' { isVararg, levels := s'.levels, locals := 0 + (lead.length + names.length) })
      rest := ih.block ⟨⟨fun h => h, hs.levels⟩, fun h => h, Nat.le_refl _⟩ (by omega) (by omega)
  refine hblock.bind_open (fun body rest' _ => ?_) (by omega)
  exact Inside.expect.bind fun _ rest'' _ => .pure (by simp)

/-! ## Statements -/

theorem ReadsInside.block_succ (hs : s.AllowsAll s')
    (hfuel : 16 * ts.length + 3 ≤ fuel + 1) (hfuel' : 16 * ts.length + 3 ≤ fuel' + 1) :
    Inside F (List.map (Stmt.shift F.lines)) 0 false (Grammar.block (fuel + 1) s)
      (Grammar.block (fuel' + 1) s') ts := by
  rw [Grammar.block, Grammar.block]
  cases ts with
  | nil =>
    -- The end of the piece is taken for that of the block.
    intro last a c hrun
    cases hrun
    refine ⟨[], last, rfl, Nat.le_refl _, fun h => ?_⟩
    have hends : endsBlock F.symbol = true := by simpa using h
    exact Inside.bind_run (a := ⟨F.symbol, F.line⟩) rfl (by simp only [hends, if_true]; rfl)
  | cons t ts =>
    obtain ⟨symbol, line⟩ := t
    rw [List.length_cons] at hfuel hfuel'
    refine .peek_cons ?_
    simp only [Token.shift]
    split
    · exact .pure rfl
    · refine .sees_cons ?_
      split
      · refine .enter_bind hs.levels fun levels levels' _ _ hle => .advance_cons ?_
        have hinner : Setting.Allows { s with levels } { s' with levels := levels' } :=
          ⟨hs.isVararg, hle⟩
        cases ts with
        | nil =>
          intro last a c hrun
          cases hrun
          refine ⟨[], last, rfl, Nat.le_refl _, fun h => ?_⟩
          have hends : endsBlock F.symbol = true := by simpa using h
          exact Inside.bind_run (a := ⟨F.symbol, F.line⟩) rfl
            (by simp only [hends, if_true]; rfl)
        | cons u us =>
          obtain ⟨symbol, line⟩ := u
          refine .peek_cons ?_
          by_cases hends : endsBlock symbol = true
          · simp only [Token.shift, hends, if_true]
            exact .pure rfl
          · simp only [Token.shift, hends]
            refine .accept_bind (.inl (F.ne_sign (by decide))) (fun _ _ _ => .pure rfl) ?_
            refine (ih.expressions hinner (by omega) (by omega)).bind fun es rest _ => ?_
            exact .accept_bind (.inl (F.ne_sign (by decide)))
              (fun _ _ _ => .pure (by simp)) (.pure (by simp))
      · refine .enter_bind hs.levels fun levels levels' _ _ hle => ?_
        have hinner : Setting.AllowsAll { s with levels } { s' with levels := levels' } :=
          ⟨⟨hs.isVararg, hle⟩, hs.inLoop, hs.locals⟩
        have hstatement : Inside F (Prod.map (List.map (Stmt.shift F.lines)) id) 1 true
            (Grammar.statement fuel { s with levels })
            (Grammar.statement fuel' { s' with levels := levels' }) (⟨symbol, line⟩ :: ts) :=
          ih.statement hinner (by simp only [List.length_cons]; omega)
            (by simp only [List.length_cons]; omega)
        refine hstatement.bind fun r rest hrest => ?_
        obtain ⟨stmts, declared⟩ := r
        rw [List.length_cons] at hrest
        refine .declare_bind hs.locals ?_
        have hblock : Inside F (List.map (Stmt.shift F.lines)) 0 false
            (Grammar.block fuel { s with locals := s.locals + declared })
            (Grammar.block fuel' { s' with locals := s'.locals + declared }) rest :=
          ih.block ⟨⟨hs.isVararg, hs.levels⟩, hs.inLoop, Nat.add_le_add_right hs.locals _⟩ (by omega) (by omega)
        exact hblock.map fun more => by simp

theorem ReadsInside.statement_succ (hs : s.AllowsAll s')
    (hfuel : 16 * ts.length + 2 ≤ fuel + 1) (hfuel' : 16 * ts.length + 2 ≤ fuel' + 1) :
    Inside F (Prod.map (List.map (Stmt.shift F.lines)) id) 1 true (Grammar.statement (fuel + 1) s)
      (Grammar.statement (fuel' + 1) s') ts := by
  rw [Grammar.statement, Grammar.statement]
  have hsuffixed : Inside F (Expr.shift F.lines) 1 true (Grammar.suffixed fuel s)
      (Grammar.suffixed fuel' s') ts := ih.suffixed hs.toAllows (by omega) (by omega)
  have hloop : Setting.AllowsAll { s with inLoop := true } { s' with inLoop := true } :=
    ⟨⟨hs.isVararg, hs.levels⟩, fun h => h, hs.locals⟩
  cases ts with
  | nil => exact .peek_nil (.peek_nil (.of_nil hsuffixed))
  | cons t ts =>
    obtain ⟨symbol, line⟩ := t
    rw [List.length_cons] at hfuel hfuel'
    refine .peek_cons (.peek_cons ?_)
    simp only [Token.shift]
    split
    · exact .advance_cons (.pure rfl)
    · refine .advance_cons ?_
      exact (((ih.conditional hs (by omega) (by omega)).weaken (Nat.zero_le _)).map fun _ => rfl)
    · refine .weaken (k := 4) (.advance_cons ?_) (by omega)
      refine (ih.expression 0 hs.toAllows (by omega) (by omega)).bind fun condition rest hrest => ?_
      refine Inside.expect.bind fun _ rest' hrest' => ?_
      refine (ih.block hloop (by omega) (by omega)).bind_open (fun body rest _ => ?_) (by omega)
      exact Inside.expect.bind fun _ rest _ => .pure (by simp)
    · refine .weaken (k := 2) (.advance_cons ?_) (by omega)
      refine (ih.block hs (by omega) (by omega)).bind_open (fun body rest _ => ?_) (by omega)
      exact Inside.expect.bind fun _ rest _ => .pure (by simp)
    · refine .advance_cons ?_
      exact ((ih.loop line hs (by omega) (by omega)).weaken (Nat.zero_le _)).map fun _ => rfl
    · refine .weaken (k := 2) (.advance_cons ?_) (by omega)
      refine (ih.block hloop (by omega) (by omega)).bind_open (fun body rest hrest => ?_) (by omega)
      refine Inside.expect.bind fun _ rest' hrest' => ?_
      refine (ih.expression 0 hs.toAllows (by omega) (by omega)).bind fun condition rest _ => ?_
      exact .pure (by simp)
    · refine .advance_cons (Inside.takeName.bind fun first rest hrest => .lastLine_bind fun last => ?_)
      have hpath : Inside F (Expr.shift F.lines) 0 true (Grammar.fieldPath fuel (.name last first))
          (Grammar.fieldPath fuel' (.name (last + F.lines) first)) rest :=
        Inside.fieldPath (by omega) (by omega) _
      refine hpath.bind fun target rest' hrest' => ?_
      refine .accept_bind (.inl (F.ne_sign (by decide))) (fun u us hus => ?_) ?_
      · subst hus
        rw [List.length_cons] at hrest'
        refine Inside.takeName.bind fun n rest hrest => .lastLine_bind fun last => ?_
        refine (ih.functionBody _ hs.toAllows (by omega) (by omega)).bind fun f rest _ => ?_
        exact .pure (by simp)
      · refine (ih.functionBody _ hs.toAllows (by omega) (by omega)).bind fun f rest _ => ?_
        exact .pure (by simp)
    · refine .advance_cons ?_
      refine .accept_bind (.inl (F.ne_sign (by decide))) (fun u us hus => ?_) ?_
      · subst hus
        rw [List.length_cons] at hfuel hfuel'
        refine Inside.takeName.bind fun n rest hrest => ?_
        refine (ih.functionBody _ hs.toAllows (by omega) (by omega)).bind fun f rest _ => ?_
        exact .pure (by simp)
      · refine (Inside.nameList (by omega) (by omega)).bind fun names rest hrest => ?_
        refine .declare_bind hs.locals ?_
        refine .accept_bind (.inl (F.ne_sign (by decide))) (fun u us hus => ?_)
          (.pure (by simp))
        subst hus
        rw [List.length_cons] at hrest
        have hvalues : Inside F (List.map (Expr.shift F.lines)) 1 true (Grammar.expressions fuel s)
            (Grammar.expressions fuel' s') us := ih.expressions hs.toAllows (by omega) (by omega)
        exact hvalues.bind fun values rest _ => .pure (by simp)
    · by_cases hbreak : s.inLoop = true
      · rw [if_pos hbreak, if_pos (hs.inLoop hbreak)]
        exact .advance_cons (.pure rfl)
      · rw [if_neg hbreak]
        exact .fail
    · refine hsuffixed.bind fun e rest hrest => ?_
      rw [List.length_cons] at hrest
      refine (Inside.sees (F.ne_sign (by decide))).bind fun single rest hsingle => ?_
      refine (Inside.sees (F.ne_sign (by decide))).bind fun several rest hseveral => ?_
      have hassignment : Inside F (Stmt.shift F.lines) 1 true (Grammar.assignment fuel s [e])
          (Grammar.assignment fuel' s' [e.shift F.lines]) rest :=
        ih.assignment [e] hs (by omega) (by omega)
      simp only [id, isCall_shift]
      split
      · exact (hassignment.weaken (Nat.zero_le _)).map fun _ => rfl
      · split
        · exact .pure rfl
        · exact .fail

theorem ReadsInside.conditional_succ (hs : s.AllowsAll s')
    (hfuel : 16 * ts.length + 4 ≤ fuel + 1) (hfuel' : 16 * ts.length + 4 ≤ fuel' + 1) :
    Inside F (Stmt.shift F.lines) 1 true (Grammar.conditional (fuel + 1) s)
      (Grammar.conditional (fuel' + 1) s') ts := by
  rw [Grammar.conditional, Grammar.conditional]
  refine .weaken (k := 3) ?_ (by omega)
  refine (ih.expression 0 hs.toAllows (by omega) (by omega)).bind fun condition rest hrest => ?_
  refine Inside.expect.bind fun _ rest₁ hrest₁ => ?_
  refine (ih.block hs (by omega) (by omega)).bind_open (fun consequent rest₂ hrest₂ => ?_) (by omega)
  refine .accept_bind (.inl (F.ne_sign (by decide))) (fun t us hus => ?_) ?_
  · subst hus
    rw [List.length_cons] at hrest₂
    refine ((ih.conditional hs (by omega) (by omega)).weaken (Nat.zero_le _)).map fun _ => ?_
    simp
  · refine .accept_bind (.inr (by omega)) (fun t us hus => ?_) ?_
    · subst hus
      rw [List.length_cons] at hrest₂
      refine .weaken (k := 1) ?_ (by omega)
      refine (ih.block hs (by omega) (by omega)).bind_open (fun alternative rest _ => ?_) (by omega)
      exact Inside.expect.bind fun _ rest _ => .pure (by simp)
    · exact Inside.expect.bind fun _ rest _ => .pure (by simp)

theorem ReadsInside.loop_succ (line : Nat) (hs : s.AllowsAll s')
    (hfuel : 16 * ts.length + 1 ≤ fuel + 1) (hfuel' : 16 * ts.length + 1 ≤ fuel' + 1) :
    Inside F (Stmt.shift F.lines) 1 true (Grammar.loop (fuel + 1) s line)
      (Grammar.loop (fuel' + 1) s' (line + F.lines)) ts := by
  rw [Grammar.loop, Grammar.loop]
  have hinner (count : Nat) : Setting.AllowsAll
      { isVararg := s.isVararg, inLoop := true, locals := s.locals + count, levels := s.levels }
      { isVararg := s'.isVararg, inLoop := true, locals := s'.locals + count, levels := s'.levels } :=
    ⟨⟨hs.isVararg, hs.levels⟩, fun h => h, Nat.add_le_add_right hs.locals _⟩
  refine .weaken (k := 4) (Inside.takeName.bind fun first rest hrest => ?_) (by omega)
  refine .accept_bind (.inl (F.ne_sign (by decide))) (fun t us hus => ?_) ?_
  · subst hus
    rw [List.length_cons] at hrest
    have hbody (start limit step : Expr) {us : List Token} (hus : us.length < ts.length) :
        Inside F (Stmt.shift F.lines) 2 true
          (Grammar.expect .kwDo "'do' expected" >>= fun _ =>
            declare { s with inLoop := true } 4 >>= fun inner => Grammar.block fuel inner >>= fun body =>
            Grammar.expect .kwEnd "'end' expected" >>= fun _ =>
            pure (.numericFor line first start limit step body))
          (Grammar.expect .kwDo "'do' expected" >>= fun _ =>
            declare { s' with inLoop := true } 4 >>= fun inner => Grammar.block fuel' inner >>= fun body =>
            Grammar.expect .kwEnd "'end' expected" >>= fun _ =>
            pure (.numericFor (line + F.lines) first (start.shift F.lines) (limit.shift F.lines)
              (step.shift F.lines) body)) us := by
      refine Inside.expect.bind fun _ rest hrest => ?_
      refine .declare_bind hs.locals ?_
      refine (ih.block (hinner 4) (by omega) (by omega)).bind_open (fun body rest _ => ?_) (by omega)
      exact Inside.expect.bind fun _ rest _ => .pure (by simp)
    refine (ih.expression 0 hs.toAllows (by omega) (by omega)).bind fun start rest₁ hrest₁ => ?_
    refine Inside.expect.bind fun _ rest₂ hrest₂ => ?_
    refine (ih.expression 0 hs.toAllows (by omega) (by omega)).bind fun limit rest₃ hrest₃ => ?_
    refine .accept_bind (.inl (F.ne_sign (by decide))) (fun u us hus => ?_) ?_
    · subst hus
      rw [List.length_cons] at hrest₃
      refine (ih.expression 0 hs.toAllows (by omega) (by omega)).bind fun step rest hrest => ?_
      exact (hbody start limit step (by omega)).weaken (Nat.zero_le _)
    · exact (hbody start limit (.number (.int 1)) (by omega)).weaken (Nat.zero_le _)
  · have hbody (names : List Name) {us : List Token} (hus : us.length < ts.length) :
        Inside F (Stmt.shift F.lines) 3 true
          (Grammar.expect .kwIn "'=' or 'in' expected" >>= fun _ =>
            Grammar.expressions fuel s >>= fun values => Grammar.expect .kwDo "'do' expected" >>= fun _ =>
            declare { s with inLoop := true } (5 + names.length) >>= fun inner =>
            Grammar.block fuel inner >>= fun body => Grammar.expect .kwEnd "'end' expected" >>= fun _ =>
            pure (.genericFor line (first :: names) values body))
          (Grammar.expect .kwIn "'=' or 'in' expected" >>= fun _ =>
            Grammar.expressions fuel' s' >>= fun values => Grammar.expect .kwDo "'do' expected" >>= fun _ =>
            declare { s' with inLoop := true } (5 + names.length) >>= fun inner =>
            Grammar.block fuel' inner >>= fun body => Grammar.expect .kwEnd "'end' expected" >>= fun _ =>
            pure (.genericFor (line + F.lines) (first :: names) values body)) us := by
      refine .weaken (k := 4) (Inside.expect.bind fun _ rest₁ hrest₁ => ?_) (by omega)
      refine (ih.expressions hs.toAllows (by omega) (by omega)).bind fun values rest₂ hrest₂ => ?_
      refine Inside.expect.bind fun _ rest₃ hrest₃ => .declare_bind hs.locals ?_
      refine (ih.block (hinner _) (by omega) (by omega)).bind_open (fun body rest _ => ?_) (by omega)
      exact Inside.expect.bind fun _ rest _ => .pure (by simp)
    refine .accept_bind (.inl (F.ne_sign (by decide))) (fun t us hus => ?_)
      (hbody [] (by omega))
    subst hus
    rw [List.length_cons] at hrest
    refine (Inside.nameList (by omega) (by omega)).bind fun names rest hrest' => ?_
    exact (hbody names (by omega)).weaken (by omega)

theorem ReadsInside.assignment_succ (targets : List Expr) (hs : s.AllowsAll s')
    (hfuel : 16 * ts.length + 1 ≤ fuel + 1) (hfuel' : 16 * ts.length + 1 ≤ fuel' + 1) :
    Inside F (Stmt.shift F.lines) 1 true (Grammar.assignment (fuel + 1) s targets)
      (Grammar.assignment (fuel' + 1) s' (targets.map (Expr.shift F.lines))) ts := by
  rw [Grammar.assignment, Grammar.assignment]
  simp only [all_isTarget_shift]
  split
  · refine .accept_bind (.inl (F.ne_sign (by decide))) (fun t us hus => ?_) ?_
    · subst hus
      rw [List.length_cons] at hfuel hfuel'
      refine (ih.suffixed hs.toAllows (by omega) (by omega)).bind fun e rest hrest => ?_
      have hassignment : Inside F (Stmt.shift F.lines) 1 true
          (Grammar.assignment fuel s (e :: targets))
          (Grammar.assignment fuel' s' ((e :: targets).map (Expr.shift F.lines))) rest :=
        ih.assignment _ hs (by omega) (by omega)
      exact hassignment.weaken (Nat.zero_le _)
    · refine Inside.expect.bind fun _ rest hrest => ?_
      refine (ih.expressions hs.toAllows (by omega) (by omega)).bind fun values rest _ => ?_
      exact .lastLine_bind fun last => .pure (by simp)
  · exact .fail

end Steps

/-- Phrases are read inside other source as they are read on their own. -/
theorem readsInside (F : Surroundings) (fuel : Nat) : ReadsInside F fuel := by
  induction fuel with
  | zero => constructor <;> intros <;> omega
  | succ fuel ih =>
    constructor
    case expression =>
      intro fuel' s s' ts tightness hs hfuel hfuel'
      cases fuel' with
      | zero => omega
      | succ fuel' => exact ih.expression_succ tightness hs hfuel hfuel'
    case joined =>
      intro fuel' s s' ts tightness left hs hfuel hfuel'
      cases fuel' with
      | zero => omega
      | succ fuel' => exact ih.joined_succ tightness left hs hfuel hfuel'
    case simple =>
      intro fuel' s s' ts hs hfuel hfuel'
      cases fuel' with
      | zero => omega
      | succ fuel' => exact ih.simple_succ hs hfuel hfuel'
    case suffixed =>
      intro fuel' s s' ts hs hfuel hfuel'
      cases fuel' with
      | zero => omega
      | succ fuel' => exact ih.suffixed_succ hs hfuel hfuel'
    case suffixes =>
      intro fuel' s s' ts e hs hfuel hfuel'
      cases fuel' with
      | zero => omega
      | succ fuel' => exact ih.suffixes_succ e hs hfuel hfuel'
    case arguments =>
      intro fuel' s s' ts hs hfuel hfuel'
      cases fuel' with
      | zero => omega
      | succ fuel' => exact ih.arguments_succ hs hfuel hfuel'
    case expressions =>
      intro fuel' s s' ts hs hfuel hfuel'
      cases fuel' with
      | zero => omega
      | succ fuel' => exact ih.expressions_succ hs hfuel hfuel'
    case constructor =>
      intro fuel' s s' ts hs hfuel hfuel'
      cases fuel' with
      | zero => omega
      | succ fuel' => exact ih.constructor_succ hs hfuel hfuel'
    case fieldList =>
      intro fuel' s s' ts hs hfuel hfuel'
      cases fuel' with
      | zero => omega
      | succ fuel' => exact ih.fieldList_succ hs hfuel hfuel'
    case field =>
      intro fuel' s s' ts hs hfuel hfuel'
      cases fuel' with
      | zero => omega
      | succ fuel' => exact ih.field_succ hs hfuel hfuel'
    case functionBody =>
      intro fuel' s s' ts lead hs hfuel hfuel'
      cases fuel' with
      | zero => omega
      | succ fuel' => exact ih.functionBody_succ lead hs hfuel hfuel'
    case block =>
      intro fuel' s s' ts hs hfuel hfuel'
      cases fuel' with
      | zero => omega
      | succ fuel' => exact ih.block_succ hs hfuel hfuel'
    case statement =>
      intro fuel' s s' ts hs hfuel hfuel'
      cases fuel' with
      | zero => omega
      | succ fuel' => exact ih.statement_succ hs hfuel hfuel'
    case conditional =>
      intro fuel' s s' ts hs hfuel hfuel'
      cases fuel' with
      | zero => omega
      | succ fuel' => exact ih.conditional_succ hs hfuel hfuel'
    case loop =>
      intro fuel' s s' ts line hs hfuel hfuel'
      cases fuel' with
      | zero => omega
      | succ fuel' => exact ih.loop_succ line hs hfuel hfuel'
    case assignment =>
      intro fuel' s s' ts targets hs hfuel hfuel'
      cases fuel' with
      | zero => omega
      | succ fuel' => exact ih.assignment_succ targets hs hfuel hfuel'

end ScriptedViews.Script.Grammar

import Mathlib.Data.List.TakeWhile
import ScriptedViews.Json.Reader

set_option autoImplicit false

/-! # Numbers and strings in JSON texts

Which texts are numbers, and which stand between the quotes of a string, told without a reader: a
number by its parts, a string by how each unit of it is written. The readers read just what is
spelled, and stop where it ends. -/

namespace ScriptedViews.Json

/-! ## Numbers -/

/-- Whether all characters are decimal digits. -/
def AreDigits (cs : List Char) : Prop :=
  ∀ c ∈ cs, c.isDigit = true

/-- The digits before the point: zero, or digits that do not begin with zero. -/
inductive IsWhole : List Char → Prop where
  | zero : IsWhole ['0']
  | digits {d : Char} {ds : List Char} (hd : d.isDigit = true) (hne : d ≠ '0')
      (hds : AreDigits ds) : IsWhole (d :: ds)

/-- A point with digits after it, or nothing. -/
inductive IsFraction : List Char → Prop where
  | none : IsFraction []
  | digits {ds : List Char} (hne : ds ≠ []) (hds : AreDigits ds) : IsFraction ('.' :: ds)

/-- An exponent with its digits and perhaps a sign, or nothing. -/
inductive IsExponent : List Char → Prop where
  | none : IsExponent []
  | digits {e : Char} {sign ds : List Char} (he : e = 'e' ∨ e = 'E')
      (hsign : sign = [] ∨ sign = ['+'] ∨ sign = ['-']) (hne : ds ≠ []) (hds : AreDigits ds) :
      IsExponent (e :: (sign ++ ds))

/-- Whether a text is a number. -/
inductive IsNumber : List Char → Prop where
  | parts {sign whole fraction exponent : List Char} (hsign : sign = [] ∨ sign = ['-'])
      (hwhole : IsWhole whole) (hfraction : IsFraction fraction) (hexponent : IsExponent exponent) :
      IsNumber (sign ++ whole ++ fraction ++ exponent)

/-- Whether a number ends before the text: the text does not go on as one. -/
def EndsNumber (rest : List Char) : Prop :=
  ∀ c, rest.head? = some c → c.isDigit = false ∧ c ≠ '.' ∧ c ≠ 'e' ∧ c ≠ 'E'

/-- Whether a text does not begin with a digit. -/
def EndsDigits (rest : List Char) : Prop :=
  ∀ c, rest.head? = some c → c.isDigit = false

theorem EndsNumber.endsDigits {rest : List Char} (h : EndsNumber rest) : EndsDigits rest :=
  fun c hc => (h c hc).1

theorem takeDigits_append {ds rest : List Char} (hds : AreDigits ds) (hrest : EndsDigits rest) :
    takeDigits (ds ++ rest) = (ds, rest) := by
  have hstop : rest.takeWhile Char.isDigit = [] ∧ rest.dropWhile Char.isDigit = rest := by
    cases rest with
    | nil => exact ⟨rfl, rfl⟩
    | cons c rest => simp [hrest c rfl]
  rw [takeDigits, List.takeWhile_append_of_pos hds, List.dropWhile_append_of_pos hds, hstop.1,
    hstop.2, List.append_nil]

theorem append_of_takeDigits {cs ds rest : List Char} (h : takeDigits cs = (ds, rest)) :
    AreDigits ds ∧ cs = ds ++ rest := by
  cases h
  exact ⟨fun c hc => List.mem_takeWhile_imp hc, List.takeWhile_append_dropWhile.symm⟩

theorem digits?_append {ds rest : List Char} (hne : ds ≠ []) (hds : AreDigits ds)
    (hrest : EndsDigits rest) : digits? (ds ++ rest) = some (ds, rest) := by
  obtain ⟨d, ds, rfl⟩ := List.exists_cons_of_ne_nil hne
  rw [digits?, takeDigits_append hds hrest]

theorem append_of_digits? {cs ds rest : List Char} (h : digits? cs = some (ds, rest)) :
    ds ≠ [] ∧ AreDigits ds ∧ cs = ds ++ rest := by
  rw [digits?] at h
  split at h
  · cases h
  · rename_i r hne
    rw [Option.some.injEq] at h
    have hsplit := append_of_takeDigits h
    refine ⟨?_, hsplit⟩
    rintro rfl
    exact hne rest h

theorem intPart?_append {whole rest : List Char} (h : IsWhole whole) (hrest : EndsDigits rest) :
    intPart? (whole ++ rest) = some (whole, rest) := by
  cases h with
  | zero =>
    have hnone : rest.head?.any Char.isDigit = false := by
      cases rest with
      | nil => rfl
      | cons c rest => simp [hrest c rfl]
    simp [intPart?, hnone]
  | @digits d ds hd hne hds =>
    have hall : AreDigits (d :: ds) := by
      intro c hc
      rcases List.mem_cons.1 hc with rfl | hc
      · exact hd
      · exact hds c hc
    have hread := digits?_append (List.cons_ne_nil d ds) hall hrest
    rw [List.cons_append] at hread ⊢
    unfold intPart?
    split
    · rename_i heq
      exact absurd (List.cons.inj heq).1 hne
    · exact hread

theorem append_of_intPart? {cs whole rest : List Char} (h : intPart? cs = some (whole, rest)) :
    IsWhole whole ∧ cs = whole ++ rest := by
  unfold intPart? at h
  split at h
  · split at h
    · cases h
    · cases h
      exact ⟨.zero, rfl⟩
  · rename_i hzero
    obtain ⟨hne, hds, rfl⟩ := append_of_digits? h
    refine ⟨?_, rfl⟩
    obtain ⟨d, ds, rfl⟩ := List.exists_cons_of_ne_nil hne
    refine .digits (hds d List.mem_cons_self) ?_ fun c hc => hds c (List.mem_cons_of_mem d hc)
    rintro rfl
    exact hzero _ rfl

theorem fraction?_append {fraction rest : List Char} (h : IsFraction fraction)
    (hrest : EndsDigits rest) (hpoint : rest.head? ≠ some '.') :
    fraction? (fraction ++ rest) = some (fraction, rest) := by
  cases h with
  | none =>
    rw [List.nil_append]
    unfold fraction?
    split
    · exact absurd rfl hpoint
    · rfl
  | digits hne hds =>
    rw [List.cons_append, fraction?, digits?_append hne hds hrest]
    rfl

theorem append_of_fraction? {cs fraction rest : List Char}
    (h : fraction? cs = some (fraction, rest)) : IsFraction fraction ∧ cs = fraction ++ rest := by
  unfold fraction? at h
  split at h
  · obtain ⟨⟨ds, more⟩, hds, heq⟩ := Option.map_eq_some_iff.1 h
    obtain ⟨hne, hall, rfl⟩ := append_of_digits? hds
    cases heq
    exact ⟨.digits hne hall, rfl⟩
  · cases h
    exact ⟨.none, rfl⟩

theorem exponent?_append {exponent rest : List Char} (h : IsExponent exponent)
    (hrest : EndsNumber rest) : exponent? (exponent ++ rest) = some (exponent, rest) := by
  cases h with
  | none =>
    cases rest with
    | nil => rfl
    | cons c rest =>
      obtain ⟨-, -, he, hE⟩ := hrest c rfl
      simp [exponent?, he, hE]
  | @digits e sign ds he hsign hne hds =>
    have hread := digits?_append hne hds hrest.endsDigits
    obtain ⟨d, more, rfl⟩ := List.exists_cons_of_ne_nil hne
    have hd := hds d List.mem_cons_self
    rcases hsign with rfl | rfl | rfl
    · have hplus : d ≠ '+' := by
        rintro rfl
        cases hd
      have hminus : d ≠ '-' := by
        rintro rfl
        cases hd
      simp only [List.nil_append, List.cons_append] at hread ⊢
      simp [exponent?, he, hplus, hminus, hread]
    · simp [exponent?, he] at hread ⊢
      simp [hread]
    · simp [exponent?, he] at hread ⊢
      simp [hread]

theorem append_of_exponent? {cs exponent rest : List Char}
    (h : exponent? cs = some (exponent, rest)) : IsExponent exponent ∧ cs = exponent ++ rest := by
  unfold exponent? at h
  split at h
  · rename_i e cs
    split at h
    · rename_i he
      split at h
      · rename_i sign cs
        split at h
        · rename_i hsign
          obtain ⟨⟨ds, more⟩, hds, heq⟩ := Option.map_eq_some_iff.1 h
          obtain ⟨hne, hall, rfl⟩ := append_of_digits? hds
          cases heq
          have hone : [sign] = [] ∨ [sign] = ['+'] ∨ [sign] = ['-'] := by simpa using hsign
          exact ⟨.digits he hone hne hall, rfl⟩
        · obtain ⟨⟨ds, more⟩, hds, heq⟩ := Option.map_eq_some_iff.1 h
          obtain ⟨hne, hall, hcs⟩ := append_of_digits? hds
          cases heq
          have hnone : ([] : List Char) = [] ∨ ([] : List Char) = ['+'] ∨ ([] : List Char) = ['-'] :=
            .inl rfl
          exact ⟨.digits he hnone hne hall, by rw [hcs]; rfl⟩
      · cases h
    · cases h
      exact ⟨.none, rfl⟩
  · cases h
    exact ⟨.none, rfl⟩

/-- What a fraction or an exponent begins with ends digits. -/
theorem IsExponent.endsDigits {exponent rest : List Char} (h : IsExponent exponent)
    (hrest : EndsNumber rest) :
    EndsDigits (exponent ++ rest) ∧ (exponent ++ rest).head? ≠ some '.' := by
  cases h with
  | none =>
    rw [List.nil_append]
    exact ⟨hrest.endsDigits, fun heq => (hrest '.' heq).2.1 rfl⟩
  | digits he hsign hne hds =>
    rcases he with rfl | rfl <;> simp [EndsDigits]

theorem IsFraction.endsDigits {fraction rest : List Char} (h : IsFraction fraction)
    (hrest : EndsDigits rest) : EndsDigits (fraction ++ rest) := by
  cases h with
  | none => exact hrest
  | digits hne hds => simp [EndsDigits]

theorem number?_append {cs rest : List Char} (h : IsNumber cs) (hrest : EndsNumber rest) :
    number? (cs ++ rest) = some (cs, rest) := by
  cases h with
  | @parts sign whole fraction exponent hsign hwhole hfraction hexponent =>
    obtain ⟨hdigits, hpoint⟩ := hexponent.endsDigits hrest
    have hread := intPart?_append hwhole (hfraction.endsDigits hdigits)
    have hread' := fraction?_append hfraction hdigits hpoint
    have hread'' := exponent?_append hexponent hrest
    rcases hsign with rfl | rfl
    · have hplain : ∀ more, whole ++ (fraction ++ (exponent ++ rest)) ≠ '-' :: more := by
        intro more heq
        cases hwhole with
        | zero => cases heq
        | digits hd _ _ =>
          rw [List.cons_append, List.cons.injEq] at heq
          rw [heq.1] at hd
          cases hd
      simp only [List.append_assoc, List.nil_append]
      unfold number?
      split
      rename_i sign more hsplit
      split at hsplit
      · rename_i heq
        exact absurd heq (hplain _)
      · cases hsplit
        simp [hread, hread', hread'']
    · simp [number?, hread, hread', hread'']

theorem append_of_number? {cs number rest : List Char} (h : number? cs = some (number, rest)) :
    IsNumber number ∧ cs = number ++ rest := by
  unfold number? at h
  split at h
  rename_i sign more hsplit
  have hsign : (sign = [] ∨ sign = ['-']) ∧ cs = sign ++ more := by
    split at hsplit
    · cases hsplit
      exact ⟨.inr rfl, rfl⟩
    · cases hsplit
      exact ⟨.inl rfl, rfl⟩
  simp only [Option.bind_eq_bind, Option.bind_eq_some_iff, Prod.exists] at h
  obtain ⟨whole, cs₁, h₁, fraction, cs₂, h₂, exponent, cs₃, h₃, heq⟩ := h
  obtain ⟨hwhole, rfl⟩ := append_of_intPart? h₁
  obtain ⟨hfraction, rfl⟩ := append_of_fraction? h₂
  obtain ⟨hexponent, rfl⟩ := append_of_exponent? h₃
  cases heq
  exact ⟨.parts hsign.1 hwhole hfraction hexponent, by rw [hsign.2]; simp⟩

/-! ## Strings -/

/-- What four hexadecimal digits stand for: a character, or half of a surrogate pair. -/
def unitOf (code : Nat) : StringUnit :=
  if 0xd800 ≤ code ∧ code ≤ 0xdfff then .half code else .char (Char.ofNat code)

/-- How a unit of a string is written: as it is, after a backslash, or by its code. -/
inductive SpellsUnit : StringUnit → List Char → Prop where
  | plain {c : Char} (hquote : c ≠ '"') (hslash : c ≠ '\\') (hcontrol : 0x20 ≤ c.toNat) :
      SpellsUnit (.char c) [c]
  | short {e c : Char} (he : simpleEscape? e = some c) : SpellsUnit (.char c) ['\\', e]
  | code {a b c d : Char} {w x y z : Nat} (ha : hexDigit? a = some w) (hb : hexDigit? b = some x)
      (hc : hexDigit? c = some y) (hd : hexDigit? d = some z) :
      SpellsUnit (unitOf (((w * 16 + x) * 16 + y) * 16 + z)) ['\\', 'u', a, b, c, d]

/-- How the units of a string are written, one after the other. -/
inductive SpellsUnits : List StringUnit → List Char → Prop where
  | nil : SpellsUnits [] []
  | cons {u : StringUnit} {us : List StringUnit} {cs ds : List Char} (hu : SpellsUnit u cs)
      (hus : SpellsUnits us ds) : SpellsUnits (u :: us) (cs ++ ds)

/-- Whether a text is what stands between the quotes of a string. A string is no text if it holds
    half of a surrogate pair. -/
def SpellsString (s : Option String) (cs : List Char) : Prop :=
  ∃ us, SpellsUnits us cs ∧ (pairUp us).map String.ofList = s

/-- One unit is read at a time. -/
theorem units?_cons {u : StringUnit} {cs : List Char} (h : SpellsUnit u cs) (fuel : Nat)
    (rest : List Char) :
    units? (fuel + 1) (cs ++ rest) = (units? fuel rest).map fun r => (u :: r.1, r.2) := by
  rw [units?.eq_def (fuel + 1)]
  cases h with
  | plain hquote hslash hcontrol =>
    rw [List.singleton_append]
    dsimp only
    rw [if_neg hquote, if_neg (by omega), if_neg hslash]
    cases units? fuel rest <;> rfl
  | @short e c he =>
    have hu : e ≠ 'u' := by
      rintro rfl
      cases he
    simp [he]
    cases units? fuel rest <;> rfl
  | code ha hb hc hd =>
    simp [hexFour?, ha, hb, hc, hd]
    cases units? fuel rest <;> rfl

theorem SpellsUnit.ne_nil {u : StringUnit} {cs : List Char} (h : SpellsUnit u cs) : cs ≠ [] := by
  cases h <;> exact List.cons_ne_nil _ _

theorem units?_append {us : List StringUnit} {cs : List Char} (h : SpellsUnits us cs) {fuel : Nat}
    (hfuel : cs.length < fuel) (rest : List Char) :
    units? fuel (cs ++ '"' :: rest) = some (us, rest) := by
  induction h generalizing fuel with
  | nil =>
    obtain ⟨fuel, rfl⟩ := Nat.exists_eq_add_one_of_ne_zero (Nat.ne_zero_of_lt hfuel)
    simp [units?]
  | @cons u us cs ds hu _ ih =>
    obtain ⟨fuel, rfl⟩ := Nat.exists_eq_add_one_of_ne_zero (Nat.ne_zero_of_lt hfuel)
    have hlength := List.length_pos_iff.2 hu.ne_nil
    rw [List.length_append] at hfuel
    rw [List.append_assoc, units?_cons hu, ih (by omega)]
    rfl

theorem append_of_hexFour? {cs rest : List Char} {code : Nat} (h : hexFour? cs = some (code, rest)) :
    ∃ a b c d w x y z, cs = a :: b :: c :: d :: rest ∧ hexDigit? a = some w ∧ hexDigit? b = some x
      ∧ hexDigit? c = some y ∧ hexDigit? d = some z ∧ code = ((w * 16 + x) * 16 + y) * 16 + z := by
  unfold hexFour? at h
  split at h
  · simp only [Option.bind_eq_bind, Option.bind_eq_some_iff] at h
    obtain ⟨w, hw, x, hx, y, hy, z, hz, heq⟩ := h
    cases heq
    exact ⟨_, _, _, _, w, x, y, z, rfl, hw, hx, hy, hz, rfl⟩
  · cases h

theorem append_of_units? {fuel : Nat} {cs rest : List Char} {us : List StringUnit}
    (h : units? fuel cs = some (us, rest)) :
    ∃ body, SpellsUnits us body ∧ cs = body ++ '"' :: rest := by
  induction fuel generalizing cs us with
  | zero => cases h
  | succ fuel ih =>
    rw [units?.eq_def (fuel + 1)] at h
    cases cs with
    | nil => cases h
    | cons c cs =>
      dsimp only at h
      split at h
      · rename_i hc
        subst hc
        cases h
        exact ⟨[], .nil, rfl⟩
      · rename_i hquote
        split at h
        · cases h
        · rename_i hcontrol
          split at h
          · rename_i hslash
            subst hslash
            split at h
            · rename_i cs
              simp only [Option.bind_eq_bind, Option.bind_eq_some_iff, Prod.exists] at h
              obtain ⟨code, more, hcode, us', rest', hrest, heq⟩ := h
              cases heq
              obtain ⟨a, b, c, d, w, x, y, z, rfl, ha, hb, hc, hd, rfl⟩ := append_of_hexFour? hcode
              obtain ⟨body, hbody, rfl⟩ := ih hrest
              exact ⟨_, .cons (.code ha hb hc hd) hbody, rfl⟩
            · simp only [Option.bind_eq_bind, Option.bind_eq_some_iff, Prod.exists] at h
              obtain ⟨c, hc, us', rest', hrest, heq⟩ := h
              cases heq
              obtain ⟨body, hbody, rfl⟩ := ih hrest
              exact ⟨_, .cons (.short hc) hbody, rfl⟩
            · cases h
          · rename_i hslash
            simp only [Option.bind_eq_bind, Option.bind_eq_some_iff, Prod.exists] at h
            obtain ⟨us', rest', hrest, heq⟩ := h
            cases heq
            obtain ⟨body, hbody, rfl⟩ := ih hrest
            exact ⟨_, .cons (.plain hquote hslash (by omega)) hbody, rfl⟩

theorem stringBody?_append {s : Option String} {cs : List Char} (h : SpellsString s cs)
    (rest : List Char) : stringBody? (cs ++ '"' :: rest) = some (s, rest) := by
  obtain ⟨us, hus, rfl⟩ := h
  rw [stringBody?, units?_append hus (by rw [List.length_append]; omega)]
  rfl

theorem append_of_stringBody? {s : Option String} {cs rest : List Char}
    (h : stringBody? cs = some (s, rest)) :
    ∃ body, SpellsString s body ∧ cs = body ++ '"' :: rest := by
  obtain ⟨⟨us, more⟩, hus, heq⟩ := Option.map_eq_some_iff.1 h
  obtain ⟨body, hbody, rfl⟩ := append_of_units? hus
  cases heq
  exact ⟨body, ⟨us, hbody, rfl⟩, rfl⟩

end ScriptedViews.Json

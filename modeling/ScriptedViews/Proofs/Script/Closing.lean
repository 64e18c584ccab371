import ScriptedViews.Script.Token

set_option autoImplicit false

/-! # Bytes that end a token

A closing parenthesis, a space or a line feed goes on with no token: what stands before one of them is
scanned as it is on its own, whatever comes after it. Only the lines differ, by the line that the
source starts on. Blanks are another matter: a line feed may belong to the line end before it. -/

namespace ScriptedViews.Script

/-! ## Closing bytes -/

/-- Whether a byte ends whatever token stands before it: a closing parenthesis, a space or a line
    feed. -/
def IsClosing (c : UInt8) : Prop :=
  c = 0x29 ∨ c = 0x20 ∨ c = 0x0a

namespace IsClosing

variable {c : UInt8} (hc : IsClosing c)

include hc

theorem not_name : isNameByte c = false := by
  rcases hc with rfl | rfl | rfl <;> rfl

theorem not_alpha : isAlphaByte c = false := by
  rcases hc with rfl | rfl | rfl <;> rfl

theorem not_digit : isDigitByte c = false := by
  rcases hc with rfl | rfl | rfl <;> rfl

theorem not_hex : isHexByte c = false := by
  rcases hc with rfl | rfl | rfl <;> rfl

theorem ne_equal : c ≠ 0x3d := by
  rcases hc with rfl | rfl | rfl <;> decide

theorem ne_leftBracket : 0x5b ≠ c := by
  rcases hc with rfl | rfl | rfl <;> decide

theorem ne_rightBracket : 0x5d ≠ c := by
  rcases hc with rfl | rfl | rfl <;> decide

/-- No sign goes on with it. -/
theorem not_mem_sign : ∀ w ∈ signs, c ∉ w.1.tail := by
  rcases hc with rfl | rfl | rfl <;> decide

end IsClosing

/-! ## Blanks -/

theorem length_afterNewline_le (b : UInt8) (bs : Bytes) :
    (afterNewline b bs).length ≤ bs.length := by
  cases bs with
  | nil => exact Nat.le_refl _
  | cons c bs =>
    rw [afterNewline]
    split
    · exact Nat.le_succ _
    · exact Nat.le_refl _

/-- As many steps as there are bytes are enough to skip blanks. -/
theorem skipBlank_of_le {fuel fuel' line : Nat} {bs : Bytes} (hfuel : bs.length ≤ fuel)
    (hfuel' : bs.length ≤ fuel') : skipBlank fuel line bs = skipBlank fuel' line bs := by
  induction fuel generalizing fuel' line bs with
  | zero =>
    obtain rfl : bs = [] := List.length_eq_zero_iff.1 (Nat.le_zero.1 hfuel)
    cases fuel' <;> rfl
  | succ fuel ih =>
    cases bs with
    | nil => cases fuel' <;> rfl
    | cons b bs =>
      obtain ⟨fuel', rfl⟩ : ∃ n, fuel' = n + 1 := ⟨fuel' - 1, by simp only [List.length_cons] at hfuel'; omega⟩
      have hafter := length_afterNewline_le b bs
      simp only [List.length_cons] at hfuel hfuel'
      have hnewline : skipBlank fuel (line + 1) (afterNewline b bs)
          = skipBlank fuel' (line + 1) (afterNewline b bs) := ih (by omega) (by omega)
      have hspace : skipBlank fuel line bs = skipBlank fuel' line bs := ih (by omega) (by omega)
      rw [skipBlank, skipBlank, hnewline, hspace]

/-- What blanks are followed by is no blank. -/
theorem not_blank_of_skipBlank {fuel line l : Nat} {b : UInt8} {bs r : Bytes}
    (h : skipBlank fuel line bs = (l, b :: r)) (hfuel : bs.length ≤ fuel) :
    ¬ isNewlineByte b = true ∧ ¬ isSpaceByte b = true := by
  induction fuel generalizing line bs with
  | zero =>
    obtain rfl : bs = [] := List.length_eq_zero_iff.1 (Nat.le_zero.1 hfuel)
    cases h
  | succ fuel ih =>
    cases bs with
    | nil => cases h
    | cons e bs =>
      have hafter := length_afterNewline_le e bs
      simp only [List.length_cons] at hfuel
      rw [skipBlank] at h
      by_cases hnewline : isNewlineByte e = true
      · rw [if_pos hnewline] at h
        exact ih h (by omega)
      rw [if_neg hnewline] at h
      by_cases hspace : isSpaceByte e = true
      · rw [if_pos hspace] at h
        exact ih h (by omega)
      · rw [if_neg hspace] at h
        cases h
        exact ⟨hnewline, hspace⟩

section Bytes

variable {c : UInt8} (rest : Bytes) {p : UInt8 → Bool} (hp : p c = false)

include hp

theorem takeWhile_append_of_not (bs : Bytes) : (bs ++ c :: rest).takeWhile p = bs.takeWhile p := by
  induction bs with
  | nil => simp [hp]
  | cons b bs ih => rw [List.cons_append, List.takeWhile_cons, List.takeWhile_cons, ih]

theorem dropWhile_append_of_not (bs : Bytes) :
    (bs ++ c :: rest).dropWhile p = bs.dropWhile p ++ c :: rest := by
  induction bs with
  | nil => simp [hp]
  | cons b bs ih =>
    rw [List.cons_append, List.dropWhile_cons, List.dropWhile_cons, ih]
    split <;> rfl

end Bytes

theorem exists_of_bind_eq_ok {α β ε : Type} {m : Except ε α} {f : α → Except ε β} {b : β}
    (h : (m >>= f) = .ok b) : ∃ a, m = .ok a ∧ f a = .ok b := by
  cases m with
  | error e => cases h
  | ok a => exact ⟨a, rfl, h⟩

theorem readQuoted_nil {quote : UInt8} {fuel line : Nat} {v : Bytes × Nat × Bytes} :
    readQuoted quote fuel line [] ≠ .ok v := by
  cases fuel <;> exact fun h => by cases h

theorem readLong_nil {level fuel line : Nat} {v : Bytes × Nat × Bytes} :
    readLong level fuel line [] ≠ .ok v := by
  cases fuel <;> exact fun h => by cases h

section Closed

variable {c : UInt8} (hc : IsClosing c) (d : Nat) (rest : Bytes)

include hc

omit hc in
/-- A line end that ends before the end of a piece ends there. -/
theorem afterNewline_append (b : UInt8) {bs : Bytes} (h : bs ≠ [] ∨ isNewlineByte c = false) :
    afterNewline b (bs ++ c :: rest) = afterNewline b bs ++ c :: rest := by
  cases bs with
  | nil => simp [afterNewline, h.resolve_left (by simp)]
  | cons e bs =>
    rw [List.cons_append, afterNewline, afterNewline]
    split <;> rfl

omit hc in
theorem ne_nil_of_afterNewline {b : UInt8} {bs : Bytes} (h : afterNewline b bs ≠ []) : bs ≠ [] := by
  rintro rfl
  exact h rfl

omit hc in
theorem skipBlank_nil (fuel line : Nat) : skipBlank fuel line [] = (line, []) := by
  cases fuel <;> rfl

omit hc in
/-- Blanks are skipped up to where they end on their own, and on from there, unless the line end that
    they end with goes on. -/
theorem skipBlank_append {fuel fuel' fuel'' line l : Nat} {bs r : Bytes}
    (h : skipBlank fuel line bs = (l, r)) (hend : r ≠ [] ∨ isNewlineByte c = false)
    (hfuel : bs.length ≤ fuel) (hfuel' : (bs ++ c :: rest).length ≤ fuel')
    (hfuel'' : (r ++ c :: rest).length ≤ fuel'') :
    skipBlank fuel' (line + d) (bs ++ c :: rest) = skipBlank fuel'' (l + d) (r ++ c :: rest) := by
  induction fuel generalizing fuel' line bs with
  | zero =>
    obtain rfl : bs = [] := List.length_eq_zero_iff.1 (Nat.le_zero.1 hfuel)
    cases h
    exact skipBlank_of_le hfuel' hfuel''
  | succ fuel ih =>
    cases bs with
    | nil =>
      cases h
      exact skipBlank_of_le hfuel' hfuel''
    | cons b bs =>
      obtain ⟨fuel', rfl⟩ : ∃ n, fuel' = n + 1 :=
        ⟨fuel' - 1, by simp only [List.cons_append, List.length_cons] at hfuel'; omega⟩
      have hafter := length_afterNewline_le b bs
      simp only [List.cons_append, List.length_cons, List.length_append] at hfuel hfuel'
      rw [skipBlank] at h
      rw [List.cons_append, skipBlank]
      by_cases hnewline : isNewlineByte b = true
      · rw [if_pos hnewline] at h ⊢
        have hbs : bs ≠ [] ∨ isNewlineByte c = false := hend.imp_left fun hr => by
          rintro rfl
          rw [afterNewline, skipBlank_nil] at h
          cases h
          exact hr rfl
        rw [afterNewline_append rest b hbs, Nat.add_right_comm]
        exact ih h (by omega) (by simp only [List.length_append, List.length_cons]; omega)
      · rw [if_neg hnewline] at h ⊢
        by_cases hspace : isSpaceByte b = true
        · rw [if_pos hspace] at h ⊢
          exact ih h (by omega) (by simp only [List.length_append, List.length_cons]; omega)
        · rw [if_neg hspace] at h ⊢
          cases h
          rw [List.cons_append]
          obtain ⟨fuel'', rfl⟩ : ∃ n, fuel'' = n + 1 :=
            ⟨fuel'' - 1, by simp only [List.cons_append, List.length_cons] at hfuel''; omega⟩
          rw [skipBlank, if_neg hnewline, if_neg hspace]

omit hc in
/-- Blanks that end inside a piece of source end there. -/
theorem skipBlank_append_of_ne_nil {fuel fuel' line l : Nat} {bs r : Bytes}
    (h : skipBlank fuel line bs = (l, r)) (hr : r ≠ []) (hfuel : bs.length ≤ fuel)
    (hfuel' : (bs ++ c :: rest).length ≤ fuel') :
    skipBlank fuel' (line + d) (bs ++ c :: rest) = (l + d, r ++ c :: rest) := by
  obtain ⟨b, r, rfl⟩ := List.exists_cons_of_ne_nil hr
  obtain ⟨hnewline, hspace⟩ := not_blank_of_skipBlank h hfuel
  rw [skipBlank_append d rest h (.inl hr) hfuel hfuel' (Nat.le_refl _), List.cons_append,
    List.length_cons, skipBlank, if_neg hnewline, if_neg hspace]

/-! ## Quoted text -/

theorem unicodeEscape_append {line l : Nat} {bs x r : Bytes}
    (h : unicodeEscape line bs = .ok (x, l, r)) :
    unicodeEscape (line + d) (bs ++ c :: rest) = .ok (x, l + d, r ++ c :: rest) := by
  unfold unicodeEscape at h ⊢
  split at h
  · rename_i bs
    rw [List.cons_append]
    simp only at h ⊢
    split at h
    · rename_i r' hr
      rw [dropWhile_append_of_not rest hc.not_hex, takeWhile_append_of_not rest hc.not_hex, hr,
        List.cons_append]
      simp only
      split at h
      · cases h
      · rename_i hne
        rw [if_neg hne]
        split at h
        · rename_i hv
          cases h
          rw [if_pos hv]
        · cases h
    · cases h
  · cases h

omit hc in
theorem hexEscape_append {line l : Nat} {bs x r : Bytes} (h : hexEscape line bs = .ok (x, l, r)) :
    hexEscape (line + d) (bs ++ c :: rest) = .ok (x, l + d, r ++ c :: rest) := by
  unfold hexEscape at h ⊢
  split at h
  · rw [List.cons_append, List.cons_append]
    simp only
    split at h
    · rename_i hhex
      cases h
      rw [if_pos hhex]
    · cases h
  · cases h

theorem decimalEscape_append {line l : Nat} {bs x r : Bytes}
    (h : decimalEscape line bs = .ok (x, l, r)) :
    decimalEscape (line + d) (bs ++ c :: rest) = .ok (x, l + d, r ++ c :: rest) := by
  have hds : ((bs ++ c :: rest).take 3).takeWhile isDigitByte = (bs.take 3).takeWhile isDigitByte := by
    rw [List.take_append]
    cases hcount : 3 - bs.length with
    | zero => rw [List.take_zero, List.append_nil]
    | succ count => rw [List.take_succ_cons, takeWhile_append_of_not _ hc.not_digit]
  have hlength : ((bs.take 3).takeWhile isDigitByte).length ≤ bs.length := by
    have h₁ := (List.takeWhile_sublist isDigitByte (l := bs.take 3)).length_le
    have h₂ := List.length_take_le' 3 bs
    omega
  simp only [decimalEscape, hds] at h ⊢
  split at h
  · rename_i hv
    cases h
    rw [if_pos hv, List.drop_append_of_le_length hlength]
  · cases h

/-- An escape is read as it is on its own, if that is not the end of the source. -/
theorem readEscape_append {line l : Nat} {bs x r : Bytes} (h : readEscape line bs = .ok (x, l, r))
    (hr : r ≠ []) : readEscape (line + d) (bs ++ c :: rest) = .ok (x, l + d, r ++ c :: rest) := by
  cases bs with
  | nil => cases h
  | cons b bs =>
    rw [readEscape] at h
    rw [List.cons_append, readEscape]
    cases hb : simpleEscape? b with
    | some e =>
      simp only [hb] at h ⊢
      cases h
      rfl
    | none =>
      simp only [hb] at h ⊢
      by_cases hnewline : isNewlineByte b = true
      · rw [if_pos hnewline] at h ⊢
        cases h
        rw [afterNewline_append rest b (.inl (ne_nil_of_afterNewline hr)), Nat.add_right_comm]
      rw [if_neg hnewline] at h ⊢
      by_cases hx : b = 0x78
      · rw [if_pos hx] at h ⊢
        exact hexEscape_append d rest h
      rw [if_neg hx] at h ⊢
      by_cases hz : b = 0x7a
      · rw [if_pos hz] at h ⊢
        simp only [Except.ok.injEq, Prod.mk.injEq] at h
        obtain ⟨rfl, hskip⟩ := h
        rw [skipBlank_append_of_ne_nil d rest hskip hr (Nat.le_refl _) (Nat.le_refl _)]
      rw [if_neg hz] at h ⊢
      by_cases hu : b = 0x75
      · rw [if_pos hu] at h ⊢
        exact unicodeEscape_append hc d rest h
      rw [if_neg hu] at h ⊢
      by_cases hd : isDigitByte b = true
      · rw [if_pos hd] at h ⊢
        exact decimalEscape_append hc d rest h
      · rw [if_neg hd] at h
        cases h

/-- Quoted text is read as it is on its own. -/
theorem readQuoted_append {quote : UInt8} {fuel fuel' line l : Nat} {bs x r : Bytes}
    (h : readQuoted quote fuel line bs = .ok (x, l, r)) (hfuel : fuel ≤ fuel') :
    readQuoted quote fuel' (line + d) (bs ++ c :: rest) = .ok (x, l + d, r ++ c :: rest) := by
  induction fuel generalizing fuel' line bs x with
  | zero => cases h
  | succ fuel ih =>
    obtain ⟨fuel', rfl⟩ : ∃ n, fuel' = n + 1 := ⟨fuel' - 1, by omega⟩
    cases bs with
    | nil => cases h
    | cons b bs =>
      rw [readQuoted] at h
      rw [List.cons_append, readQuoted]
      by_cases hquote : b = quote
      · rw [if_pos hquote] at h ⊢
        cases h
        rfl
      rw [if_neg hquote] at h ⊢
      by_cases hnewline : isNewlineByte b = true
      · rw [if_pos hnewline] at h
        cases h
      rw [if_neg hnewline] at h ⊢
      by_cases hslash : b = 0x5c
      · rw [if_pos hslash] at h ⊢
        obtain ⟨⟨e, l₁, r₁⟩, hescape, h⟩ := exists_of_bind_eq_ok h
        obtain ⟨⟨more, l₂, r₂⟩, hmore, h⟩ := exists_of_bind_eq_ok h
        cases h
        have hr₁ : r₁ ≠ [] := by
          rintro rfl
          exact readQuoted_nil hmore
        rw [readEscape_append hc d rest hescape hr₁]
        show (readQuoted quote fuel' (l₁ + d) (r₁ ++ c :: rest) >>= _) = _
        rw [ih hmore (by omega)]
        rfl
      · rw [if_neg hslash] at h ⊢
        obtain ⟨⟨more, l₁, r₁⟩, hmore, h⟩ := exists_of_bind_eq_ok h
        cases h
        rw [ih hmore (by omega)]
        rfl

/-! ## Long text -/

omit hc in
theorem longBracket?_append {bracket : UInt8} (hb : bracket ≠ c) (heq : c ≠ 0x3d) (bs : Bytes) :
    longBracket? bracket (bs ++ c :: rest)
      = (longBracket? bracket bs).map fun r => (r.1, r.2 ++ c :: rest) := by
  have hp : (c == 0x3d) = false := beq_eq_false_iff_ne.2 heq
  unfold longBracket?
  rw [dropWhile_append_of_not (p := (· == 0x3d)) rest hp,
    takeWhile_append_of_not (p := (· == 0x3d)) rest hp]
  cases bs.dropWhile (· == 0x3d) with
  | nil => simp [Ne.symm hb]
  | cons b bs =>
    simp only [List.cons_append]
    split <;> rfl

/-- Text in long brackets is read as it is on its own. -/
theorem readLong_append {level fuel fuel' line l : Nat} {bs x r : Bytes}
    (h : readLong level fuel line bs = .ok (x, l, r)) (hfuel : fuel ≤ fuel') :
    readLong level fuel' (line + d) (bs ++ c :: rest) = .ok (x, l + d, r ++ c :: rest) := by
  induction fuel generalizing fuel' line bs x with
  | zero => cases h
  | succ fuel ih =>
    obtain ⟨fuel', rfl⟩ : ∃ n, fuel' = n + 1 := ⟨fuel' - 1, by omega⟩
    cases bs with
    | nil => cases h
    | cons b bs =>
      have hmore {out : UInt8} {line : Nat} {bs x : Bytes}
          (h : (readLong level fuel line bs >>= fun v => pure (out :: v.1, v.2.1, v.2.2)) = .ok (x, l, r)) :
          (readLong level fuel' (line + d) (bs ++ c :: rest)
            >>= fun v => pure (out :: v.1, v.2.1, v.2.2)) = (.ok (x, l + d, r ++ c :: rest) : Escaped) := by
        obtain ⟨⟨y, l₁, r₁⟩, hread, h⟩ := exists_of_bind_eq_ok h
        cases h
        rw [ih hread (by omega)]
        rfl
      rw [readLong] at h
      rw [List.cons_append, readLong]
      by_cases hbracket : b = 0x5d
      · rw [if_pos hbracket] at h ⊢
        rw [longBracket?_append rest hc.ne_rightBracket hc.ne_equal]
        cases hlong : longBracket? 0x5d bs with
        | none =>
          rw [hlong] at h
          exact hmore h
        | some v =>
          obtain ⟨n, r'⟩ := v
          simp only [hlong, Option.map_some] at h ⊢
          by_cases hn : n = level
          · rw [if_pos hn] at h ⊢
            cases h
            rfl
          · rw [if_neg hn] at h ⊢
            exact hmore h
      rw [if_neg hbracket] at h ⊢
      by_cases hnewline : isNewlineByte b = true
      · rw [if_pos hnewline] at h ⊢
        have hbs : bs ≠ [] := by
          rintro rfl
          obtain ⟨v, hread, -⟩ := exists_of_bind_eq_ok h
          exact readLong_nil hread
        rw [afterNewline_append rest b (.inl hbs), Nat.add_right_comm]
        exact hmore h
      · rw [if_neg hnewline] at h ⊢
        exact hmore h

theorem readLongBody_append {level line l : Nat} {bs x r : Bytes}
    (h : readLongBody level line bs = .ok (x, l, r)) :
    readLongBody level (line + d) (bs ++ c :: rest) = .ok (x, l + d, r ++ c :: rest) := by
  cases bs with
  | nil => cases h
  | cons b bs =>
    have hlength : bs.length + 1 + 1 ≤ (bs ++ c :: rest).length + 1 + 1 := by simp
    unfold readLongBody at h ⊢
    rw [List.cons_append]
    simp only [List.length_cons] at h ⊢
    split at h
    · rename_i hnewline
      have hbs : bs ≠ [] := by
        rintro rfl
        exact readLong_nil h
      rw [if_pos hnewline, afterNewline_append rest b (.inl hbs), Nat.add_right_comm line]
      exact readLong_append hc d rest h hlength
    · rename_i hnewline
      rw [if_neg hnewline, ← List.cons_append]
      exact readLong_append hc d rest h hlength

/-! ## Numerals -/

theorem numeralBytes_append {mark : UInt8} (hmark : mark = 0x65 ∨ mark = 0x70) (afterMark : Bool)
    (bs : Bytes) : numeralBytes mark afterMark (bs ++ c :: rest)
      = ((numeralBytes mark afterMark bs).1, (numeralBytes mark afterMark bs).2 ++ c :: rest) := by
  induction bs generalizing afterMark with
  | nil =>
    rw [List.nil_append, numeralBytes, numeralBytes]
    rcases hmark with rfl | rfl <;> rcases hc with rfl | rfl | rfl <;> cases afterMark <;> rfl
  | cons b bs ih =>
    rw [List.cons_append, numeralBytes, numeralBytes]
    split
    · simp only [ih]
    · split
      · simp only [ih]
      · rfl

theorem hexBody?_append {bs : Bytes} (hbs : bs ≠ []) :
    hexBody? (bs ++ c :: rest) = (hexBody? bs).map (· ++ c :: rest) := by
  match bs with
  | [a] =>
    have hx : ¬ (a = 0x30 ∧ (c = 0x78 ∨ c = 0x58)) := by
      rcases hc with rfl | rfl | rfl <;> simp
    simp [hexBody?, hx]
  | a :: b :: bs =>
    simp only [List.cons_append, hexBody?]
    split <;> rfl

theorem numeralSpan_append {bs : Bytes} (hbs : bs ≠ []) : numeralSpan (bs ++ c :: rest)
    = ((numeralSpan bs).1, (numeralSpan bs).2 ++ c :: rest) := by
  unfold numeralSpan
  rw [hexBody?_append hc rest hbs]
  cases hbody : hexBody? bs with
  | none => exact numeralBytes_append hc rest (.inl rfl) false bs
  | some body =>
    have htake : (bs ++ c :: rest).take 2 = bs.take 2 := by
      match bs with
      | [a] => cases hbody
      | a :: b :: bs => rfl
    simp only [Option.map_some, numeralBytes_append hc rest (.inr rfl), htake]

theorem readNumeral_append (lead : Bytes) {bs : Bytes} (hbs : bs ≠ []) {symbol : Symbol} {r : Bytes}
    (h : readNumeral lead bs = (symbol, r)) (hgood : ∀ reason, symbol ≠ .bad reason) :
    readNumeral lead (bs ++ c :: rest) = (symbol, r ++ c :: rest) := by
  unfold readNumeral at h ⊢
  rw [numeralSpan_append hc rest hbs]
  cases hn : readNumber? (lead ++ (numeralSpan bs).1) with
  | none =>
    simp only [hn] at h
    cases h
    exact absurd rfl (hgood _)
  | some n =>
    simp only [hn] at h ⊢
    cases hr : (numeralSpan bs).2 with
    | nil =>
      simp only [hr, Bool.false_eq_true, if_false] at h
      cases h
      simp [hc.not_alpha]
    | cons b bs =>
      simp only [hr] at h
      simp only [List.cons_append]
      split at h
      · cases h
        exact absurd rfl (hgood _)
      · rename_i halpha
        cases h
        rw [if_neg halpha, List.cons_append]

/-! ## Signs -/

omit hc in
theorem afterBytes?_append {w : Bytes} (hw : c ∉ w) (bs : Bytes) :
    afterBytes? w (bs ++ c :: rest) = (afterBytes? w bs).map (· ++ c :: rest) := by
  induction w generalizing bs with
  | nil => simp [afterBytes?]
  | cons b w ih =>
    obtain ⟨hb, hw⟩ := not_or.1 (fun h => hw (List.mem_cons.2 h))
    cases bs with
    | nil => simp [afterBytes?, Ne.symm hb]
    | cons e bs =>
      rw [List.cons_append, afterBytes?, afterBytes?]
      split
      · exact ih hw bs
      · rfl

theorem readSign_append {bs : Bytes} (hbs : bs ≠ []) {symbol : Symbol} {r : Bytes}
    (h : readSign bs = (symbol, r)) (hgood : ∀ reason, symbol ≠ .bad reason) :
    readSign (bs ++ c :: rest) = (symbol, r ++ c :: rest) := by
  obtain ⟨b, bs, rfl⟩ := List.exists_cons_of_ne_nil hbs
  have hone (w : Bytes × Sign) (hw : w ∈ signs) : afterBytes? w.1 (b :: bs ++ c :: rest)
      = (afterBytes? w.1 (b :: bs)).map (· ++ c :: rest) := by
    have htail := hc.not_mem_sign w hw
    have hne : w.1 ≠ [] := (show ∀ w ∈ signs, w.1 ≠ [] by decide) w hw
    obtain ⟨e, w', hw'⟩ := List.exists_cons_of_ne_nil hne
    rw [hw'] at htail ⊢
    rw [List.cons_append, afterBytes?, afterBytes?]
    split
    · exact afterBytes?_append rest htail bs
    · rfl
  have hfind (ws : List (Bytes × Sign)) (hws : ∀ w ∈ ws, w ∈ signs) :
      ws.findSome? (fun w => (afterBytes? w.1 (b :: bs ++ c :: rest)).map fun r => (Symbol.sign w.2, r))
        = (ws.findSome? fun w => (afterBytes? w.1 (b :: bs)).map fun r => (Symbol.sign w.2, r)).map
          fun v => (v.1, v.2 ++ c :: rest) := by
    induction ws with
    | nil => rfl
    | cons w ws ih =>
      rw [List.findSome?_cons, List.findSome?_cons, hone w (hws w List.mem_cons_self)]
      cases afterBytes? w.1 (b :: bs) with
      | none => exact ih fun w hw => hws w (List.mem_cons_of_mem _ hw)
      | some r => rfl
  unfold readSign at h ⊢
  rw [hfind signs fun _ hw => hw]
  cases hsign : signs.findSome? fun w => (afterBytes? w.1 (b :: bs)).map fun r => (Symbol.sign w.2, r) with
  | none =>
    rw [hsign] at h
    cases h
    exact absurd rfl (hgood _)
  | some v =>
    rw [hsign] at h
    cases h
    rfl

/-! ## Tokens -/

omit hc in
theorem Scanned.ofText_append {line l : Nat} {e e' : Escaped} {symbol : Symbol} {r : Bytes}
    (h : Scanned.ofText line e = ⟨symbol, l, r⟩) (hgood : ∀ reason, symbol ≠ .bad reason)
    (he : ∀ x l r, e = .ok (x, l, r) → e' = .ok (x, l + d, r ++ c :: rest)) :
    Scanned.ofText (line + d) e' = ⟨symbol, l + d, r ++ c :: rest⟩ := by
  cases e with
  | error reason =>
    cases h
    exact absurd rfl (hgood _)
  | ok v =>
    obtain ⟨x, l, r⟩ := v
    cases h
    rw [he x l r rfl]
    rfl

/-- A token is scanned as it is on its own. -/
theorem scanToken_append {line l : Nat} {bs r : Bytes} (hbs : bs ≠ []) {symbol : Symbol}
    (h : scanToken line bs = ⟨symbol, l, r⟩) (hgood : ∀ reason, symbol ≠ .bad reason) :
    scanToken (line + d) (bs ++ c :: rest) = ⟨symbol, l + d, r ++ c :: rest⟩ := by
  obtain ⟨b, bs, rfl⟩ := List.exists_cons_of_ne_nil hbs
  rw [scanToken] at h
  rw [List.cons_append, scanToken]
  by_cases hquote : b = 0x22 ∨ b = 0x27
  · rw [if_pos hquote] at h ⊢
    refine Scanned.ofText_append d rest h hgood fun x l r h => ?_
    exact readQuoted_append hc d rest h (by simp)
  rw [if_neg hquote] at h ⊢
  by_cases halpha : isAlphaByte b = true
  · rw [if_pos halpha] at h ⊢
    cases h
    rw [← List.cons_append, takeWhile_append_of_not rest hc.not_name,
      dropWhile_append_of_not rest hc.not_name]
  rw [if_neg halpha] at h ⊢
  by_cases hdigit : isDigitByte b = true
  · rw [if_pos hdigit] at h ⊢
    rcases hnumeral : readNumeral [] (b :: bs) with ⟨symbol', r'⟩
    rw [hnumeral] at h
    cases h
    rw [← List.cons_append, readNumeral_append hc rest [] hbs hnumeral hgood]
  rw [if_neg hdigit] at h ⊢
  -- What follows a point or a bracket is seen alike, or closes it.
  have hhead {e : UInt8} (he : e ≠ c) : (bs ++ c :: rest).head? = some e ↔ bs.head? = some e := by
    cases bs with
    | nil => simp [Ne.symm he]
    | cons f bs => rfl
  by_cases hpoint : b = 0x2e ∧ bs.head?.any isDigitByte = true
  · have hbs : bs ≠ [] := by
      rintro rfl
      cases hpoint.2
    have hpoint' : b = 0x2e ∧ (bs ++ c :: rest).head?.any isDigitByte = true := by
      obtain ⟨e, bs, rfl⟩ := List.exists_cons_of_ne_nil hbs
      exact hpoint
    rw [if_pos hpoint] at h
    rw [if_pos hpoint']
    rcases hnumeral : readNumeral [b] bs with ⟨symbol', r'⟩
    rw [hnumeral] at h
    cases h
    rw [readNumeral_append hc rest [b] hbs hnumeral hgood]
  have hpoint' : ¬ (b = 0x2e ∧ (bs ++ c :: rest).head?.any isDigitByte = true) := by
    rintro ⟨hb, hany⟩
    cases bs with
    | nil => simp [hc.not_digit] at hany
    | cons e bs => exact hpoint ⟨hb, hany⟩
  rw [if_neg hpoint] at h
  rw [if_neg hpoint']
  by_cases hbracket : b = 0x5b
  · rw [if_pos hbracket] at h ⊢
    rw [longBracket?_append rest hc.ne_leftBracket hc.ne_equal]
    cases hlong : longBracket? 0x5b bs with
    | none =>
      simp only [hlong, Option.map_none] at h ⊢
      by_cases hequal : bs.head? = some 0x3d
      · rw [if_pos hequal] at h
        cases h
        exact absurd rfl (hgood _)
      · rw [if_neg hequal] at h
        rw [if_neg fun hh => hequal ((hhead (Ne.symm hc.ne_equal)).1 hh)]
        cases h
        rfl
    | some v =>
      obtain ⟨level, r'⟩ := v
      simp only [hlong, Option.map_some] at h ⊢
      exact Scanned.ofText_append d rest h hgood fun x l r h => readLongBody_append hc d rest h
  · rw [if_neg hbracket] at h ⊢
    rcases hsign : readSign (b :: bs) with ⟨symbol', r'⟩
    rw [hsign] at h
    cases h
    rw [← List.cons_append, readSign_append hc rest hbs hsign hgood]

end Closed

end ScriptedViews.Script

import ScriptedViews.Proofs.Script.Closing

set_option autoImplicit false

/-! # Source inside other source

What a piece of source is scanned as does not depend on what stands around it, as long as a byte
follows that ends every token and the piece has no comment, which would go on. The lines of its
tokens count from the line that it starts on. -/

namespace ScriptedViews.Script

/-! ## A token is not empty -/

theorem length_skipBlank_le {fuel line l : Nat} {bs r : Bytes}
    (h : skipBlank fuel line bs = (l, r)) : r.length ≤ bs.length := by
  induction fuel generalizing line bs with
  | zero =>
    cases h
    exact Nat.le_refl _
  | succ fuel ih =>
    cases bs with
    | nil =>
      cases h
      exact Nat.le_refl _
    | cons b bs =>
      have hafter := length_afterNewline_le b bs
      rw [List.length_cons]
      rw [skipBlank] at h
      split at h
      · have := ih h
        omega
      · split at h
        · have := ih h
          omega
        · cases h
          exact Nat.le_refl _

theorem length_dropWhile_le (p : UInt8 → Bool) (bs : Bytes) : (bs.dropWhile p).length ≤ bs.length :=
  (List.dropWhile_sublist p).length_le

theorem length_readEscape_le {line l : Nat} {bs x r : Bytes}
    (h : readEscape line bs = .ok (x, l, r)) : r.length ≤ bs.length := by
  cases bs with
  | nil => cases h
  | cons b bs =>
    rw [List.length_cons]
    rw [readEscape] at h
    split at h
    · cases h
      exact Nat.le_succ _
    split at h
    · cases h
      exact Nat.le_succ_of_le (length_afterNewline_le b bs)
    split at h
    · unfold hexEscape at h
      split at h
      · split at h <;> cases h
        simp only [List.length_cons]
        omega
      · cases h
    split at h
    · simp only [Except.ok.injEq, Prod.mk.injEq] at h
      exact Nat.le_succ_of_le (length_skipBlank_le h.2)
    split at h
    · unfold unicodeEscape at h
      split at h
      · rename_i bs
        simp only at h
        split at h
        · rename_i r' hr
          have := length_dropWhile_le isHexByte bs
          rw [hr, List.length_cons] at this
          split at h
          · cases h
          · split at h <;> cases h
            rw [List.length_cons]
            omega
        · cases h
      · cases h
    split at h
    · unfold decimalEscape at h
      simp only at h
      split at h <;> cases h
      rw [List.length_drop, List.length_cons]
      omega
    · cases h

theorem length_readQuoted_le {quote : UInt8} {fuel line l : Nat} {bs x r : Bytes}
    (h : readQuoted quote fuel line bs = .ok (x, l, r)) : r.length ≤ bs.length := by
  induction fuel generalizing line bs x with
  | zero => cases h
  | succ fuel ih =>
    cases bs with
    | nil => cases h
    | cons b bs =>
      rw [List.length_cons]
      rw [readQuoted] at h
      split at h
      · cases h
        exact Nat.le_succ _
      split at h
      · cases h
      split at h
      · obtain ⟨⟨e, l₁, r₁⟩, hescape, h⟩ := exists_of_bind_eq_ok h
        obtain ⟨⟨more, l₂, r₂⟩, hmore, h⟩ := exists_of_bind_eq_ok h
        cases h
        have := ih hmore
        have := length_readEscape_le hescape
        omega
      · obtain ⟨⟨more, l₁, r₁⟩, hmore, h⟩ := exists_of_bind_eq_ok h
        cases h
        have := ih hmore
        omega

theorem length_of_longBracket? {bracket : UInt8} {bs r : Bytes} {n : Nat}
    (h : longBracket? bracket bs = some (n, r)) : r.length < bs.length := by
  unfold longBracket? at h
  split at h
  · rename_i b r' hr
    have := length_dropWhile_le (· == 0x3d) bs
    rw [hr, List.length_cons] at this
    split at h <;> cases h
    omega
  · cases h

theorem length_readLong_le {level fuel line l : Nat} {bs x r : Bytes}
    (h : readLong level fuel line bs = .ok (x, l, r)) : r.length ≤ bs.length := by
  induction fuel generalizing line bs x with
  | zero => cases h
  | succ fuel ih =>
    cases bs with
    | nil => cases h
    | cons b bs =>
      have hmore {out : UInt8} {line : Nat} {bs x : Bytes}
          (h : (readLong level fuel line bs >>= fun v => pure (out :: v.1, v.2.1, v.2.2)) = .ok (x, l, r)) :
          r.length ≤ bs.length := by
        obtain ⟨⟨y, l₁, r₁⟩, hread, h⟩ := exists_of_bind_eq_ok h
        cases h
        exact ih hread
      rw [List.length_cons]
      rw [readLong] at h
      simp only at h
      split at h
      · split at h
        · rename_i n r' hlong
          have := length_of_longBracket? hlong
          split at h
          · cases h
            omega
          · exact Nat.le_succ_of_le (hmore h)
        · exact Nat.le_succ_of_le (hmore h)
      · split at h
        · exact Nat.le_succ_of_le (Nat.le_trans (hmore h) (length_afterNewline_le b bs))
        · exact Nat.le_succ_of_le (hmore h)

theorem length_readLongBody_le {level line l : Nat} {bs x r : Bytes}
    (h : readLongBody level line bs = .ok (x, l, r)) : r.length ≤ bs.length := by
  cases bs with
  | nil => cases h
  | cons b bs =>
    unfold readLongBody at h
    simp only at h
    split at h
    · exact Nat.le_succ_of_le (Nat.le_trans (length_readLong_le h) (length_afterNewline_le b bs))
    · exact length_readLong_le h

theorem length_numeralBytes_le (mark : UInt8) (afterMark : Bool) (bs : Bytes) :
    (numeralBytes mark afterMark bs).2.length ≤ bs.length := by
  induction bs generalizing afterMark with
  | nil => exact Nat.le_refl _
  | cons b bs ih =>
    rw [numeralBytes]
    split
    · exact Nat.le_succ_of_le (ih true)
    · split
      · exact Nat.le_succ_of_le (ih false)
      · exact Nat.le_refl _

theorem length_numeralSpan_le (bs : Bytes) : (numeralSpan bs).2.length ≤ bs.length := by
  unfold numeralSpan
  split
  · rename_i body hbody
    have hlength : body.length ≤ bs.length := by
      match bs, hbody with
      | a :: b :: bs, hbody =>
        unfold hexBody? at hbody
        simp only at hbody
        split at hbody <;> cases hbody
        simp only [List.length_cons]
        omega
    exact Nat.le_trans (length_numeralBytes_le 0x70 false body) hlength
  · exact length_numeralBytes_le 0x65 false bs

theorem length_numeralSpan_lt {b : UInt8} (hb : isDigitByte b = true) (bs : Bytes) :
    (numeralSpan (b :: bs)).2.length ≤ bs.length := by
  unfold numeralSpan
  split
  · rename_i body hbody
    have hlength : body.length ≤ bs.length := by
      match bs, hbody with
      | a :: bs, hbody =>
        unfold hexBody? at hbody
        simp only at hbody
        split at hbody <;> cases hbody
        simp only [List.length_cons]
        omega
    exact Nat.le_trans (length_numeralBytes_le 0x70 false body) hlength
  · rw [numeralBytes]
    split
    · exact length_numeralBytes_le 0x65 true bs
    · have hhex : isHexByte b = true := by simp [isHexByte, hb]
      simp only [hhex, Bool.true_or, if_true]
      exact length_numeralBytes_le 0x65 false bs

theorem length_readNumeral_le (lead bs : Bytes) :
    (readNumeral lead bs).2.length ≤ (numeralSpan bs).2.length := by
  unfold readNumeral
  rcases numeralSpan bs with ⟨bytes, rest⟩
  simp only
  cases readNumber? (lead ++ bytes) with
  | none => exact Nat.zero_le _
  | some n =>
    cases rest with
    | nil => exact Nat.le_refl _
    | cons b rest =>
      simp only
      split
      · exact Nat.zero_le _
      · exact Nat.le_refl _

theorem length_afterBytes? {w bs r : Bytes} (h : afterBytes? w bs = some r) :
    r.length + w.length = bs.length := by
  induction w generalizing bs with
  | nil =>
    cases h
    rfl
  | cons b w ih =>
    cases bs with
    | nil => cases h
    | cons e bs =>
      rw [afterBytes?] at h
      split at h
      · have := ih h
        simp only [List.length_cons]
        omega
      · cases h

theorem length_readSign_le (b : UInt8) (bs : Bytes) : (readSign (b :: bs)).2.length ≤ bs.length := by
  unfold readSign
  split
  · rename_i v hv
    obtain ⟨w, hw, hv⟩ := List.exists_of_findSome?_eq_some hv
    obtain ⟨r, hr, rfl⟩ := Option.map_eq_some_iff.1 hv
    have hne : 0 < w.1.length := (show ∀ w ∈ signs, 0 < w.1.length by decide) w hw
    have := length_afterBytes? hr
    simp only [List.length_cons] at this
    simp only
    omega
  · exact Nat.zero_le _

theorem length_ofText_le {line n : Nat} {e : Escaped}
    (he : ∀ x l r, e = .ok (x, l, r) → r.length ≤ n) : (Scanned.ofText line e).rest.length ≤ n := by
  cases e with
  | error reason => exact Nat.zero_le _
  | ok v => exact he _ _ _ rfl

/-- A token takes at least one byte. -/
theorem length_scanToken_le (line : Nat) (b : UInt8) (bs : Bytes) :
    (scanToken line (b :: bs)).rest.length ≤ bs.length := by
  rw [scanToken]
  split
  · exact length_ofText_le fun x l r h => length_readQuoted_le h
  split
  · rename_i halpha
    have hname : isNameByte b = true := by simp [isNameByte, halpha]
    rw [List.dropWhile_cons_of_pos hname]
    exact length_dropWhile_le isNameByte bs
  split
  · rename_i hdigit
    exact Nat.le_trans (length_readNumeral_le [] (b :: bs)) (length_numeralSpan_lt hdigit bs)
  split
  · exact Nat.le_trans (length_readNumeral_le [b] bs) (length_numeralSpan_le bs)
  split
  · split
    · rename_i level rest hlong
      have := length_of_longBracket? hlong
      refine length_ofText_le fun x l r h => ?_
      have := length_readLongBody_le h
      omega
    · split
      · exact Nat.zero_le _
      · exact Nat.le_refl _
  · exact length_readSign_le b bs

/-! ## Pieces of source -/

/-- Whether some source, from a line on, is some tokens with nothing but blanks around them, and the
    line that it ends on: it holds no comment, and nothing that is no token. -/
inductive Scans : Nat → Bytes → List Token → Nat → Prop where
  | stop {line l : Nat} {bs : Bytes} (blank : skipBlank bs.length line bs = (l, [])) :
      Scans line bs [] l
  | token {line l l' l'' : Nat} {bs : Bytes} {b : UInt8} {bs' rest : Bytes} {symbol : Symbol}
      {ts : List Token} (blank : skipBlank bs.length line bs = (l, b :: bs'))
      (comment : ¬ [0x2d, 0x2d] <+: b :: bs')
      (scan : scanToken l (b :: bs') = ⟨symbol, l', rest⟩) (good : ∀ reason, symbol ≠ .bad reason)
      (more : symbol ≠ .stop) (tokens : Scans l' rest ts l'') :
      Scans line bs (⟨symbol, l'⟩ :: ts) l''

/-- The token as it stands so many lines further down. -/
def Token.shift (d : Nat) (t : Token) : Token :=
  ⟨t.symbol, t.line + d⟩

theorem tokensFrom_token {fuel line l l' : Nat} {bs : Bytes} {b : UInt8} {bs' rest : Bytes}
    {symbol : Symbol} (blank : skipBlank bs.length line bs = (l, b :: bs'))
    (comment : ¬ [0x2d, 0x2d] <+: b :: bs') (scan : scanToken l (b :: bs') = ⟨symbol, l', rest⟩)
    (good : ∀ reason, symbol ≠ .bad reason) (more : symbol ≠ .stop) :
    tokensFrom (fuel + 1) line bs = ⟨symbol, l'⟩ :: tokensFrom fuel l' rest := by
  rw [tokensFrom, blank]
  simp only
  split
  · rename_i r heq
    rw [heq] at comment
    exact absurd ⟨r, rfl⟩ comment
  · rw [scan]
    cases symbol <;> first | rfl | exact absurd rfl (good _) | exact absurd rfl more

/-- There are no more tokens than bytes. -/
theorem Scans.length_le {line l : Nat} {bs : Bytes} {ts : List Token} (h : Scans line bs ts l) :
    ts.length ≤ bs.length := by
  induction h with
  | stop => exact Nat.zero_le _
  | @token line l l' l'' bs b bs' rest symbol ts blank comment scan good more _ ih =>
    have hblank := length_skipBlank_le blank
    have hscan := length_scanToken_le l b bs'
    rw [scan] at hscan
    simp only [List.length_cons] at hblank hscan ⊢
    omega

/-- The tokens of a piece are what the whole piece is scanned as. -/
theorem Scans.tokensFrom_eq {line l : Nat} {bs : Bytes} {ts : List Token} (h : Scans line bs ts l)
    (fuel : Nat) : tokensFrom (fuel + 1 + ts.length) line bs = ts ++ [⟨.stop, l⟩] := by
  induction h with
  | stop blank =>
    rw [List.length_nil, Nat.add_zero, tokensFrom, blank]
    rfl
  | token blank comment scan good more _ ih =>
    rw [List.length_cons, ← Nat.add_assoc, tokensFrom_token blank comment scan good more, ih]
    rfl

/-- A piece that is all of some source has its tokens. -/
theorem Scans.tokens_eq {l : Nat} {bs : Bytes} {ts : List Token} (h : Scans 1 bs ts l) :
    tokens bs = ts ++ [⟨.stop, l⟩] := by
  have := h.tokensFrom_eq (bs.length - ts.length)
  have hlength := h.length_le
  rwa [show bs.length - ts.length + 1 + ts.length = bs.length + 1 by omega] at this

/-- The tokens of a piece stand in the source around it as they are, but for their lines. -/
theorem Scans.tokensFrom_append {line l : Nat} {bs : Bytes} {ts : List Token}
    (h : Scans line bs ts l) {c : UInt8} (hc : IsClosing c) (hline : isNewlineByte c = false)
    (d fuel : Nat) (rest : Bytes) :
    tokensFrom (fuel + 1 + ts.length) (line + d) (bs ++ c :: rest)
      = ts.map (Token.shift d) ++ tokensFrom (fuel + 1) (l + d) (c :: rest) := by
  induction h with
  | @stop line l bs blank =>
    have hskip := skipBlank_append d rest blank (.inr hline) (Nat.le_refl _) (Nat.le_refl _)
      (Nat.le_refl _)
    rw [List.length_nil, Nat.add_zero, tokensFrom, tokensFrom, hskip]
    rfl
  | @token line l l' l'' bs b bs' r symbol ts blank comment scan good more _ ih =>
    have hskip := skipBlank_append_of_ne_nil d rest blank (List.cons_ne_nil b bs') (Nat.le_refl _)
      (Nat.le_refl (bs ++ c :: rest).length)
    have hscan := scanToken_append hc d rest (List.cons_ne_nil b bs') scan good
    have hcomment : ¬ [0x2d, 0x2d] <+: b :: (bs' ++ c :: rest) := by
      cases bs' with
      | nil =>
        rcases hc with rfl | rfl | rfl <;> simp
      | cons e bs' =>
        simpa using comment
    rw [List.length_cons, ← Nat.add_assoc, tokensFrom_token hskip hcomment hscan good more, ih,
      List.map_cons, List.cons_append]
    rfl

end ScriptedViews.Script

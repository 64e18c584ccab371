import ScriptedViews.Code.Literal
import ScriptedViews.Script.Token

set_option autoImplicit false

/-! # Literals as the lexer reads them

The literal of a text, whatever the text holds and whatever follows the literal, is read as one
token with the bytes of the text, and reading stops right after the closing quote. The bytes that
the lexer treats apart (the quote, the backslash and the two line ends) are those of the escaped
characters, and no byte of any other character is one of them. -/

namespace ScriptedViews.Script

open Code (escapeChar escape literal)

/-! ## Bytes of a text -/

theorem utf8_eq_flatMap (s : String) : utf8 s = s.toList.flatMap String.utf8EncodeChar := by
  have h : s.toList.utf8Encode = s.toByteArray := String.utf8Encode_toList
  rw [utf8, String.toUTF8, ← h, List.utf8Encode]
  simp

theorem utf8_ofList (cs : List Char) : utf8 (String.ofList cs) = cs.flatMap String.utf8EncodeChar := by
  rw [utf8_eq_flatMap, String.toList_ofList]

@[simp]
theorem utf8_append (a b : String) : utf8 (a ++ b) = utf8 a ++ utf8 b := by
  rw [utf8_eq_flatMap, utf8_eq_flatMap, utf8_eq_flatMap, String.toList_append, List.flatMap_append]

/-! ## One character -/

/-- A character is one byte with its number, or bytes that stand for no character of ASCII. -/
theorem utf8EncodeChar_cases (c : Char) :
    (c.toNat ≤ 0x7f ∧ String.utf8EncodeChar c = [UInt8.ofNat c.toNat])
      ∨ ∀ b ∈ String.utf8EncodeChar c, 0x80 ≤ b.toNat := by
  have hc : c.toNat < 0x110000 := by
    have := c.valid
    simp only [UInt32.isValidChar, Nat.isValidChar, Char.toNat] at *
    omega
  unfold String.utf8EncodeChar
  simp only [← Char.toNat_val] at *
  split
  · exact .inl ⟨‹_›, rfl⟩
  · right
    intro b hb
    split at hb
    · simp only [List.mem_cons, List.not_mem_nil, or_false] at hb
      rcases hb with rfl | rfl <;> simp only [UInt8.toNat_ofNat'] <;> omega
    · split at hb
      · simp only [List.mem_cons, List.not_mem_nil, or_false] at hb
        rcases hb with rfl | rfl | rfl <;> simp only [UInt8.toNat_ofNat'] <;> omega
      · simp only [List.mem_cons, List.not_mem_nil, or_false] at hb
        rcases hb with rfl | rfl | rfl | rfl <;> simp only [UInt8.toNat_ofNat'] <;> omega

/-- Whether the lexer takes a byte inside double quotes as it stands. -/
def IsPlain (b : UInt8) : Prop :=
  b ≠ 0x22 ∧ b ≠ 0x5c ∧ isNewlineByte b = false

theorem isPlain_iff {b : UInt8} :
    IsPlain b ↔ b.toNat ≠ 0x22 ∧ b.toNat ≠ 0x5c ∧ b.toNat ≠ 0x0a ∧ b.toNat ≠ 0x0d := by
  simp only [IsPlain, isNewlineByte, Bool.or_eq_false_iff, beq_eq_false_iff_ne, ne_eq,
    ← UInt8.toNat_inj, UInt8.toNat_ofNat]

theorem readQuoted_plain {b : UInt8} (h : IsPlain b) (fuel line : Nat) (bs : Bytes) :
    readQuoted 0x22 (fuel + 1) line (b :: bs)
      = (readQuoted 0x22 fuel line bs).map fun r => (b :: r.1, r.2) := by
  rw [readQuoted]
  simp only [h.1, h.2.1, h.2.2, if_false, Bool.false_eq_true]
  cases readQuoted 0x22 fuel line bs <;> rfl

/-- Plain bytes are read as they stand. -/
theorem readQuoted_append_of_isPlain {bs : Bytes} (h : ∀ b ∈ bs, IsPlain b) (fuel line : Nat)
    (rest : Bytes) :
    readQuoted 0x22 (fuel + bs.length) line (bs ++ rest)
      = (readQuoted 0x22 fuel line rest).map fun r => (bs ++ r.1, r.2) := by
  induction bs with
  | nil =>
    rw [List.length_nil, Nat.add_zero, List.nil_append]
    cases readQuoted 0x22 fuel line rest <;> rfl
  | cons b bs ih =>
    have hb := h b List.mem_cons_self
    have hbs := ih fun c hc => h c (List.mem_cons_of_mem b hc)
    rw [List.length_cons, ← Nat.add_assoc, List.cons_append, readQuoted_plain hb, hbs]
    cases readQuoted 0x22 fuel line rest <;> rfl

/-- A backslash and a letter are read as the byte that they stand for. -/
theorem readQuoted_escape {b c : UInt8} (h : simpleEscape? b = some c) (fuel line : Nat)
    (rest : Bytes) :
    readQuoted 0x22 (fuel + 1) line (0x5c :: b :: rest)
      = (readQuoted 0x22 fuel line rest).map fun r => (c :: r.1, r.2) := by
  have hr : readEscape line (b :: rest) = .ok ([c], line, rest) := by
    rw [readEscape, h]
  rw [readQuoted]
  simp only [show ¬ (0x5c : UInt8) = 0x22 by decide, show isNewlineByte 0x5c = false by decide,
    if_false, if_true, Bool.false_eq_true, hr, bind, Except.bind]
  cases readQuoted 0x22 fuel line rest <;> rfl

theorem isPlain_of_mem_utf8EncodeChar {c : Char} (hquote : c ≠ '"') (hslash : c ≠ '\\')
    (hfeed : c ≠ '\n') (hreturn : c ≠ '\r') {b : UInt8} (hb : b ∈ String.utf8EncodeChar c) :
    IsPlain b := by
  rw [isPlain_iff]
  rcases utf8EncodeChar_cases c with ⟨hle, heq⟩ | hge
  · rw [heq, List.mem_singleton] at hb
    have hbc : b.toNat = c.toNat := by
      rw [hb, UInt8.toNat_ofNat']
      omega
    rw [hbc]
    have hne {d : Char} (h : c ≠ d) : c.toNat ≠ d.toNat := fun he => h (Char.toNat_inj.1 he)
    exact ⟨hne hquote, hne hslash, hne hfeed, hne hreturn⟩
  · have := hge b hb
    omega

/-- The bytes of an escaped character are read as the bytes of the character. -/
theorem readQuoted_escapeChar (c : Char) :
    ∃ n ≤ ((escapeChar c).flatMap String.utf8EncodeChar).length, ∀ fuel line rest,
      readQuoted 0x22 (fuel + n) line ((escapeChar c).flatMap String.utf8EncodeChar ++ rest)
        = (readQuoted 0x22 fuel line rest).map fun r => (String.utf8EncodeChar c ++ r.1, r.2) := by
  by_cases hslash : c = '\\'
  · subst hslash
    exact ⟨1, by decide, fun fuel line rest => readQuoted_escape (by decide) fuel line rest⟩
  by_cases hquote : c = '"'
  · subst hquote
    exact ⟨1, by decide, fun fuel line rest => readQuoted_escape (by decide) fuel line rest⟩
  by_cases hfeed : c = '\n'
  · subst hfeed
    exact ⟨1, by decide, fun fuel line rest => readQuoted_escape (by decide) fuel line rest⟩
  by_cases hreturn : c = '\r'
  · subst hreturn
    exact ⟨1, by decide, fun fuel line rest => readQuoted_escape (by decide) fuel line rest⟩
  have hself : (escapeChar c).flatMap String.utf8EncodeChar = String.utf8EncodeChar c := by
    rw [escapeChar]
    · simp
    all_goals assumption
  rw [hself]
  exact ⟨_, Nat.le_refl _, readQuoted_append_of_isPlain fun b hb =>
    isPlain_of_mem_utf8EncodeChar hquote hslash hfeed hreturn hb⟩

/-! ## A whole literal -/

theorem readQuoted_flatMap_escapeChar (cs : List Char) :
    ∃ n ≤ ((cs.flatMap escapeChar).flatMap String.utf8EncodeChar).length, ∀ fuel line rest,
      readQuoted 0x22 (fuel + n) line
          ((cs.flatMap escapeChar).flatMap String.utf8EncodeChar ++ rest)
        = (readQuoted 0x22 fuel line rest).map fun r =>
            (cs.flatMap String.utf8EncodeChar ++ r.1, r.2) := by
  induction cs with
  | nil =>
    refine ⟨0, Nat.le_refl _, fun fuel line rest => ?_⟩
    show readQuoted 0x22 fuel line rest = _
    cases readQuoted 0x22 fuel line rest <;> rfl
  | cons c cs ih =>
    obtain ⟨n, hn, hcs⟩ := ih
    obtain ⟨m, hm, hc⟩ := readQuoted_escapeChar c
    refine ⟨n + m, ?_, fun fuel line rest => ?_⟩
    · rw [List.flatMap_cons, List.flatMap_append, List.length_append]
      omega
    · rw [List.flatMap_cons, List.flatMap_append, List.append_assoc, ← Nat.add_assoc, hc, hcs,
        List.flatMap_cons]
      cases readQuoted 0x22 fuel line rest with
      | error e => rfl
      | ok r => simp only [Except.map, List.append_assoc]

theorem utf8_literal (t : String) : utf8 (literal t) = 0x22 :: utf8 (escape t) ++ [0x22] := by
  have hq : utf8 "\"" = [0x22] := by decide
  rw [literal, utf8_append, utf8_append, hq]
  rfl

/-- The literal of a text is read as one token with the bytes of the text, and what follows the
    literal is left. -/
theorem scanToken_literal (t : String) (line : Nat) (rest : Bytes) :
    scanToken line (utf8 (literal t) ++ rest) = ⟨.text (utf8 t), line, rest⟩ := by
  obtain ⟨n, hn, hread⟩ := readQuoted_flatMap_escapeChar t.toList
  have hlen : (utf8 (escape t)).length = ((t.toList.flatMap escapeChar).flatMap
      String.utf8EncodeChar).length := by rw [escape, utf8_ofList]
  obtain ⟨fuel, hfuel⟩ : ∃ fuel,
      (utf8 (escape t) ++ 0x22 :: rest).length + 1 = fuel + 1 + n := by
    refine ⟨(utf8 (escape t) ++ 0x22 :: rest).length - n, ?_⟩
    rw [List.length_append, List.length_cons]
    omega
  have hquote : readQuoted 0x22 (fuel + 1) line (0x22 :: rest) = .ok ([], line, rest) := by
    rw [readQuoted, if_pos rfl]
  rw [utf8_literal, List.cons_append, List.cons_append, List.append_assoc, List.singleton_append,
    scanToken, if_pos (.inl rfl), hfuel, escape, utf8_ofList, hread, hquote]
  simp only [Except.map, Scanned.ofText, List.append_nil, utf8_eq_flatMap]

end ScriptedViews.Script

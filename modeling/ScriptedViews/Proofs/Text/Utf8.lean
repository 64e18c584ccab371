import ScriptedViews.Proofs.Script.Literal
import ScriptedViews.Text.Utf8

set_option autoImplicit false

/-! # Reading the bytes of a text

The bytes of a text are read back as the text, character by character, and bytes that are read
without a replacement character are those of a text. -/

namespace ScriptedViews.Text

open Script (utf8 utf8_eq_flatMap)

/-! ## One character -/

/-- What may follow a leading byte, told by its value. -/
theorem tailRanges_eq (b : UInt8) :
    tailRanges b = if b.toNat < 0x80 then some []
      else if 0xc2 ≤ b.toNat ∧ b.toNat ≤ 0xdf then some [(0x80, 0xbf)]
      else if b.toNat = 0xe0 then some [(0xa0, 0xbf), (0x80, 0xbf)]
      else if b.toNat = 0xed then some [(0x80, 0x9f), (0x80, 0xbf)]
      else if 0xe1 ≤ b.toNat ∧ b.toNat ≤ 0xef then some [(0x80, 0xbf), (0x80, 0xbf)]
      else if b.toNat = 0xf0 then some [(0x90, 0xbf), (0x80, 0xbf), (0x80, 0xbf)]
      else if 0xf1 ≤ b.toNat ∧ b.toNat ≤ 0xf3 then some [(0x80, 0xbf), (0x80, 0xbf), (0x80, 0xbf)]
      else if b.toNat = 0xf4 then some [(0x80, 0x8f), (0x80, 0xbf), (0x80, 0xbf)]
      else none := by
  simp only [tailRanges, UInt8.lt_iff_toNat_lt, UInt8.le_iff_toNat_le, ← UInt8.toNat_inj,
    UInt8.toNat_ofNat]

/-- A byte in its range goes into the code point. -/
theorem readTail_cons {lo hi b : UInt8} (hlo : lo.toNat ≤ b.toNat) (hhi : b.toNat ≤ hi.toNat)
    (value count : Nat) (ranges : List (UInt8 × UInt8)) (rest : List UInt8) :
    readTail value count ((lo, hi) :: ranges) (b :: rest)
      = readTail (value * 0x40 + b.toNat % 0x40) (count + 1) ranges rest := by
  rw [readTail, if_pos ⟨UInt8.le_iff_toNat_le.2 hlo, UInt8.le_iff_toNat_le.2 hhi⟩]

/-- The bytes of a character are read as that character, whatever follows. -/
theorem utf8Head_utf8EncodeChar (c : Char) (rest : List UInt8) :
    ∃ b bs, String.utf8EncodeChar c = b :: bs ∧ utf8Head b (bs ++ rest) = .char c rest := by
  have hvalid : c.toNat < 0xd800 ∨ 0xdfff < c.toNat ∧ c.toNat < 0x110000 := by
    have := c.valid
    simp only [UInt32.isValidChar, Nat.isValidChar] at this
    exact this
  have hc : Char.ofNat c.toNat = c := Char.ofNat_toNat c
  unfold String.utf8EncodeChar
  simp only [Char.toNat_val]
  generalize c.toNat = n at *
  have hbyte {m : Nat} (hm : m < 0x100) : (UInt8.ofNat m).toNat = m := by
    rw [UInt8.toNat_ofNat']
    exact Nat.mod_eq_of_lt hm
  split
  · refine ⟨_, _, rfl, ?_⟩
    have hb : (UInt8.ofNat n).toNat = n := hbyte (by omega)
    rw [utf8Head, tailRanges_eq, hb, if_pos (by omega)]
    simp only [List.length_nil, leadValue, hb, List.nil_append, readTail, hc]
  · split
    · refine ⟨_, _, rfl, ?_⟩
      have h₀ : (UInt8.ofNat (n / 64 % 0x20 + 0xc0)).toNat = n / 64 + 0xc0 := by
        rw [hbyte (by omega)]; omega
      have h₁ : (UInt8.ofNat (n % 0x40 + 0x80)).toNat = n % 0x40 + 0x80 := hbyte (by omega)
      have hvalue : (n / 64 + 0xc0) % 0x20 * 0x40 + (n % 0x40 + 0x80) % 0x40 = n := by omega
      rw [utf8Head, tailRanges_eq, h₀, if_neg (by omega), if_pos (by omega)]
      simp only [List.length_singleton, leadValue, h₀, List.cons_append, List.nil_append]
      rw [readTail_cons (by rw [h₁]; simp) (by rw [h₁]; simp; omega), readTail, h₁, hvalue, hc]
    · split
      · refine ⟨_, _, rfl, ?_⟩
        have h₀ : (UInt8.ofNat (n / 4096 % 0x10 + 0xe0)).toNat = n / 4096 + 0xe0 := by
          rw [hbyte (by omega)]; omega
        have h₁ : (UInt8.ofNat (n / 64 % 0x40 + 0x80)).toNat = n / 64 % 0x40 + 0x80 :=
          hbyte (by omega)
        have h₂ : (UInt8.ofNat (n % 0x40 + 0x80)).toNat = n % 0x40 + 0x80 := hbyte (by omega)
        have hvalue : ((n / 4096 + 0xe0) % 0x10 * 0x40 + (n / 64 % 0x40 + 0x80) % 0x40) * 0x40
            + (n % 0x40 + 0x80) % 0x40 = n := by omega
        have htail (lo hi : UInt8) (hlo : lo.toNat ≤ n / 64 % 0x40 + 0x80)
            (hhi : n / 64 % 0x40 + 0x80 ≤ hi.toNat) :
            readTail ((n / 4096 + 0xe0) % 0x10) 1 [(lo, hi), (0x80, 0xbf)]
              (UInt8.ofNat (n / 64 % 0x40 + 0x80) :: UInt8.ofNat (n % 0x40 + 0x80) :: rest)
                = .char c rest := by
          rw [readTail_cons (by rw [h₁]; exact hlo) (by rw [h₁]; exact hhi),
            readTail_cons (by rw [h₂]; simp) (by rw [h₂]; simp; omega), readTail, h₁, h₂, hvalue, hc]
        rw [utf8Head, tailRanges_eq, h₀, if_neg (by omega), if_neg (by omega)]
        by_cases hfirst : n / 4096 + 0xe0 = 0xe0
        · rw [if_pos hfirst]
          simp only [List.length_cons, List.length_nil, leadValue, h₀]
          exact htail _ _ (by simp only [UInt8.reduceToNat]; omega)
            (by simp only [UInt8.reduceToNat]; omega)
        · rw [if_neg hfirst]
          by_cases hsurrogate : n / 4096 + 0xe0 = 0xed
          · rw [if_pos hsurrogate]
            simp only [List.length_cons, List.length_nil, leadValue, h₀]
            exact htail _ _ (by simp only [UInt8.reduceToNat]; omega)
              (by simp only [UInt8.reduceToNat]; omega)
          · rw [if_neg hsurrogate, if_pos (by omega)]
            simp only [List.length_cons, List.length_nil, leadValue, h₀]
            exact htail _ _ (by simp only [UInt8.reduceToNat]; omega)
              (by simp only [UInt8.reduceToNat]; omega)
      · refine ⟨_, _, rfl, ?_⟩
        have h₀ : (UInt8.ofNat (n / 262144 % 0x08 + 0xf0)).toNat = n / 262144 + 0xf0 := by
          rw [hbyte (by omega)]; omega
        have h₁ : (UInt8.ofNat (n / 4096 % 0x40 + 0x80)).toNat = n / 4096 % 0x40 + 0x80 :=
          hbyte (by omega)
        have h₂ : (UInt8.ofNat (n / 64 % 0x40 + 0x80)).toNat = n / 64 % 0x40 + 0x80 :=
          hbyte (by omega)
        have h₃ : (UInt8.ofNat (n % 0x40 + 0x80)).toNat = n % 0x40 + 0x80 := hbyte (by omega)
        have hvalue : (((n / 262144 + 0xf0) % 0x08 * 0x40 + (n / 4096 % 0x40 + 0x80) % 0x40) * 0x40
            + (n / 64 % 0x40 + 0x80) % 0x40) * 0x40 + (n % 0x40 + 0x80) % 0x40 = n := by omega
        have htail (lo hi : UInt8) (hlo : lo.toNat ≤ n / 4096 % 0x40 + 0x80)
            (hhi : n / 4096 % 0x40 + 0x80 ≤ hi.toNat) :
            readTail ((n / 262144 + 0xf0) % 0x08) 1 [(lo, hi), (0x80, 0xbf), (0x80, 0xbf)]
              (UInt8.ofNat (n / 4096 % 0x40 + 0x80) :: UInt8.ofNat (n / 64 % 0x40 + 0x80)
                :: UInt8.ofNat (n % 0x40 + 0x80) :: rest) = .char c rest := by
          rw [readTail_cons (by rw [h₁]; exact hlo) (by rw [h₁]; exact hhi),
            readTail_cons (by rw [h₂]; simp) (by rw [h₂]; simp; omega),
            readTail_cons (by rw [h₃]; simp) (by rw [h₃]; simp; omega), readTail, h₁, h₂, h₃,
            hvalue, hc]
        rw [utf8Head, tailRanges_eq, h₀, if_neg (by omega), if_neg (by omega), if_neg (by omega),
          if_neg (by omega), if_neg (by omega)]
        by_cases hfirst : n / 262144 + 0xf0 = 0xf0
        · rw [if_pos hfirst]
          simp only [List.length_cons, List.length_nil, leadValue, h₀]
          exact htail _ _ (by simp only [UInt8.reduceToNat]; omega)
            (by simp only [UInt8.reduceToNat]; omega)
        · rw [if_neg hfirst]
          by_cases hmiddle : 0xf1 ≤ n / 262144 + 0xf0 ∧ n / 262144 + 0xf0 ≤ 0xf3
          · rw [if_pos hmiddle]
            simp only [List.length_cons, List.length_nil, leadValue, h₀]
            exact htail _ _ (by simp only [UInt8.reduceToNat]; omega)
              (by simp only [UInt8.reduceToNat]; omega)
          · rw [if_neg hmiddle, if_pos (by omega)]
            simp only [List.length_cons, List.length_nil, leadValue, h₀]
            exact htail _ _ (by simp only [UInt8.reduceToNat]; omega)
              (by simp only [UInt8.reduceToNat]; omega)

/-! ## All characters -/

theorem decodeFrom_flatMap (cs : List Char) {fuel : Nat} (h : cs.length ≤ fuel) (index : Nat) :
    decodeFrom fuel index (cs.flatMap String.utf8EncodeChar) = .ok cs := by
  induction cs generalizing fuel index with
  | nil => cases fuel <;> rfl
  | cons c cs ih =>
    obtain ⟨fuel, rfl⟩ : ∃ n, fuel = n + 1 := ⟨fuel - 1, by simp at h; omega⟩
    rw [List.length_cons] at h
    obtain ⟨b, bs, hbs, hhead⟩ := utf8Head_utf8EncodeChar c (cs.flatMap String.utf8EncodeChar)
    rw [List.flatMap_cons, hbs, List.cons_append, decodeFrom, hhead]
    simp only [ih (Nat.le_of_succ_le_succ h)]
    rfl

theorem length_le_length_utf8 (s : String) : s.toList.length ≤ (utf8 s).length := by
  rw [utf8_eq_flatMap]
  generalize s.toList = cs
  induction cs with
  | nil => exact Nat.le_refl _
  | cons c cs ih =>
    have : 0 < (String.utf8EncodeChar c).length := by
      rw [String.length_utf8EncodeChar]
      exact c.utf8Size_pos
    rw [List.flatMap_cons, List.length_append, List.length_cons]
    omega

theorem toList_loop (bs : ByteArray) (i : Nat) (read : List UInt8) :
    ByteArray.toList.loop bs i read = read.reverse ++ bs.data.toList.drop i := by
  fun_induction ByteArray.toList.loop bs i read with
  | case1 i read h ih =>
    have hget : bs.get! i = bs.data.toList.get ⟨i, h⟩ := by
      simp only [ByteArray.get!]
      rw [getElem!_pos bs.data i h]
      rfl
    have hdrop : bs.data.toList.drop i
        = bs.data.toList.get ⟨i, h⟩ :: bs.data.toList.drop (i + 1) := List.drop_eq_getElem_cons h
    rw [ih, List.reverse_cons, List.append_assoc, hget, List.singleton_append, hdrop]
  | case2 i read h =>
    have hlength : bs.data.toList.length ≤ i := Nat.le_of_not_lt h
    rw [List.drop_eq_nil_of_le hlength, List.append_nil]

theorem toList_mk (bs : List UInt8) : (ByteArray.mk bs.toArray).toList = bs := by
  rw [ByteArray.toList, toList_loop]
  rfl

/-- The bytes of a text are read as the text. -/
theorem decodeUtf8_utf8 (s : String) : decodeUtf8 ⟨(utf8 s).toArray⟩ = .ok s := by
  have hsize : s.toList.length ≤ (ByteArray.mk (utf8 s).toArray).size :=
    length_le_length_utf8 s
  have hdecode := decodeFrom_flatMap s.toList hsize 0
  rw [← utf8_eq_flatMap] at hdecode
  rw [decodeUtf8, toList_mk, hdecode]
  simp only [Except.map, String.ofList_toList]

theorem decodeLossyFrom_flatMap (cs : List Char) {fuel : Nat} (h : cs.length ≤ fuel) :
    decodeLossyFrom fuel (cs.flatMap String.utf8EncodeChar) = cs := by
  induction cs generalizing fuel with
  | nil => cases fuel <;> rfl
  | cons c cs ih =>
    obtain ⟨fuel, rfl⟩ : ∃ n, fuel = n + 1 := ⟨fuel - 1, by simp at h; omega⟩
    rw [List.length_cons] at h
    obtain ⟨b, bs, hbs, hhead⟩ := utf8Head_utf8EncodeChar c (cs.flatMap String.utf8EncodeChar)
    rw [List.flatMap_cons, hbs, List.cons_append, decodeLossyFrom, hhead]
    simp only [ih (Nat.le_of_succ_le_succ h)]

/-- Nothing is lost of the bytes of a text. -/
theorem decodeLossy_utf8 (s : String) : decodeLossy ⟨(utf8 s).toArray⟩ = s := by
  have hsize : s.toList.length ≤ (ByteArray.mk (utf8 s).toArray).size :=
    length_le_length_utf8 s
  have hdecode := decodeLossyFrom_flatMap s.toList hsize
  rw [← utf8_eq_flatMap] at hdecode
  rw [decodeLossy, toList_mk, hdecode, String.ofList_toList]

theorem utf8_injective {s t : String} (h : Script.utf8 s = Script.utf8 t) : s = t := by
  have hs := decodeUtf8_utf8 s
  rw [h, decodeUtf8_utf8 t] at hs
  exact (Except.ok.inj hs).symm

/-! ## Bytes that are text -/

theorem toNat_ofNat {n : Nat} (h : n < 0xd800 ∨ 0xdfff < n ∧ n < 0x110000) :
    (Char.ofNat n).toNat = n := by
  have hvalid : n.isValidChar := h
  rw [Char.ofNat, dif_pos hvalid]
  rfl

theorem ofNat_eq_of_toNat {n : Nat} {b : UInt8} (h : b.toNat = n) : UInt8.ofNat n = b := by
  rw [← h, UInt8.ofNat_toNat]

section Encoding

variable {b b₁ b₂ b₃ : UInt8}

theorem utf8EncodeChar_one (hb : b.toNat < 0x80) :
    String.utf8EncodeChar (Char.ofNat b.toNat) = [b] := by
  unfold String.utf8EncodeChar
  simp only [Char.toNat_val, toNat_ofNat (n := b.toNat) (.inl (by omega))]
  rw [if_pos (by omega), UInt8.ofNat_toNat]

theorem utf8EncodeChar_two (hb : 0xc2 ≤ b.toNat ∧ b.toNat ≤ 0xdf)
    (h₁ : 0x80 ≤ b₁.toNat ∧ b₁.toNat ≤ 0xbf) :
    String.utf8EncodeChar (Char.ofNat (b.toNat % 0x20 * 0x40 + b₁.toNat % 0x40)) = [b, b₁] := by
  obtain ⟨n, hn⟩ : ∃ n, n = b.toNat % 0x20 * 0x40 + b₁.toNat % 0x40 := ⟨_, rfl⟩
  unfold String.utf8EncodeChar
  simp only [Char.toNat_val, ← hn, toNat_ofNat (n := n) (.inl (by omega))]
  rw [if_neg (by omega), if_pos (by omega), ofNat_eq_of_toNat (b := b) (by omega),
    ofNat_eq_of_toNat (b := b₁) (by omega)]

theorem utf8EncodeChar_three (hb : 0xe0 ≤ b.toNat ∧ b.toNat ≤ 0xef)
    (h₁ : 0x80 ≤ b₁.toNat ∧ b₁.toNat ≤ 0xbf) (h₂ : 0x80 ≤ b₂.toNat ∧ b₂.toNat ≤ 0xbf)
    (hlow : b.toNat = 0xe0 → 0xa0 ≤ b₁.toNat) (hsurrogate : b.toNat = 0xed → b₁.toNat ≤ 0x9f) :
    String.utf8EncodeChar (Char.ofNat ((b.toNat % 0x10 * 0x40 + b₁.toNat % 0x40) * 0x40
      + b₂.toNat % 0x40)) = [b, b₁, b₂] := by
  obtain ⟨n, hn⟩ : ∃ n, n = (b.toNat % 0x10 * 0x40 + b₁.toNat % 0x40) * 0x40 + b₂.toNat % 0x40 :=
    ⟨_, rfl⟩
  unfold String.utf8EncodeChar
  simp only [Char.toNat_val, ← hn, toNat_ofNat (n := n) (by omega)]
  rw [if_neg (by omega), if_neg (by omega), if_pos (by omega), ofNat_eq_of_toNat (b := b) (by omega),
    ofNat_eq_of_toNat (b := b₁) (by omega), ofNat_eq_of_toNat (b := b₂) (by omega)]

theorem utf8EncodeChar_four (hb : 0xf0 ≤ b.toNat ∧ b.toNat ≤ 0xf4)
    (h₁ : 0x80 ≤ b₁.toNat ∧ b₁.toNat ≤ 0xbf) (h₂ : 0x80 ≤ b₂.toNat ∧ b₂.toNat ≤ 0xbf)
    (h₃ : 0x80 ≤ b₃.toNat ∧ b₃.toNat ≤ 0xbf)
    (hlow : b.toNat = 0xf0 → 0x90 ≤ b₁.toNat) (hhigh : b.toNat = 0xf4 → b₁.toNat ≤ 0x8f) :
    String.utf8EncodeChar (Char.ofNat (((b.toNat % 0x08 * 0x40 + b₁.toNat % 0x40) * 0x40
      + b₂.toNat % 0x40) * 0x40 + b₃.toNat % 0x40)) = [b, b₁, b₂, b₃] := by
  obtain ⟨n, hn⟩ : ∃ n, n = ((b.toNat % 0x08 * 0x40 + b₁.toNat % 0x40) * 0x40 + b₂.toNat % 0x40)
      * 0x40 + b₃.toNat % 0x40 := ⟨_, rfl⟩
  unfold String.utf8EncodeChar
  simp only [Char.toNat_val, ← hn, toNat_ofNat (n := n) (by omega)]
  rw [if_neg (by omega), if_neg (by omega), if_neg (by omega), ofNat_eq_of_toNat (b := b) (by omega),
    ofNat_eq_of_toNat (b := b₁) (by omega), ofNat_eq_of_toNat (b := b₂) (by omega),
    ofNat_eq_of_toNat (b := b₃) (by omega)]

end Encoding

theorem char_of_readTail_cons {value count : Nat} {lo hi : UInt8} {ranges : List (UInt8 × UInt8)}
    {bs rest : List UInt8} {c : Char}
    (h : readTail value count ((lo, hi) :: ranges) bs = .char c rest) :
    ∃ b bs', bs = b :: bs' ∧ (lo.toNat ≤ b.toNat ∧ b.toNat ≤ hi.toNat)
      ∧ readTail (value * 0x40 + b.toNat % 0x40) (count + 1) ranges bs' = .char c rest := by
  cases bs with
  | nil => cases h
  | cons b bs =>
    rw [readTail] at h
    split at h
    · next hb =>
      exact ⟨b, bs, rfl, ⟨UInt8.le_iff_toNat_le.1 hb.1, UInt8.le_iff_toNat_le.1 hb.2⟩, h⟩
    · cases h

/-- What is read as a character are the bytes of that character. -/
theorem eq_of_utf8Head {b : UInt8} {bs rest : List UInt8} {c : Char}
    (h : utf8Head b bs = .char c rest) : b :: bs = String.utf8EncodeChar c ++ rest := by
  have htwo (hb : 0xc2 ≤ b.toNat ∧ b.toNat ≤ 0xdf)
      (h : readTail (leadValue b 1) 1 [(0x80, 0xbf)] bs = .char c rest) :
      b :: bs = String.utf8EncodeChar c ++ rest := by
    obtain ⟨b₁, bs, rfl, h₁, h⟩ := char_of_readTail_cons h
    cases h
    rw [show leadValue b 1 = b.toNat % 0x20 from rfl, utf8EncodeChar_two hb h₁]
    rfl
  have hthree {lo hi : UInt8} (hb : 0xe0 ≤ b.toNat ∧ b.toNat ≤ 0xef)
      (hlo : 0x80 ≤ lo.toNat ∧ (b.toNat = 0xe0 → 0xa0 ≤ lo.toNat))
      (hhi : hi.toNat ≤ 0xbf ∧ (b.toNat = 0xed → hi.toNat ≤ 0x9f))
      (h : readTail (leadValue b 2) 1 [(lo, hi), (0x80, 0xbf)] bs = .char c rest) :
      b :: bs = String.utf8EncodeChar c ++ rest := by
    obtain ⟨b₁, bs, rfl, h₁, h⟩ := char_of_readTail_cons h
    obtain ⟨b₂, bs, rfl, h₂, h⟩ := char_of_readTail_cons h
    cases h
    rw [show leadValue b 2 = b.toNat % 0x10 from rfl,
      utf8EncodeChar_three hb (by omega) h₂ (by omega) (by omega)]
    rfl
  have hfour {lo hi : UInt8} (hb : 0xf0 ≤ b.toNat ∧ b.toNat ≤ 0xf4)
      (hlo : 0x80 ≤ lo.toNat ∧ (b.toNat = 0xf0 → 0x90 ≤ lo.toNat))
      (hhi : hi.toNat ≤ 0xbf ∧ (b.toNat = 0xf4 → hi.toNat ≤ 0x8f))
      (h : readTail (leadValue b 3) 1 [(lo, hi), (0x80, 0xbf), (0x80, 0xbf)] bs = .char c rest) :
      b :: bs = String.utf8EncodeChar c ++ rest := by
    obtain ⟨b₁, bs, rfl, h₁, h⟩ := char_of_readTail_cons h
    obtain ⟨b₂, bs, rfl, h₂, h⟩ := char_of_readTail_cons h
    obtain ⟨b₃, bs, rfl, h₃, h⟩ := char_of_readTail_cons h
    cases h
    rw [show leadValue b 3 = b.toNat % 0x08 from rfl,
      utf8EncodeChar_four hb (by omega) h₂ h₃ (by omega) (by omega)]
    rfl
  rw [utf8Head, tailRanges_eq] at h
  by_cases hascii : b.toNat < 0x80
  · rw [if_pos hascii] at h
    cases h
    rw [show leadValue b [].length = b.toNat from rfl, utf8EncodeChar_one hascii]
    rfl
  rw [if_neg hascii] at h
  split at h
  · cases h
  next ranges hranges =>
  split at hranges
  · next hb =>
    cases hranges
    exact htwo hb h
  split at hranges
  · next hb =>
    cases hranges
    exact hthree (by omega) (by simp) (by simp [hb]) h
  split at hranges
  · next hb =>
    cases hranges
    exact hthree (by omega) (by simp [hb]) (by simp) h
  split at hranges
  · next hlow hsurrogate hb =>
    cases hranges
    exact hthree (by omega) (by simp [hlow]) (by simp [hsurrogate]) h
  split at hranges
  · next hb =>
    cases hranges
    exact hfour (by omega) (by simp) (by simp [hb]) h
  split at hranges
  · next hlow hb =>
    cases hranges
    have hhigh : b.toNat ≠ 0xf4 := by omega
    exact hfour (by omega) (by simp [hlow]) (by simp [hhigh]) h
  split at hranges
  · next hb =>
    cases hranges
    exact hfour (by omega) (by simp [hb]) (by simp) h
  · cases hranges

/-- Bytes that are read without a replacement character are those of what is read. -/
theorem eq_flatMap_of_decodeLossyFrom {fuel : Nat} {bs : List UInt8} (hfuel : bs.length ≤ fuel)
    (h : '\ufffd' ∉ decodeLossyFrom fuel bs) :
    bs = (decodeLossyFrom fuel bs).flatMap String.utf8EncodeChar := by
  induction fuel generalizing bs with
  | zero =>
    rw [List.eq_nil_of_length_eq_zero (Nat.le_zero.1 hfuel)]
    rfl
  | succ fuel ih =>
    cases bs with
    | nil => rfl
    | cons b bs =>
      rw [decodeLossyFrom] at h ⊢
      cases hhead : utf8Head b bs with
      | char c rest =>
        simp only [hhead] at h ⊢
        have hbytes := eq_of_utf8Head hhead
        have hlength := congrArg List.length hbytes
        rw [List.length_append, String.length_utf8EncodeChar] at hlength
        have hrest : rest.length ≤ fuel := by
          have := c.utf8Size_pos
          omega
        rw [List.flatMap_cons, ← ih hrest fun hmem => h (List.mem_cons_of_mem _ hmem)]
        exact hbytes
      | invalid count rest =>
        simp only [hhead] at h
        exact absurd List.mem_cons_self h
      | incomplete =>
        simp only [hhead] at h
        exact absurd List.mem_cons_self h

theorem eq_utf8_of_decodeLossy {bytes : List UInt8} {s : String}
    (hread : decodeLossy ⟨bytes.toArray⟩ = s) (h : '\ufffd' ∉ s.toList) : bytes = utf8 s := by
  subst hread
  rw [decodeLossy, toList_mk, String.toList_ofList] at h
  rw [decodeLossy, toList_mk, utf8_eq_flatMap, String.toList_ofList]
  exact eq_flatMap_of_decodeLossyFrom (Nat.le_refl _) h

end ScriptedViews.Text

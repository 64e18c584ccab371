import Mathlib.Data.Bool.AllAny
import Mathlib.Data.List.Infix
import Mathlib.Data.List.TakeWhile
import ScriptedViews.Proofs.Xml.Spelling

set_option autoImplicit false

/-! # What the readers of tokens have read

A reader that succeeds has read a token that follows the grammar, and the token and what is left
spell the characters that the reader was given. -/

namespace ScriptedViews.Xml

/-! ## Classes of characters -/

/-- What holds of all characters of a text can be checked one by one. -/
theorem forall_of_all {p : Char → Prop} [DecidablePred p] {cs : List Char}
    (h : cs.all (fun c => decide (p c)) = true) : ∀ c ∈ cs, p c :=
  List.all_iff_forall_prop.1 h

theorem exists_of_inRanges {ranges : List (Nat × Nat)} {c : Char} (h : inRanges ranges c = true) :
    ∃ r ∈ ranges, r.1 ≤ c.toNat ∧ c.toNat ≤ r.2 := by
  simpa only [inRanges, List.any_eq_true, Bool.and_eq_true, decide_eq_true_eq] using h

theorem exists_of_isNameChar {c : Char} (h : isNameChar c = true) :
    ∃ r ∈ nameStartRanges ++ nameTailRanges, r.1 ≤ c.toNat ∧ c.toNat ≤ r.2 := by
  simp only [isNameChar, Bool.or_eq_true] at h
  rcases h with h | h
  · obtain ⟨r, hr, hc⟩ := exists_of_inRanges h
    exact ⟨r, List.mem_append_left _ hr, hc⟩
  · obtain ⟨r, hr, hc⟩ := exists_of_inRanges h
    exact ⟨r, List.mem_append_right _ hr, hc⟩

/-- Characters of names are characters of documents. -/
theorem isXmlChar_of_isNameChar {c : Char} (h : isNameChar c = true) : isXmlChar c = true := by
  have hranges : ∀ r ∈ nameStartRanges ++ nameTailRanges,
      0x20 ≤ r.1 ∧ (r.2 < 0xfffe ∨ 0xffff < r.1) := by decide
  obtain ⟨r, hr, hlow, hhigh⟩ := exists_of_isNameChar h
  have hbounds := hranges r hr
  have hprintable : ¬ c.toNat < 0x20 := by omega
  simp only [isXmlChar, hprintable, if_false, Bool.and_eq_true, bne_iff_ne, ne_eq]
  omega

theorem isXmlChar_of_isSpace {c : Char} (h : isSpace c = true) : isXmlChar c = true := by
  simp only [isSpace, Bool.or_eq_true, beq_iff_eq] at h
  rcases h with ((rfl | rfl) | rfl) | rfl <;> rfl

/-! ## Results -/

/-- A computation whose first part is done gives a result only if that part does. -/
theorem exists_of_bind {α β : Type} {x : Except XmlError α} {f : α → Except XmlError β} {b : β}
    (h : (x >>= f) = .ok b) : ∃ a, x = .ok a ∧ f a = .ok b := by
  cases x with
  | error e => cases h
  | ok a => exact ⟨a, rfl, h⟩

/-! ## Characters and words -/

theorem skipSpace_spec (cs : List Char) :
    ∃ space, cs = space ++ skipSpace cs ∧ (∀ c ∈ space, isSpace c)
      ∧ ∀ c, (skipSpace cs).head? = some c → isSpace c = false := by
  refine ⟨cs.takeWhile isSpace, List.takeWhile_append_dropWhile.symm,
    fun c hc => List.mem_takeWhile_imp hc, fun c hc => ?_⟩
  have hnot := List.head?_dropWhile_not isSpace cs
  unfold skipSpace at hc
  rw [hc] at hnot
  simpa using hnot

theorem startsWith_iff {word : String} {cs : List Char} :
    startsWith word cs = true ↔ word.toList <+: cs :=
  List.isPrefixOf_iff_prefix

theorem append_of_skipWord {word : String} {cs rest : List Char}
    (h : skipWord word cs = .ok rest) : cs = word.toList ++ rest := by
  unfold skipWord at h
  split at h
  · rename_i hword
    obtain ⟨tail, rfl⟩ := startsWith_iff.1 hword
    cases h
    rw [← String.length_toList, List.drop_left]
  · cases h

theorem containsWord_iff {word : String} {cs : List Char} :
    containsWord word cs = true ↔ word.toList <:+: cs := by
  induction cs with
  | nil =>
    simp only [containsWord, String.isEmpty_iff, List.infix_nil, String.toList_eq_nil_iff]
  | cons c cs ih =>
    rw [containsWord, Bool.or_eq_true, startsWith_iff, ih, List.infix_cons_iff]

/-- A word cannot start in characters that its first one is none of. -/
theorem infix_of_infix_append {w : Char} {ws a b : List Char} (hw : w ∉ a)
    (h : w :: ws <:+: a ++ b) : w :: ws <:+: b := by
  induction a with
  | nil => exact h
  | cons c a ih =>
    simp only [List.mem_cons, not_or] at hw
    rw [List.cons_append, List.infix_cons_iff] at h
    rcases h with h | h
    · exact absurd (List.cons_prefix_cons.1 h).1 hw.1
    · exact ih hw.2 h

/-- What is read up to some place: characters of a document, none of them at such a place. -/
theorem append_of_readUntil {stop : List Char → Bool} {cs text rest : List Char}
    (h : readUntil stop cs = .ok (text, rest)) :
    cs = text ++ rest ∧ (∀ c ∈ text, isXmlChar c) ∧ (rest = [] ∨ stop rest = true)
      ∧ ∀ a b, text = a ++ b → b ≠ [] → stop (b ++ rest) = false := by
  induction cs generalizing text rest with
  | nil =>
    cases h
    refine ⟨rfl, by simp, .inl rfl, fun a b hab hb => ?_⟩
    simp only [List.nil_eq, List.append_eq_nil_iff] at hab
    exact absurd hab.2 hb
  | cons c cs ih =>
    unfold readUntil at h
    split at h
    · cases h
    · rename_i hchar
      split at h
      · rename_i hstop
        cases h
        refine ⟨rfl, by simp, .inr hstop, fun a b hab hb => ?_⟩
        simp only [List.nil_eq, List.append_eq_nil_iff] at hab
        exact absurd hab.2 hb
      · rename_i hstop
        cases hread : readUntil stop cs with
        | error e => rw [hread] at h; cases h
        | ok r =>
          obtain ⟨text', rest'⟩ := r
          rw [hread] at h
          cases h
          obtain ⟨rfl, hchars, hend, hnone⟩ := ih hread
          refine ⟨rfl, ?_, hend, fun a b hab hb => ?_⟩
          · simpa using ⟨by simpa using hchar, hchars⟩
          · cases a with
            | nil =>
              rw [List.nil_append] at hab
              simpa only [← hab, List.cons_append, Bool.not_eq_true] using hstop
            | cons a' a =>
              simp only [List.cons_append, List.cons.injEq] at hab
              exact hnone a b hab.2 hb

/-- No word stands in what has been read up to it. -/
theorem not_infix_of_readUntil {word : String} (hword : word.toList ≠ []) {cs text rest : List Char}
    (h : readUntil (startsWith word) cs = .ok (text, rest)) : ¬ word.toList <:+: text := by
  obtain ⟨-, -, -, hnone⟩ := append_of_readUntil h
  rintro ⟨a, b, rfl⟩
  have hstop := hnone a (word.toList ++ b) (by simp) (by simp [hword])
  have hstart : startsWith word (word.toList ++ b ++ rest) = true :=
    startsWith_iff.2 (by simp)
  rw [hstart] at hstop
  cases hstop

/-! ## Names -/

theorem isPartName_of {cs : List Char} (hne : cs ≠ []) (hstart : startsName cs = true)
    (hall : ∀ c ∈ cs, isNameChar c = true) : IsPartName cs :=
  ⟨hne, hstart, hall⟩

theorem append_of_readQName {cs rest : List Char} {n : WrittenName}
    (h : readQName cs = .ok (n, rest)) : cs = n.spell ++ rest ∧ n.IsValid := by
  have hpart : ∀ c ∈ cs.takeWhile isNameChar, isNameChar c = true :=
    fun c hc => List.mem_takeWhile_imp hc
  have hcs : cs = cs.takeWhile isNameChar ++ cs.dropWhile isNameChar :=
    List.takeWhile_append_dropWhile.symm
  unfold readQName at h
  generalize cs.takeWhile isNameChar = part at h hpart hcs
  generalize cs.dropWhile isNameChar = tail at h hcs
  subst hcs
  dsimp only at h
  split at h
  · rename_i after
    have hlocal : ∀ c ∈ after.takeWhile isNameChar, isNameChar c = true :=
      fun c hc => List.mem_takeWhile_imp hc
    have hafter : after = after.takeWhile isNameChar ++ after.dropWhile isNameChar :=
      List.takeWhile_append_dropWhile.symm
    generalize after.takeWhile isNameChar = localPart at h hlocal hafter
    generalize after.dropWhile isNameChar = tail at h hafter
    subst hafter
    split at h
    · cases h
    · split at h
      · rename_i hok
        simp only [Bool.and_eq_true, Bool.not_eq_true', List.isEmpty_eq_false_iff] at hok
        obtain ⟨⟨hstart, hstart'⟩, hne⟩ := hok
        cases h
        refine ⟨by simp [WrittenName.spell], ⟨?_, fun hq => ⟨rfl, ?_⟩⟩⟩
        · simpa using isPartName_of hne hstart' hlocal
        · simp only [ne_eq, String.ofList_eq_empty_iff] at hq
          simpa using isPartName_of hq hstart hpart
      · cases h
  · split at h
    · rename_i hok
      simp only [Bool.and_eq_true, Bool.not_eq_true', List.isEmpty_eq_false_iff] at hok
      cases h
      refine ⟨by simp [WrittenName.spell], ⟨?_, fun hq => absurd rfl hq⟩⟩
      simpa using isPartName_of hok.2 hok.1 hpart
    · cases h

theorem append_of_readName {cs name rest : List Char} (h : readName cs = .ok (name, rest)) :
    cs = name ++ rest ∧ (∀ c ∈ name, (isNameChar c || c == ':') = true)
      ∧ name.head?.any (fun c => isNameStart c || c == ':') = true := by
  unfold readName at h
  split at h
  · rename_i c tail
    split at h
    · rename_i hstart
      cases h
      refine ⟨?_, fun d hd => ?_, hstart⟩
      · rw [List.cons_append, List.takeWhile_append_dropWhile]
      · rcases List.mem_cons.1 hd with rfl | hd
        · simp only [isNameChar, Bool.or_eq_true] at hstart ⊢
          rcases hstart with hstart | hstart
          · exact .inl (.inl hstart)
          · exact .inr hstart
        · have hd' := List.mem_takeWhile_imp hd
          exact hd'
    · cases h
  · cases h

/-! ## Attributes -/

theorem append_of_readAttribute {cs rest : List Char} {a : RawAttribute}
    (h : readAttribute cs = .ok (a, rest)) :
    ∃ beforeEquals afterEquals quote,
      cs = a.name.spell ++ beforeEquals ++ '=' :: afterEquals ++ quote :: a.value ++ quote :: rest
      ∧ a.name.IsValid ∧ (∀ c ∈ beforeEquals, isSpace c) ∧ (∀ c ∈ afterEquals, isSpace c)
      ∧ (quote = '"' ∨ quote = '\'')
      ∧ ∀ c ∈ a.value, isXmlChar c ∧ c ≠ quote ∧ c ≠ '<' := by
  unfold readAttribute at h
  obtain ⟨⟨name, afterName⟩, hname, hsign⟩ := exists_of_bind h
  obtain ⟨rfl, hvalid⟩ := append_of_readQName hname
  obtain ⟨before, hbefore, hspace, -⟩ := skipSpace_spec afterName
  dsimp only at hsign
  split at hsign
  · rename_i afterSign heq
    obtain ⟨after, hafter, hspace', -⟩ := skipSpace_spec afterSign
    split at hsign
    · rename_i quote tail hquoted
      split at hsign
      · rename_i hquote
        obtain ⟨⟨value, left⟩, hvalue, hclose⟩ := exists_of_bind hsign
        obtain ⟨rfl, hchars, -, hnone⟩ := append_of_readUntil hvalue
        dsimp only at hclose
        split at hclose
        · split at hclose
          · rename_i hsame
            cases hclose
            subst hsame
            refine ⟨before, after, _, ?_, hvalid, hspace, hspace', hquote, fun c hc => ?_⟩
            · rw [hbefore, heq, hafter, hquoted]
              simp
            · obtain ⟨a, b, hab⟩ := List.append_of_mem hc
              have hstop := hnone a (c :: b) hab (by simp)
              simp only [List.cons_append, List.head?_cons, Option.any_some, Bool.or_eq_false_iff,
                beq_eq_false_iff_ne] at hstop
              exact ⟨hchars c hc, hstop⟩
          · cases hclose
        · cases hclose
      · cases hsign
    · cases hsign
  · cases hsign

/-! ## Comments and instructions -/

theorem append_of_skipComment {cs rest : List Char} (hcs : startsWith "<!--" cs = true)
    (h : skipComment cs = .ok rest) :
    ∃ text, cs = Piece.spellComment text ++ rest ∧ Piece.IsCommentText text := by
  obtain ⟨tail, rfl⟩ := startsWith_iff.1 hcs
  unfold skipComment at h
  obtain ⟨⟨text, left⟩, htext, hend⟩ := exists_of_bind h
  obtain ⟨left', hleft, hcheck⟩ := exists_of_bind hend
  obtain ⟨hsplit, hchars, -, -⟩ := append_of_readUntil htext
  have htail := append_of_skipWord hleft
  split at hcheck
  · cases hcheck
  · rename_i hok
    cases hcheck
    simp only [Bool.or_eq_true, not_or, containsWord_iff, beq_iff_eq] at hok
    have hdrop : ("<!--".toList ++ tail).drop 4 = tail := by simp
    refine ⟨text, ?_, ?_⟩
    · rw [← hdrop, hsplit, htail]
      simp [Piece.spellComment]
    · exact ⟨hchars, hok.1, hok.2⟩

theorem append_of_skipInstruction {cs rest : List Char} (hcs : startsWith "<?" cs = true)
    (h : skipInstruction cs = .ok rest) :
    ∃ text, cs = Piece.spellInstruction text ++ rest ∧ Piece.IsInstructionText text := by
  obtain ⟨tail, rfl⟩ := startsWith_iff.1 hcs
  have hdrop : ("<?".toList ++ tail).drop 2 = tail := by simp
  unfold skipInstruction at h
  split at h
  · cases h
  · rename_i hxml
    obtain ⟨⟨name, afterName⟩, hname, hread⟩ := exists_of_bind h
    obtain ⟨⟨text, left⟩, htext, hend⟩ := exists_of_bind hread
    obtain ⟨hsplit, hchars, -, hnone⟩ := append_of_readUntil htext
    have hleft := append_of_skipWord hend
    obtain ⟨space, hspace, hspaces, -⟩ := skipSpace_spec afterName
    rw [hdrop] at hname
    obtain ⟨htail, hnames, hhead⟩ := append_of_readName hname
    have htext' : tail = (name ++ space ++ text) ++ ("?>".toList ++ rest) := by
      rw [htail, hspace, hsplit, hleft]
      simp only [List.append_assoc]
    refine ⟨name ++ space ++ text, ?_, ?_⟩
    · rw [htext']
      simp [Piece.spellInstruction]
    · refine ⟨fun c hc => ?_, fun hinfix => ?_, ?_, fun hprefix => hxml ?_⟩
      · rcases List.mem_append.1 hc with hc | hc
        · rcases List.mem_append.1 hc with hc | hc
          · have hc' := hnames c hc
            simp only [Bool.or_eq_true, beq_iff_eq] at hc'
            rcases hc' with hc' | rfl
            · exact isXmlChar_of_isNameChar hc'
            · rfl
          · exact isXmlChar_of_isSpace (hspaces c hc)
        · exact hchars c hc
      · -- the question mark that would end it stands neither in the name nor in the white space
        refine not_infix_of_readUntil (by simp) htext (infix_of_infix_append ?_ hinfix)
        intro hmem
        rcases List.mem_append.1 hmem with hmem | hmem
        · exact absurd (hnames _ hmem) (by decide)
        · exact absurd (hspaces _ hmem) (by decide)
      · cases name with
        | nil => cases hhead
        | cons c name => exact hhead
      · rw [startsWith_iff, htext']
        obtain ⟨more, hmore⟩ := hprefix
        exact ⟨more ++ ("?>".toList ++ rest), by rw [← hmore]; simp⟩

end ScriptedViews.Xml

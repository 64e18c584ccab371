import ScriptedViews.Proofs.Xml.Tags

set_option autoImplicit false

/-! # Tokens that are spelled

The other direction: where a token that follows the grammar is spelled and what comes after it
cannot belong to it, its reader reads that token and nothing else. -/

namespace ScriptedViews.Xml

/-! ## Characters and words -/

theorem skipSpace_append {space : List Char} (h : ∀ c ∈ space, isSpace c) (cs : List Char) :
    skipSpace (space ++ cs) = skipSpace cs :=
  List.dropWhile_append_of_pos h

theorem skipSpace_cons {c : Char} (h : isSpace c = false) (cs : List Char) :
    skipSpace (c :: cs) = c :: cs :=
  List.dropWhile_cons_of_neg (by simp [h])

theorem skipWord_append (word : String) (rest : List Char) :
    skipWord word (word.toList ++ rest) = .ok rest := by
  rw [skipWord, if_pos (startsWith_iff.2 (List.prefix_append _ _)), ← String.length_toList,
    List.drop_left]

theorem readUntil_append {stop : List Char → Bool} {text rest : List Char}
    (hchars : ∀ c ∈ text, isXmlChar c)
    (hnone : ∀ a b, text = a ++ b → b ≠ [] → stop (b ++ rest) = false)
    (hstop : stop rest = true) (hrest : ∃ c cs, rest = c :: cs ∧ isXmlChar c = true) :
    readUntil stop (text ++ rest) = .ok (text, rest) := by
  induction text with
  | nil =>
    obtain ⟨c, cs, rfl, hc⟩ := hrest
    simp [readUntil, hc, hstop]
  | cons c text ih =>
    simp only [List.mem_cons, forall_eq_or_imp] at hchars
    have hhere : stop (c :: (text ++ rest)) = false := hnone [] (c :: text) rfl (by simp)
    have hmore := ih hchars.2 fun a b hab hb => hnone (c :: a) b (by rw [hab]; rfl) hb
    rw [List.cons_append, readUntil]
    simp only [hchars.1, hhere, hmore, Bool.not_true, Bool.false_eq_true, if_false]
    rfl

/-- Whether no end of a word is a beginning of it, so that it cannot overlap itself. -/
def IsBorderless (word : List Char) : Prop :=
  ∀ v ∈ word.tails, v ≠ [] → v <+: word → v = word

instance (word : List Char) : Decidable (IsBorderless word) :=
  inferInstanceAs (Decidable (∀ v ∈ word.tails, v ≠ [] → v <+: word → v = word))

/-- A word that follows a text it does not stand in stands nowhere before that. -/
theorem not_prefix_of_borderless {word text rest b : List Char} (hword : IsBorderless word)
    (htext : ¬ word <:+: text) (hb : b <:+ text) (hne : b ≠ []) :
    ¬ word <+: b ++ (word ++ rest) := by
  intro hprefix
  rcases Nat.le_total word.length b.length with hle | hle
  · have hin : word <+: b := List.prefix_of_prefix_length_le hprefix (List.prefix_append _ _) hle
    exact htext (hin.isInfix.trans hb.isInfix)
  · obtain ⟨v, hv⟩ := List.prefix_of_prefix_length_le (List.prefix_append _ _) hprefix hle
    by_cases hnil : v = []
    · rw [hnil, List.append_nil] at hv
      exact htext (hv ▸ hb.isInfix)
    · have hborder : v <+: word := by
        obtain ⟨more, hmore⟩ := hprefix
        rw [← hv, List.append_assoc, List.append_cancel_left_eq] at hmore
        have hv' : v <+: b ++ v ++ rest := ⟨more, hmore⟩
        rw [hv] at hv'
        refine List.prefix_of_prefix_length_le hv' (List.prefix_append _ _) ?_
        rw [← hv]
        simp
      have hsame := hword v ((List.mem_tails _ _).2 ⟨b, hv⟩) hnil hborder
      rw [hsame] at hv
      exact hne (List.append_left_eq_self.1 hv)

/-- Characters are read up to a word that is spelled after them. -/
theorem readUntil_word (word : String) {text : List Char} (hword : IsBorderless word.toList)
    (hfirst : word.toList.head?.any isXmlChar = true) (hchars : ∀ c ∈ text, isXmlChar c)
    (htext : ¬ word.toList <:+: text) (rest : List Char) :
    readUntil (startsWith word) (text ++ (word.toList ++ rest)) = .ok (text, word.toList ++ rest) := by
  refine readUntil_append hchars (fun a b hab hb => ?_) (startsWith_iff.2 (List.prefix_append _ _)) ?_
  · rw [← Bool.not_eq_true, startsWith_iff]
    exact not_prefix_of_borderless hword htext ⟨a, hab.symm⟩ hb
  · cases hcs : word.toList with
    | nil =>
      rw [hcs] at hfirst
      cases hfirst
    | cons c cs =>
      rw [hcs] at hfirst
      exact ⟨c, cs ++ rest, rfl, hfirst⟩

/-- A word does not go beyond a character that it does not have. -/
theorem prefix_of_prefix_append_cons {word a b : List Char} {c : Char} (hc : c ∉ word)
    (h : word <+: a ++ c :: b) : word <+: a := by
  rcases Nat.le_total word.length a.length with hle | hle
  · exact List.prefix_of_prefix_length_le h (List.prefix_append _ _) hle
  · obtain ⟨v, hv⟩ := List.prefix_of_prefix_length_le (List.prefix_append _ _) h hle
    cases v with
    | nil => exact ⟨[], by rw [← hv]; simp⟩
    | cons d v =>
      obtain ⟨more, hmore⟩ := h
      rw [← hv, List.append_assoc, List.append_cancel_left_eq, List.cons_append,
        List.cons.injEq] at hmore
      exact absurd (by rw [← hv, ← hmore.1]; simp) hc

/-- What is left after a run that ends before a character. -/
theorem dropWhile_append_cons {p : Char → Bool} {c : Char} (hc : p c = false) {a b : List Char} :
    (a ++ c :: b).dropWhile p = a.dropWhile p ++ c :: b := by
  rw [List.dropWhile_append, List.dropWhile_cons_of_neg (by simp [hc])]
  split
  · rename_i hempty
    rw [List.isEmpty_iff.1 hempty, List.nil_append]
  · rfl

/-! ## Names -/

/-- Whether a character ends a name. -/
def EndsName (c : Char) : Prop :=
  isNameChar c = false ∧ c ≠ ':'

theorem endsName_of_isSpace {c : Char} (h : isSpace c = true) : EndsName c := by
  simp only [isSpace, Bool.or_eq_true, beq_iff_eq] at h
  rcases h with ((rfl | rfl) | rfl) | rfl <;> exact ⟨by decide, by decide⟩

theorem isSpace_of_isNameChar {c : Char} (h : isNameChar c = true) : isSpace c = false := by
  by_contra hspace
  rw [(endsName_of_isSpace (by simpa using hspace)).1] at h
  cases h

/-- A name is read up to what ends it. -/
theorem readQName_spell {n : WrittenName} (h : n.IsValid) {c : Char} (hc : EndsName c)
    (rest : List Char) : readQName (n.spell ++ c :: rest) = .ok (n, c :: rest) := by
  have hlocal := takeWhile_append_cons (b := rest) h.localName.2.2 hc.1
  have hnonempty : n.localName.toList.isEmpty = false :=
    List.isEmpty_eq_false_iff.2 h.localName.1
  obtain ⟨qualifier, localName, hasColon⟩ := n
  cases hasColon with
  | true =>
    have hqualifier : (∀ d ∈ qualifier.toList, isNameChar d) ∧ startsName qualifier.toList := by
      by_cases hq : qualifier = ""
      · rw [hq]
        exact ⟨by simp, rfl⟩
      · exact ⟨(h.qualifier hq).2.2.2, (h.qualifier hq).2.2.1⟩
    have hcut := takeWhile_append_cons (b := localName.toList ++ c :: rest) hqualifier.1
      (show isNameChar ':' = false by decide)
    have hshape : WrittenName.spell ⟨qualifier, localName, true⟩ ++ c :: rest
        = qualifier.toList ++ ':' :: (localName.toList ++ c :: rest) := by
      simp [WrittenName.spell]
    rw [hshape, readQName, hcut.1, hcut.2]
    simp only [hlocal.1, hlocal.2, hqualifier.2, h.localName.2.1, hnonempty, Bool.not_false,
      Bool.and_self, if_true, String.ofList_toList]
    split
    · rename_i heq
      exact absurd (List.cons.inj heq).1 hc.2
    · rfl
  | false =>
    have hq : qualifier = "" := h.qualifier_eq_of_not_hasColon rfl
    have hshape : WrittenName.spell ⟨qualifier, localName, false⟩ ++ c :: rest
        = localName.toList ++ c :: rest := rfl
    rw [hshape, readQName, hlocal.1, hlocal.2]
    simp only [h.localName.2.1, hnonempty, Bool.not_false, Bool.and_self, if_true,
      String.ofList_toList, hq]
    split
    · rename_i heq
      exact absurd (List.cons.inj heq).1 hc.2
    · rfl

theorem WrittenName.IsValid.head_spell {n : WrittenName} (h : n.IsValid) :
    ∃ c cs, n.spell = c :: cs ∧ (isNameChar c = true ∨ c = ':') := by
  obtain ⟨c, cs, hcs⟩ := List.exists_cons_of_ne_nil h.spell_ne
  exact ⟨c, cs, hcs, h.isNameChar_of_mem (by rw [hcs]; simp)⟩

/-! ## Attributes -/

/-- What follows a name before white space or the equals sign. -/
theorem exists_endsName {space : List Char} (h : ∀ c ∈ space, isSpace c) (mark : Char)
    (hmark : EndsName mark) (rest : List Char) :
    ∃ c cs, space ++ mark :: rest = c :: cs ∧ EndsName c := by
  cases space with
  | nil => exact ⟨mark, rest, rfl, hmark⟩
  | cons c space => exact ⟨c, _, rfl, endsName_of_isSpace (h c (by simp))⟩

theorem readAttribute_spell {a : SpelledAttribute} (h : a.IsValid) (rest : List Char) :
    readAttribute (a.name.spell ++ (a.beforeEquals ++ '=' :: (a.afterEquals
      ++ a.quote :: (a.raw ++ a.quote :: rest)))) = .ok (a.toRaw, rest) := by
  have hquote : isSpace a.quote = false ∧ isXmlChar a.quote = true := by
    rcases h.quote with hq | hq <;> rw [hq] <;> exact ⟨rfl, rfl⟩
  have hvalue : readUntil (fun l => l.head?.any fun c => c == a.quote || c == '<')
      (a.raw ++ a.quote :: rest) = .ok (a.raw, a.quote :: rest) := by
    refine readUntil_append (fun c hc => (h.raw c hc).1) (fun x y hxy hy => ?_) (by simp)
      ⟨_, _, rfl, hquote.2⟩
    obtain ⟨c, y, rfl⟩ := List.exists_cons_of_ne_nil hy
    simpa using (h.raw c (by rw [hxy]; simp)).2
  obtain ⟨c, cs, hcs, hc⟩ := exists_endsName h.beforeEquals '=' ⟨by decide, by decide⟩
    (a.afterEquals ++ a.quote :: (a.raw ++ a.quote :: rest))
  rw [hcs, readAttribute, readQName_spell h.name hc, ← hcs]
  simp only [bind, Except.bind, skipSpace_append h.beforeEquals, skipSpace_append h.afterEquals,
    skipSpace_cons (show isSpace '=' = false by decide), skipSpace_cons hquote.1, h.quote, if_true,
    hvalue]
  rfl

/-! ## Tags -/

theorem SpelledAttribute.spell_append {a : SpelledAttribute} (rest : List Char) :
    a.spell ++ rest = a.space ++ (a.name.spell ++ (a.beforeEquals ++ '=' :: (a.afterEquals
      ++ a.quote :: (a.raw ++ a.quote :: rest)))) := by
  simp [SpelledAttribute.spell]

theorem TagEnd.skipSpace_spell {tagEnd : TagEnd} (hend : tagEnd ≠ .missing) (rest : List Char) :
    skipSpace (tagEnd.spell ++ rest) = tagEnd.spell ++ rest := by
  cases tagEnd with
  | missing => exact absurd rfl hend
  | _ => rfl

/-- The attributes of a start tag are read one after another, up to what closes it. -/
theorem readTagContent_spell {as : List SpelledAttribute} (has : ∀ a ∈ as, a.IsValid)
    {space : List Char} (hspace : ∀ c ∈ space, isSpace c) {tagEnd : TagEnd}
    (hend : tagEnd ≠ .missing) (rest : List Char) {fuel : Nat} (hfuel : as.length < fuel)
    (t : TagContent) :
    readTagContent fuel t (as.flatMap SpelledAttribute.spell ++ (space ++ (tagEnd.spell ++ rest)))
      = t.addAll as >>= fun content => .ok ((content, tagEnd), rest) := by
  induction as generalizing fuel t with
  | nil =>
    obtain ⟨fuel, rfl⟩ : ∃ n, fuel = n + 1 := ⟨fuel - 1, by simp at hfuel; omega⟩
    have hskip : skipSpace (space ++ (tagEnd.spell ++ rest)) = tagEnd.spell ++ rest := by
      rw [skipSpace_append hspace, TagEnd.skipSpace_spell hend]
    rw [List.flatMap_nil, List.nil_append]
    cases hcs : space ++ (tagEnd.spell ++ rest) with
    | nil =>
      cases tagEnd with
      | missing => exact absurd rfl hend
      | _ => simp [TagEnd.spell] at hcs
    | cons c cs =>
      rw [hcs] at hskip
      rw [readTagContent, hskip]
      cases tagEnd with
      | missing => exact absurd rfl hend
      | _ => rfl
  | cons a as ih =>
    obtain ⟨fuel, rfl⟩ : ∃ n, fuel = n + 1 := ⟨fuel - 1, by simp at hfuel; omega⟩
    simp only [List.mem_cons, forall_eq_or_imp] at has
    have hless : as.length < fuel := by simpa using hfuel
    have hmore := fun t => ih has.2 hless t
    rw [List.flatMap_cons, List.append_assoc, SpelledAttribute.spell_append]
    generalize hafter : as.flatMap SpelledAttribute.spell ++ (space ++ (tagEnd.spell ++ rest))
      = after at hmore
    obtain ⟨c, cs, hcs⟩ := List.exists_cons_of_ne_nil has.1.space_ne
    have hc : isSpace c = true := has.1.space c (by rw [hcs]; simp)
    obtain ⟨d, ds, hds, hd⟩ := has.1.name.head_spell
    have hread := readAttribute_spell has.1 after
    generalize hvalue : a.beforeEquals ++ '=' :: (a.afterEquals
      ++ a.quote :: (a.raw ++ a.quote :: after)) = value at hread
    have hskip : skipSpace (c :: (cs ++ (a.name.spell ++ value))) = a.name.spell ++ value := by
      rw [← List.cons_append, ← hcs, skipSpace_append has.1.space, hds, List.cons_append,
        skipSpace_cons]
      rcases hd with hd | rfl
      · exact isSpace_of_isNameChar hd
      · rfl
    have hmark : d ≠ '/' ∧ d ≠ '>' := by
      constructor <;> rintro rfl <;> rcases hd with hd | hd
      all_goals exact absurd hd (by decide)
    rw [hcs, List.cons_append, readTagContent, hskip]
    rw [hds] at hread ⊢
    split
    · rename_i heq
      exact absurd (List.cons.inj heq).1 hmark.1
    · rename_i heq
      exact absurd (List.cons.inj heq).1 hmark.2
    · rw [if_pos hc, hread, TagContent.addAll, List.foldlM_cons]
      cases hadd : t.add a.toRaw with
      | error e =>
        simp only [bind, Except.bind, hadd]
      | ok t' =>
        simp only [bind, Except.bind, hadd]
        exact hmore t'

/-- What comes after the name in a start tag. -/
theorem SpelledTag.IsValid.exists_endsName {tag : SpelledTag} (h : tag.IsValid) {tagEnd : TagEnd}
    (hend : tagEnd ≠ .missing) (rest : List Char) :
    ∃ c cs, tag.attributes.flatMap SpelledAttribute.spell
      ++ (tag.space ++ (tagEnd.spell ++ rest)) = c :: cs ∧ EndsName c := by
  cases has : tag.attributes with
  | nil =>
    cases tagEnd with
    | missing => exact absurd rfl hend
    | opened => exact Xml.exists_endsName h.space '>' ⟨by decide, by decide⟩ rest
    | empty => exact Xml.exists_endsName h.space '/' ⟨by decide, by decide⟩ ('>' :: rest)
  | cons a as =>
    have ha := h.attributes a (by rw [has]; simp)
    obtain ⟨c, cs, hcs⟩ := List.exists_cons_of_ne_nil ha.space_ne
    rw [List.flatMap_cons, List.append_assoc, SpelledAttribute.spell_append, hcs]
    exact ⟨c, _, rfl, endsName_of_isSpace (ha.space c (by rw [hcs]; simp))⟩

/-- A start tag opens the element that its name and attributes tell. -/
theorem readStartTag_spell {tag : SpelledTag} (h : tag.IsValid) {tagEnd : TagEnd}
    (hend : tagEnd ≠ .missing) (outer : Scope) (rest : List Char) :
    readStartTag outer ('<' :: tag.spell ++ (tagEnd.spell ++ rest))
      = tag.open? outer ('<' :: tag.spell ++ (tagEnd.spell ++ rest))
        >>= fun e => .ok ((e, tagEnd), rest) := by
  have hshape : '<' :: tag.spell ++ (tagEnd.spell ++ rest) = '<' :: (tag.name.spell
      ++ (tag.attributes.flatMap SpelledAttribute.spell
        ++ (tag.space ++ (tagEnd.spell ++ rest)))) := by
    simp [SpelledTag.spell]
  have hcontent := fun fuel (hfuel : tag.attributes.length < fuel) =>
    readTagContent_spell h.attributes h.space hend rest hfuel {}
  obtain ⟨c, cs, hcs, hc⟩ := h.exists_endsName hend rest
  have hlength : tag.attributes.length < (c :: cs).length + 1 := by
    have := StartTag.length_le_length_flatMap tag.attributes
    rw [← hcs]
    simp only [List.length_append]
    omega
  have hread := hcontent _ hlength
  rw [hcs] at hread
  generalize hsource : '<' :: tag.spell ++ (tagEnd.spell ++ rest) = source at hshape
  have hname : readQName (source.drop 1) = .ok (tag.name, c :: cs) := by
    rw [hshape, hcs, List.drop_one, List.tail_cons, readQName_spell h.name hc]
  rw [readStartTag, hname, SpelledTag.open?]
  simp only [bind, Except.bind]
  split
  · rfl
  · rw [hread]
    cases ({} : TagContent).addAll tag.attributes with
    | error e => rfl
    | ok content =>
      simp only [bind, Except.bind, hend, if_false]
      cases checkAttributes (inherit content.declared outer) [] content.attributes with
      | error e => rfl
      | ok u =>
        cases namespaceOf (inherit content.declared outer) tag.name.qualifier <;> rfl

theorem readEndTag_spell {n : WrittenName} (h : n.IsValid) {space : List Char}
    (hspace : ∀ c ∈ space, isSpace c) (rest : List Char) :
    readEndTag (Piece.spellEndTag n space ++ rest) = .ok (n, rest) := by
  obtain ⟨c, cs, hcs, hc⟩ := exists_endsName hspace '>' ⟨by decide, by decide⟩ rest
  have hshape : (Piece.spellEndTag n space ++ rest).drop 2 = n.spell ++ c :: cs := by
    rw [← hcs]
    simp [Piece.spellEndTag]
  rw [readEndTag, hshape, readQName_spell h hc, ← hcs]
  simp only [bind, Except.bind, skipSpace_append hspace,
    skipSpace_cons (show isSpace '>' = false by decide)]

/-! ## Comments and instructions -/

theorem skipComment_spell {text : List Char} (h : Piece.IsCommentText text) (rest : List Char) :
    skipComment (Piece.spellComment text ++ rest) = .ok rest := by
  have hshape : (Piece.spellComment text ++ rest).drop 4 = text ++ ("-->".toList ++ rest) := by
    simp [Piece.spellComment]
  have hword : ¬ "-->".toList <:+: text := fun hstands =>
    h.open' (List.IsInfix.trans ⟨[], ['>'], rfl⟩ hstands)
  have hdashes : containsWord "--" text = false := by
    rw [← Bool.not_eq_true, containsWord_iff]
    exact h.open'
  have hlast : (text.getLast? == some '-') = false := by
    simpa using h.last
  rw [skipComment, hshape, readUntil_word "-->" (by decide) (by decide) h.chars hword]
  simp only [bind, Except.bind, skipWord_append, hdashes, hlast, Bool.or_self, Bool.false_eq_true,
    if_false]

theorem skipInstruction_spell {text : List Char} (h : Piece.IsInstructionText text)
    (rest : List Char) : skipInstruction (Piece.spellInstruction text ++ rest) = .ok rest := by
  have hshape : (Piece.spellInstruction text ++ rest).drop 2 = text ++ ("?>".toList ++ rest) := by
    simp [Piece.spellInstruction]
  have hxml : startsWith "<?xml " (Piece.spellInstruction text ++ rest) = false := by
    rw [← Bool.not_eq_true, startsWith_iff]
    intro hprefix
    have hprefix' : "xml ".toList <+: text ++ '?' :: '>' :: rest := by
      simpa [Piece.spellInstruction] using hprefix
    exact h.notXml (prefix_of_prefix_append_cons (by decide) hprefix')
  obtain ⟨c, cs, rfl⟩ : ∃ c cs, text = c :: cs := by
    cases text with
    | nil => exact absurd h.name (by simp)
    | cons c cs => exact ⟨c, cs, rfl⟩
  have hstart : (isNameStart c || c == ':') = true := h.name
  have hmark : (isNameChar '?' || '?' == ':') = false := by decide
  -- the name and the white space after it end before the question mark that ends the instruction
  have hname : readName (c :: cs ++ '?' :: '>' :: rest)
      = .ok (c :: (cs ++ '?' :: '>' :: rest).takeWhile (fun d => isNameChar d || d == ':'),
        cs.dropWhile (fun d => isNameChar d || d == ':') ++ '?' :: '>' :: rest) := by
    rw [List.cons_append, readName, if_pos hstart]
    simp only [dropWhile_append_cons (p := fun d => isNameChar d || d == ':') hmark]
  have hsuffix : skipSpace (cs.dropWhile fun d => isNameChar d || d == ':') <:+ c :: cs :=
    ((List.dropWhile_suffix _).trans (List.dropWhile_suffix _)).trans (List.suffix_cons c cs)
  have htail := readUntil_word "?>" (by decide) (by decide)
    (fun d hd => h.chars d (hsuffix.subset hd))
    (fun hstands => h.open' (hstands.trans hsuffix.isInfix)) rest
  rw [skipInstruction, if_neg (by rw [hxml]; exact Bool.false_ne_true), hshape]
  have hword : "?>".toList ++ rest = '?' :: '>' :: rest := rfl
  simp only [hword] at htail ⊢
  simp only [bind, Except.bind, hname]
  have hspace : skipSpace (cs.dropWhile (fun d => isNameChar d || d == ':') ++ '?' :: '>' :: rest)
      = skipSpace (cs.dropWhile fun d => isNameChar d || d == ':') ++ '?' :: '>' :: rest :=
    dropWhile_append_cons (by decide)
  rw [hspace, htail]
  exact skipWord_append "?>" rest

end ScriptedViews.Xml

import ScriptedViews.Proofs.Xml.Absorbing

set_option autoImplicit false

/-! # Documents that are read

Every text that is read as a document is spelled by one that follows the grammar, and from what it
is spelled by what is read can be told. Only the XML declaration is found by its reader alone: no
other part of a document can take its place. -/

namespace ScriptedViews.Xml

open Piece (spellAll spellEndTag)
open SpelledDocument (IsOutside AreOutside)

/-! ## Around the root -/

/-- Text without references can be normalised. -/
theorem exists_normalizeText {cs : List Char} (h : '&' ∉ cs) (fuel : Nat) (asIs : Bool)
    (buffer : List Char) : ∃ text, normalizeText fuel asIs buffer cs = .ok text := by
  induction cs generalizing fuel asIs buffer with
  | nil => cases fuel <;> exact ⟨_, rfl⟩
  | cons c cs ih =>
    simp only [List.mem_cons, not_or] at h
    have hc : ¬ c = '&' := fun heq => h.1 heq.symm
    cases fuel with
    | zero => exact ⟨_, rfl⟩
    | succ fuel =>
      rw [normalizeText, if_neg hc]
      split <;> exact ih h.2 _ _ _

theorem isCharData_of_isSpace {space : List Char} (hne : space ≠ [])
    (h : ∀ c ∈ space, isSpace c) : Piece.IsCharData space := by
  have hnot : ∀ c, isSpace c = false → c ∉ space := fun c hc hmem => by
    rw [h c hmem] at hc
    cases hc
  refine ⟨hne, fun c hc => ⟨isXmlChar_of_isSpace (h c hc), ?_⟩, ?_,
    exists_normalizeText (hnot _ rfl) _ _ _⟩
  · rintro rfl
    exact hnot _ rfl hc
  · rintro ⟨a, b, hab⟩
    exact hnot ']' rfl (by rw [← hab]; simp)

/-- White space in front of some pieces. -/
def spaceThen (space : List Char) (ps : List Piece) : List Piece :=
  if space = [] then ps else .chars space :: ps

theorem spellAll_spaceThen (space : List Char) (ps : List Piece) :
    spellAll (spaceThen space ps) = space ++ spellAll ps := by
  unfold spaceThen
  split
  · rename_i hspace
    rw [hspace, List.nil_append]
  · rw [spellAll, Piece.spell]

theorem SpelledDocument.AreOutside.spaceThen {space : List Char} {ps : List Piece}
    (h : AreOutside ps) (hfirst : ps.head?.any Piece.isChars = false)
    (hspace : ∀ c ∈ space, isSpace c) : AreOutside (spaceThen space ps) := by
  unfold Xml.spaceThen
  split
  · exact h
  · rename_i hne
    refine ⟨?_, by simpa using ⟨hspace, h.2⟩⟩
    rw [Piece.AreValid, Piece.IsValid]
    exact ⟨isCharData_of_isSpace hne hspace, h.1, fun _ => hfirst⟩

theorem SpelledDocument.AreOutside.cons {p : Piece} {ps : List Piece} (h : AreOutside ps)
    (hvalid : p.IsValid) (hp : IsOutside p) (hfirst : p.isChars = false) :
    AreOutside (p :: ps) := by
  refine ⟨?_, by simpa using ⟨hp, h.2⟩⟩
  rw [Piece.AreValid]
  exact ⟨hvalid, h.1, fun hchars => by rw [hfirst] at hchars; cases hchars⟩

theorem append_of_skipMisc {fuel : Nat} {cs rest : List Char} (h : skipMisc fuel cs = .ok rest) :
    ∃ ps, cs = spellAll ps ++ rest ∧ AreOutside ps := by
  induction fuel generalizing cs with
  | zero =>
    cases h
    exact ⟨[], rfl, trivial, by simp⟩
  | succ fuel ih =>
    obtain ⟨space, hsplit, hspace, -⟩ := skipSpace_spec cs
    rw [skipMisc] at h
    split at h
    · rename_i hstart
      obtain ⟨after, hskip, hmore⟩ := exists_of_bind h
      obtain ⟨text, hspell, hvalid⟩ := append_of_skipComment hstart hskip
      obtain ⟨ps, rfl, hps⟩ := ih hmore
      have hcomment : AreOutside (.comment text :: ps) :=
        hps.cons (by rw [Piece.IsValid]; exact hvalid) trivial rfl
      refine ⟨spaceThen space (.comment text :: ps), ?_, hcomment.spaceThen rfl hspace⟩
      rw [hsplit, hspell, spellAll_spaceThen, spellAll, Piece.spell]
      simp
    · split at h
      · rename_i hstart
        obtain ⟨after, hskip, hmore⟩ := exists_of_bind h
        obtain ⟨text, hspell, hvalid⟩ := append_of_skipInstruction hstart hskip
        obtain ⟨ps, rfl, hps⟩ := ih hmore
        have hinstruction : AreOutside (.instruction text :: ps) :=
          hps.cons (by rw [Piece.IsValid]; exact hvalid) trivial rfl
        refine ⟨spaceThen space (.instruction text :: ps), ?_, hinstruction.spaceThen rfl hspace⟩
        rw [hsplit, hspell, spellAll_spaceThen, spellAll, Piece.spell]
        simp
      · cases h
        refine ⟨spaceThen space [], ?_, AreOutside.spaceThen ⟨trivial, by simp⟩ rfl hspace⟩
        rw [spellAll_spaceThen, spellAll, List.append_nil]
        exact hsplit

/-- Whether what is left is the end or the start of an element. -/
def IsDone (rest : List Char) : Prop :=
  ∀ c cs, rest = c :: cs → isSpace c = false ∧ startsWith "<!--" rest = false
    ∧ startsWith "<?" rest = false

theorem length_spell_pos {p : Piece} (hvalid : p.IsValid) : 0 < p.spell.length := by
  cases p with
  | chars cs =>
    rw [Piece.IsValid] at hvalid
    rw [Piece.spell]
    exact List.length_pos_iff.2 hvalid.ne
  | «section» cs =>
    rw [Piece.spell]
    exact Nat.succ_pos _
  | comment cs =>
    rw [Piece.spell]
    exact Nat.succ_pos _
  | instruction cs =>
    rw [Piece.spell]
    exact Nat.succ_pos _
  | empty tag =>
    rw [Piece.spell]
    exact Nat.succ_pos _
  | element tag content closing space =>
    rw [Piece.spell]
    exact Nat.succ_pos _

theorem skipMisc_spellAll {ps : List Piece} (hps : AreOutside ps) {rest : List Char}
    (hrest : IsDone rest) {fuel : Nat} (hfuel : (spellAll ps).length ≤ fuel) :
    skipMisc fuel (spellAll ps ++ rest) = .ok rest := by
  induction ps generalizing fuel with
  | nil =>
    rw [spellAll, List.nil_append]
    cases fuel with
    | zero => rfl
    | succ fuel =>
      cases rest with
      | nil => rfl
      | cons c cs =>
        obtain ⟨hspace, hcomment, hinstruction⟩ := hrest c cs rfl
        rw [skipMisc, skipSpace_cons hspace]
        simp only [hcomment, hinstruction, Bool.false_eq_true, if_false]
  | cons p ps ih =>
    obtain ⟨hvalid, hout⟩ := hps
    rw [Piece.AreValid] at hvalid
    simp only [List.mem_cons, forall_eq_or_imp] at hout
    have hmore := fun {fuel} => @ih ⟨hvalid.2.1, hout.2⟩ fuel
    have hpos := length_spell_pos hvalid.1
    rw [spellAll, List.length_append] at hfuel
    obtain ⟨fuel, rfl⟩ : ∃ n, fuel = n + 1 := ⟨fuel - 1, by omega⟩
    rw [spellAll, List.append_assoc]
    cases p with
    | chars cs =>
      rw [Piece.spell] at hfuel ⊢
      have hspace : ∀ c ∈ cs, isSpace c := hout.1
      have hsame : skipMisc (fuel + 1) (cs ++ (spellAll ps ++ rest))
          = skipMisc (fuel + 1) (spellAll ps ++ rest) := by
        simp only [skipMisc, skipSpace_append hspace]
      rw [hsame]
      exact hmore (by omega)
    | comment text =>
      rw [Piece.IsValid] at hvalid
      rw [Piece.spell] at hfuel hpos ⊢
      have hstart : startsWith "<!--" (Piece.spellComment text ++ (spellAll ps ++ rest)) = true :=
        rfl
      have hskip : skipSpace (Piece.spellComment text ++ (spellAll ps ++ rest))
          = Piece.spellComment text ++ (spellAll ps ++ rest) := rfl
      rw [skipMisc, hskip]
      simp only [hstart, if_true, skipComment_spell hvalid.1]
      exact hmore (by omega)
    | instruction text =>
      rw [Piece.IsValid] at hvalid
      rw [Piece.spell] at hfuel hpos ⊢
      have hcomment : startsWith "<!--" (Piece.spellInstruction text ++ (spellAll ps ++ rest))
          = false := rfl
      have hstart : startsWith "<?" (Piece.spellInstruction text ++ (spellAll ps ++ rest)) = true :=
        rfl
      have hskip : skipSpace (Piece.spellInstruction text ++ (spellAll ps ++ rest))
          = Piece.spellInstruction text ++ (spellAll ps ++ rest) := rfl
      rw [skipMisc, hskip]
      simp only [hcomment, hstart, Bool.false_eq_true, if_false, if_true,
        skipInstruction_spell hvalid.1]
      exact hmore (by omega)
    | «section» cs => exact absurd hout.1 (by simp [IsOutside])
    | empty tag => exact absurd hout.1 (by simp [IsOutside])
    | element tag content closing space => exact absurd hout.1 (by simp [IsOutside])

/-! ## The XML declaration -/

theorem append_of_declarationSpace {cs rest : List Char} (h : declarationSpace cs = .ok rest) :
    ∃ space, cs = space ++ rest ∧ '<' ∉ space := by
  obtain ⟨space, hsplit, hspace, -⟩ := skipSpace_spec cs
  unfold declarationSpace at h
  split at h
  · cases h
    exact ⟨space, hsplit, fun hmem => absurd (hspace _ hmem) (by decide)⟩
  · split at h
    · cases h
      exact ⟨[], rfl, by simp⟩
    · cases h

/-- No bracket opens inside of an attribute. -/
theorem exists_append_of_readAttribute {cs rest : List Char} {a : RawAttribute}
    (h : readAttribute cs = .ok (a, rest)) : ∃ text, cs = text ++ rest ∧ '<' ∉ text := by
  obtain ⟨before, after, quote, rfl, hname, hbefore, hafter, hquote, hvalue⟩ :=
    append_of_readAttribute h
  refine ⟨a.name.spell ++ before ++ '=' :: after ++ quote :: a.value ++ [quote], by simp, ?_⟩
  have hspace : ∀ {space : List Char}, (∀ c ∈ space, isSpace c) → '<' ∉ space :=
    fun h hmem => absurd (h _ hmem) (by decide)
  have hquote' : '<' ≠ quote := by
    rcases hquote with rfl | rfl <;> decide
  have hraw : '<' ∉ a.value := fun hmem => (hvalue _ hmem).2.2 rfl
  simp [hname.not_mem_spell (c := '<') (by decide) (by decide), hspace hbefore, hspace hafter,
    hquote', hraw]

/-- What may be read of an XML declaration after its version. -/
theorem append_of_declared {word : String} {cs rest : List Char}
    {next goOn : List Char → Except XmlError (List Char)}
    (hnext : ∀ {cs rest}, next cs = .ok rest → ∃ text, cs = text ++ rest ∧ '<' ∉ text)
    (h : (if startsWith word cs then do
        let r ← readAttribute cs
        let cs ← next r.2
        goOn cs
      else do
        let cs ← Except.ok cs
        goOn cs) = .ok rest) :
    ∃ text after, cs = text ++ after ∧ '<' ∉ text ∧ goOn after = .ok rest := by
  split at h
  · obtain ⟨⟨a, afterAttribute⟩, hread, hmore⟩ := exists_of_bind h
    obtain ⟨text, rfl, htext⟩ := exists_append_of_readAttribute hread
    obtain ⟨after, hafter, hrest⟩ := exists_of_bind hmore
    obtain ⟨more, rfl, hmore'⟩ := hnext hafter
    exact ⟨text ++ more, after, by simp, by simp [htext, hmore'], hrest⟩
  · exact ⟨[], cs, rfl, by simp, h⟩

theorem append_of_skipDeclaration {cs rest : List Char} (hcs : startsWith "<?xml " cs = true)
    (h : skipDeclaration cs = .ok rest) :
    ∃ text, cs = "<?xml ".toList ++ text ++ "?>".toList ++ rest ∧ '<' ∉ text := by
  obtain ⟨tail, rfl⟩ := startsWith_iff.1 hcs
  unfold skipDeclaration at h
  obtain ⟨start, hstart, hversion⟩ := exists_of_bind h
  have hskip : start = skipSpace tail := by
    have hdrop : ("<?xml ".toList ++ tail).drop 5 = ' ' :: tail := rfl
    rw [hdrop] at hstart
    cases hstart
    exact skipSpace_append (List.forall_mem_singleton.2 rfl) tail
  obtain ⟨space, hsplit, hspace, -⟩ := skipSpace_spec tail
  split at hversion
  · cases hversion
  · obtain ⟨⟨a, afterVersion⟩, hread, hspaced⟩ := exists_of_bind hversion
    obtain ⟨version, hv, hversion'⟩ := exists_append_of_readAttribute hread
    obtain ⟨cs₁, hread₁, hencoded⟩ := exists_of_bind hspaced
    obtain ⟨space₁, hspace₁, hfree₁⟩ := append_of_declarationSpace hread₁
    dsimp only at hencoded hspace₁
    obtain ⟨encoding, cs₂, rfl, hencoding, hstands⟩ :=
      append_of_declared append_of_declarationSpace hencoded
    obtain ⟨standalone, cs₃, rfl, hstandalone, hend⟩ := append_of_declared
      (fun h => ⟨[], by cases h; rfl, by simp⟩) hstands
    obtain ⟨space₂, hsplit₂, hspace₂, -⟩ := skipSpace_spec cs₃
    rw [append_of_skipWord hend] at hsplit₂
    have hspace' : ∀ {space : List Char}, (∀ c ∈ space, isSpace c) → '<' ∉ space :=
      fun h hmem => absurd (h _ hmem) (by decide)
    refine ⟨space ++ version ++ space₁ ++ encoding ++ standalone ++ space₂, ?_, ?_⟩
    · rw [hsplit, ← hskip, hv, hspace₁, hsplit₂]
      simp
    · simp [hspace' hspace, hversion', hfree₁, hencoding, hstandalone, hspace' hspace₂]

/-- Characters around the root, up to the first bracket. -/
theorem SpelledDocument.AreOutside.exists_spaces {ps : List Piece} (h : AreOutside ps)
    (rest : List Char) :
    ∃ space more, spellAll ps ++ '<' :: rest = space ++ '<' :: more ∧ ∀ c ∈ space, isSpace c := by
  have hvalid := h.1
  by_cases hfirst : ps.head?.any Piece.isChars = false
  · obtain ⟨more, hmore⟩ := exists_spellAll_eq hfirst rest
    exact ⟨[], more, hmore, by simp⟩
  · cases ps with
    | nil => exact absurd rfl hfirst
    | cons p ps =>
      cases p with
      | chars cs =>
        rw [Piece.AreValid] at hvalid
        obtain ⟨more, hmore⟩ := exists_spellAll_eq (hvalid.2.2 rfl) rest
        refine ⟨cs, more, ?_, h.2 (.chars cs) (by simp)⟩
        rw [spellAll, Piece.spell, List.append_assoc, hmore]
      | _ => exact absurd rfl hfirst

/-- A text is cut in one way only into what has no bracket and ends in another character than white
    space, white space, and what starts with a bracket. -/
theorem eq_of_append_spaces {a b space space' more more' : List Char} {c : Char}
    (ha : '<' ∉ a) (hb : '<' ∉ b) (hc : isSpace c = false) (hne : c ≠ '<')
    (hspace : ∀ d ∈ space, isSpace d) (hspace' : ∀ d ∈ space', isSpace d)
    (h : a ++ c :: (space ++ '<' :: more) = b ++ c :: (space' ++ '<' :: more')) :
    space ++ '<' :: more = space' ++ '<' :: more' := by
  have hfree : ∀ {a space : List Char}, '<' ∉ a → (∀ d ∈ space, isSpace d) →
      ∀ d ∈ a ++ c :: space, (d != '<') = true := by
    intro a space ha hspace d hd
    rw [bne_iff_ne]
    rintro rfl
    simp only [List.mem_append, List.mem_cons, ha, false_or] at hd
    rcases hd with heq | hd
    · exact hne heq.symm
    · exact absurd (hspace _ hd) (by decide)
  have hcut := takeWhile_append_cons (b := more) (c := '<') (hfree ha hspace) (by decide)
  have hcut' := takeWhile_append_cons (b := more') (c := '<') (hfree hb hspace') (by decide)
  have hshape : (a ++ c :: space) ++ '<' :: more = (b ++ c :: space') ++ '<' :: more' := by
    simpa using h
  rw [hshape] at hcut
  have hstart : a ++ c :: space = b ++ c :: space' := hcut.1.symm.trans hcut'.1
  have hmore : '<' :: more = '<' :: more' := hcut.2.symm.trans hcut'.2
  -- the white space at the end is the same, as a look from the end shows
  have hends : ∀ {a space : List Char}, (∀ d ∈ space, isSpace d) →
      ((a ++ c :: space).reverse).takeWhile isSpace = space.reverse := by
    intro a space hspace
    have hreverse : (a ++ c :: space).reverse = space.reverse ++ c :: a.reverse := by simp
    rw [hreverse, (takeWhile_append_cons (fun d hd => hspace d (by simpa using hd)) hc).1]
  have hsame : space.reverse = space'.reverse := by
    rw [← hends (a := a) hspace, hstart, hends hspace']
  rw [List.reverse_injective hsame, hmore]

/-! ## The root -/

theorem append_of_readRoot {cs rest : List Char} {root : Node}
    (h : readRoot ('<' :: cs) = .ok (root, rest)) :
    ∃ p : Piece, '<' :: cs = p.spell ++ rest ∧ p.IsValid ∧ p.isElement := by
  unfold readRoot at h
  obtain ⟨⟨⟨e, tagEnd⟩, after⟩, hread, hmore⟩ := exists_of_bind h
  cases tagEnd with
  | missing => cases hmore
  | empty =>
    obtain ⟨tag, hvalid, -, rfl⟩ := append_of_readStartTag hread (by decide)
    cases hmore
    refine ⟨.empty tag, ?_, ?_, rfl⟩
    · rw [Piece.spell, TagEnd.spell]
      simp
    · rw [Piece.IsValid]
      exact hvalid
  | opened =>
    obtain ⟨tag, hvalid, hname, rfl⟩ := append_of_readStartTag hread (by decide)
    obtain ⟨r⟩ := reading_of_readContent hmore
    have hafter : (root, rest) = (r.closed.close, r.after) := r.goesOn
    simp only [Prod.mk.injEq] at hafter
    refine ⟨.element tag r.pieces r.closing r.space, ?_, ?_, rfl⟩
    · have hspell := r.spell
      rw [← hafter.2] at hspell
      rw [Piece.spell, TagEnd.spell]
      simp only [List.cons_append, List.append_assoc, List.nil_append] at hspell ⊢
      rw [← hspell]
    · rw [Piece.IsValid]
      exact ⟨hvalid, r.valid, ⟨r.name, by rw [r.qualifier, hname], by rw [r.localName, hname],
        r.isSpace⟩⟩

/-- The root before it is closed, with what comes after it in the text. -/
def openRoot (p : Piece) (after : List Char) : Except XmlError OpenElement :=
  match p with
  | .empty tag => tag.open? [] ('<' :: tag.spell ++ '/' :: '>' :: after)
  | .element tag content closing space => do
    let after := spellEndTag closing space ++ after
    let e ← tag.open? [] ('<' :: tag.spell ++ '>' :: (spellAll content ++ after))
    e.absorb content after
  | _ => .error .noRootNode

theorem weight_le : ∀ {ps : List Piece}, Piece.AreValid ps → weight ps ≤ (spellAll ps).length
  | [], _ => by
    rw [weight]
    exact Nat.zero_le _
  | p :: ps, h => by
    rw [Piece.AreValid] at h
    have hmore := weight_le h.2.1
    have hpos := length_spell_pos h.1
    rw [spellAll, List.length_append]
    cases p with
    | element tag content closing space =>
      rw [Piece.IsValid] at h
      have hcontent := weight_le h.1.2.1
      rw [weight, Piece.spell]
      simp only [List.length_append, List.length_cons, spellEndTag]
      omega
    | _ =>
      rw [weight]
      omega

theorem readRoot_spell {p : Piece} (hvalid : p.IsValid) (helement : p.isElement)
    (after : List Char) :
    readRoot (p.spell ++ after) = openRoot p after >>= fun e => .ok (e.close, after) := by
  cases p with
  | empty tag =>
    rw [Piece.IsValid] at hvalid
    have hspell : (Piece.empty tag).spell ++ after
        = '<' :: tag.spell ++ (TagEnd.empty.spell ++ after) := by
      rw [Piece.spell, TagEnd.spell]
      simp
    rw [hspell, readRoot, readStartTag_spell hvalid (by decide), bind_assoc]
    rfl
  | element tag content closing space =>
    rw [Piece.IsValid] at hvalid
    obtain ⟨htag, hcontent, hcloses⟩ := hvalid
    have hspell : (Piece.element tag content closing space).spell ++ after
        = '<' :: tag.spell ++ (TagEnd.opened.spell
          ++ (spellAll content ++ (spellEndTag closing space ++ after))) := by
      rw [Piece.spell, TagEnd.spell]
      simp
    have hend : spellEndTag closing space ++ after
        = '<' :: ('/' :: closing.spell ++ space ++ ['>'] ++ after) := by
      simp [spellEndTag]
    rw [hspell, readRoot, readStartTag_spell htag (by decide), openRoot, bind_assoc, bind_assoc]
    generalize hrest : spellAll content ++ (spellEndTag closing space ++ after) = rest
    have hsource : '<' :: tag.spell ++ (TagEnd.opened.spell ++ rest)
        = '<' :: tag.spell ++ '>' :: rest := rfl
    rw [hsource]
    cases hopen : tag.open? [] ('<' :: tag.spell ++ '>' :: rest) with
    | error err => rfl
    | ok e =>
      obtain ⟨k, hk⟩ : ∃ k, rest.length + 1 = weight content + (k + 1) := by
        have hle := weight_le hcontent
        refine ⟨rest.length - weight content, ?_⟩
        rw [← hrest, List.length_append]
        omega
      have hread := readContent_spellAll hcontent (k + 1) e []
        ('/' :: closing.spell ++ space ++ ['>'] ++ after)
      rw [← hend, ← hk, hrest] at hread
      simp only [bind, Except.bind] at hread ⊢
      rw [hread]
      cases habsorb : e.absorb content (spellEndTag closing space ++ after) with
      | error err => rfl
      | ok e' =>
        have hname : e'.name = tag.name :=
          (absorbs_of_absorb hcontent habsorb).name.trans (SpelledTag.opens_of_open? hopen).name
        dsimp only
        rw [readContent_endTag _ _ _ _ hcloses hname]
  | _ => cases helement

/-- The root of a view's tree is the root of the document, if that is plain. -/
theorem convert_of_openRoot {p : Piece} {after : List Char} {e : OpenElement} (hvalid : p.IsValid)
    (hplain : p.IsPlain) (h : openRoot p after = .ok e) :
    Document.convert e.close = Piece.nodes [p] := by
  cases p with
  | empty tag =>
    rw [Piece.IsValid] at hvalid
    rw [Piece.IsPlain] at hplain
    rw [convert_close (SpelledTag.opens_of_open? h) (.nil e) hvalid hplain trivial (.inl rfl)]
    simp only [Piece.nodes, Piece.nodesAfter, Piece.textNodes, List.nil_append]
  | element tag content closing space =>
    rw [Piece.IsValid] at hvalid
    rw [Piece.IsPlain] at hplain
    obtain ⟨child, hopen, habsorb⟩ := exists_of_bind h
    rw [convert_close (SpelledTag.opens_of_open? hopen) (absorbs_of_absorb hvalid.2.1 habsorb)
      hvalid.1 hplain.1 hplain.2 (.inr rfl)]
    simp only [Piece.nodes, Piece.nodesAfter, Piece.textNodes, List.nil_append]
  | _ => cases h

/-! ## Whole documents -/

/-- What is left after a mark of the byte order. -/
def afterMark : List Char → List Char
  | '\ufeff' :: cs => cs
  | cs => cs

/-- What is left after an XML declaration, if there is one. -/
def afterDeclaration (cs : List Char) : Except XmlError (List Char) :=
  if startsWith "<?xml " cs then skipDeclaration cs else .ok cs

/-- Read a document after its declaration. -/
def readBody (cs : List Char) : Except XmlError Node := do
  let cs ← skipMisc cs.length cs
  if startsWith "<!DOCTYPE" cs then .error .dtdDetected
  else match cs with
    | '<' :: _ => do
      let (root, rest) ← readRoot cs
      let rest ← skipMisc rest.length rest
      if rest.isEmpty then .ok root else .error .malformed
    | [] => .error .noRootNode
    | _ => .error .malformed

theorem parse_eq (text : String) :
    parse text = afterDeclaration (afterMark text.toList) >>= readBody := by
  have hparse : parse text = (if startsWith "<?xml " (afterMark text.toList)
      then skipDeclaration (afterMark text.toList) >>= readBody
      else readBody (afterMark text.toList)) := rfl
  rw [hparse, afterDeclaration]
  split <;> rfl

theorem append_of_readBody {cs : List Char} {root : Node} (h : readBody cs = .ok root) :
    ∃ (before : List Piece) (p : Piece) (after : List Piece),
      cs = spellAll before ++ (p.spell ++ spellAll after) ∧ AreOutside before
      ∧ (p.IsValid ∧ p.isElement) ∧ AreOutside after := by
  unfold readBody at h
  obtain ⟨start, hbefore, hmore⟩ := exists_of_bind h
  obtain ⟨before, hsplit, hout⟩ := append_of_skipMisc hbefore
  split at hmore
  · cases hmore
  · split at hmore
    · rename_i tail
      obtain ⟨⟨root', rest⟩, hroot, hafter⟩ := exists_of_bind hmore
      obtain ⟨p, hspell, hvalid⟩ := append_of_readRoot hroot
      obtain ⟨final, hskip, hend⟩ := exists_of_bind hafter
      obtain ⟨after, hrest, hout'⟩ := append_of_skipMisc hskip
      split at hend
      · rename_i hempty
        refine ⟨before, p, after, ?_, hout, hvalid, hout'⟩
        have hrest' : rest = spellAll after ++ final := hrest
        rw [hsplit, hspell, hrest', List.isEmpty_iff.1 hempty, List.append_nil]
      · cases hend
    · cases hmore
    · cases hmore

theorem exists_mark (cs : List Char) :
    ∃ hasMark, cs = SpelledDocument.spellMark hasMark ++ afterMark cs := by
  unfold afterMark
  split
  · exact ⟨true, rfl⟩
  · exact ⟨false, rfl⟩

theorem append_of_afterDeclaration {cs rest : List Char} (h : afterDeclaration cs = .ok rest) :
    ∃ declaration : Option (List Char), (∀ text ∈ declaration, '<' ∉ text)
      ∧ cs = SpelledDocument.spellDeclaration declaration ++ rest := by
  unfold afterDeclaration at h
  split at h
  · rename_i hstart
    obtain ⟨text, hsplit, hfree⟩ := append_of_skipDeclaration hstart h
    exact ⟨some text, by simpa using hfree, hsplit⟩
  · cases h
    exact ⟨none, by simp, rfl⟩

namespace SpelledDocument

/-- Every text that is read is a document spelled out. -/
theorem exists_of_parse {text : String} {root : Node} (h : parse text = .ok root) :
    ∃ d : SpelledDocument, d.IsValid ∧ d.spell = text.toList := by
  rw [parse_eq] at h
  obtain ⟨body, hdeclaration, hbody⟩ := exists_of_bind h
  obtain ⟨before, p, after, rfl, hbefore, hp, hafter⟩ := append_of_readBody hbody
  obtain ⟨hasMark, hmark⟩ := exists_mark text.toList
  obtain ⟨declaration, hfree, hsplit⟩ := append_of_afterDeclaration hdeclaration
  refine ⟨⟨hasMark, declaration, before, p, after⟩, ⟨hfree, hbefore, hp, hafter⟩, ?_⟩
  rw [hmark, hsplit]
  rfl

end SpelledDocument

/-! ## Reading what is spelled -/

theorem exists_spell_eq {p : Piece} (hvalid : p.IsValid) (helement : p.isElement)
    (after : List Char) :
    ∃ c cs, p.spell ++ after = '<' :: c :: cs ∧ c ≠ '!' ∧ c ≠ '?' := by
  cases p with
  | empty tag =>
    rw [Piece.IsValid] at hvalid
    obtain ⟨c, cs, hcs, hbang, hquestion, -⟩ := hvalid.name.head_cases
      (tag.attributes.flatMap SpelledAttribute.spell ++ tag.space ++ ['/', '>'] ++ after)
    refine ⟨c, cs, ?_, hbang, hquestion⟩
    rw [Piece.spell, ← hcs]
    simp [SpelledTag.spell]
  | element tag content closing space =>
    rw [Piece.IsValid] at hvalid
    obtain ⟨c, cs, hcs, hbang, hquestion, -⟩ := hvalid.1.name.head_cases
      (tag.attributes.flatMap SpelledAttribute.spell ++ tag.space
        ++ '>' :: spellAll content ++ spellEndTag closing space ++ after)
    refine ⟨c, cs, ?_, hbang, hquestion⟩
    rw [Piece.spell, ← hcs]
    simp [SpelledTag.spell]
  | _ => cases helement

/-- A start tag is neither a comment nor an instruction, nor any other markup. -/
theorem startsWith_eq_false {word : String} {d : Char} {ds : List Char}
    (hword : word.toList = '<' :: d :: ds) {c : Char} (hc : c ≠ d) (cs : List Char) :
    startsWith word ('<' :: c :: cs) = false := by
  rw [← Bool.not_eq_true, startsWith_iff, hword, List.cons_prefix_cons, List.cons_prefix_cons]
  exact fun h => hc h.2.1.symm

theorem readBody_spellBody {before after : List Piece} {p : Piece}
    (hbefore : AreOutside before) (hp : p.IsValid ∧ p.isElement) (hafter : AreOutside after) :
    readBody (spellAll before ++ (p.spell ++ spellAll after))
      = openRoot p (spellAll after) >>= fun e => .ok e.close := by
  obtain ⟨c, cs, hcs, hbang, hquestion⟩ := exists_spell_eq hp.1 hp.2 (spellAll after)
  have hdone : IsDone (p.spell ++ spellAll after) := by
    rintro d ds hd
    rw [hcs] at hd ⊢
    cases hd
    exact ⟨rfl, startsWith_eq_false rfl hbang cs, startsWith_eq_false rfl hquestion cs⟩
  have hskip : skipMisc (spellAll before ++ (p.spell ++ spellAll after)).length
      (spellAll before ++ (p.spell ++ spellAll after)) = .ok (p.spell ++ spellAll after) :=
    skipMisc_spellAll hbefore hdone (by simp)
  have hend : skipMisc (spellAll after).length (spellAll after) = .ok [] := by
    have hdone : IsDone [] := fun c cs h => by cases h
    have hall := skipMisc_spellAll hafter hdone (Nat.le_refl _)
    rwa [List.append_nil] at hall
  have hroot := readRoot_spell hp.1 hp.2 (spellAll after)
  have hdoctype : startsWith "<!DOCTYPE" ('<' :: c :: cs) = false :=
    startsWith_eq_false rfl hbang cs
  rw [readBody, hskip]
  rw [hcs] at hroot ⊢
  simp only [bind, Except.bind] at hroot ⊢
  rw [hdoctype, if_neg Bool.false_ne_true, hroot]
  cases openRoot p (spellAll after) with
  | error err => rfl
  | ok e =>
    simp only [hend]
    rfl

/-- What a document starts with after its declaration is not a declaration. -/
theorem not_declaration {before : List Piece} {p : Piece} (hbefore : AreOutside before)
    (hp : p.IsValid ∧ p.isElement) (after : List Piece) :
    startsWith "<?xml " (spellAll before ++ (p.spell ++ spellAll after)) = false := by
  obtain ⟨c, cs, hcs, -, hquestion⟩ := exists_spell_eq hp.1 hp.2 (spellAll after)
  cases before with
  | nil =>
    rw [spellAll, List.nil_append, hcs]
    exact startsWith_eq_false rfl hquestion cs
  | cons q before =>
    obtain ⟨hvalid, hout⟩ := hbefore
    rw [Piece.AreValid] at hvalid
    have hq := hout q (by simp)
    rw [spellAll, List.append_assoc, ← Bool.not_eq_true, startsWith_iff]
    cases q with
    | chars space =>
      rw [Piece.IsValid] at hvalid
      obtain ⟨d, ds, rfl⟩ := List.exists_cons_of_ne_nil hvalid.1.ne
      have hd : isSpace d = true := hq d (by simp)
      rintro hprefix
      rw [Piece.spell] at hprefix
      have heq := (List.cons_prefix_cons.1 hprefix).1
      rw [← heq] at hd
      exact absurd hd (by decide)
    | comment text =>
      rintro hprefix
      rw [Piece.spell] at hprefix
      exact absurd (List.cons_prefix_cons.1 (List.cons_prefix_cons.1 hprefix).2).1 (by decide)
    | instruction text =>
      rw [Piece.IsValid] at hvalid
      rintro hprefix
      rw [Piece.spell] at hprefix
      have hprefix' : "xml ".toList
          <+: text ++ '?' :: '>' :: (spellAll before ++ (p.spell ++ spellAll after)) := by
        simpa [Piece.spellInstruction] using hprefix
      exact hvalid.1.notXml (prefix_of_prefix_append_cons (by decide) hprefix')
    | _ => exact absurd hq (by simp [IsOutside])

/-- Before the root stands white space up to the first bracket. -/
theorem exists_spaces {before : List Piece} {p : Piece} (hbefore : AreOutside before)
    (hp : p.IsValid ∧ p.isElement) (after : List Piece) :
    ∃ space more, spellAll before ++ (p.spell ++ spellAll after) = space ++ '<' :: more
      ∧ ∀ c ∈ space, isSpace c := by
  obtain ⟨c, cs, hcs, -, -⟩ := exists_spell_eq hp.1 hp.2 (spellAll after)
  rw [hcs]
  exact hbefore.exists_spaces (c :: cs)

namespace SpelledDocument

theorem spellDeclaration_none : spellDeclaration none = [] :=
  rfl

theorem spellDeclaration_some (text : List Char) :
    spellDeclaration (some text) = "<?xml ".toList ++ text ++ "?>".toList :=
  rfl

variable {d : SpelledDocument}

theorem afterMark_spell (hd : d.IsValid) :
    afterMark d.spell = spellDeclaration d.declaration ++ d.spellBody := by
  rw [spell, spellMark]
  cases d.hasMark with
  | true => rfl
  | false =>
    rw [if_neg Bool.false_ne_true, List.nil_append]
    cases hdeclaration : d.declaration with
    | some text => rfl
    | none =>
      obtain ⟨space, more, hbody, hspace⟩ := exists_spaces hd.before hd.root d.after
      rw [spellDeclaration_none, List.nil_append, spellBody, hbody]
      cases space with
      | nil => rfl
      | cons c space =>
        have hc : c ≠ '\ufeff' := by
          rintro rfl
          exact absurd (hspace _ (List.mem_cons_self ..)) (by decide)
        rw [List.cons_append, afterMark]
        rintro cs heq
        exact hc (List.cons.inj heq).1

/-- What is read of a document without a declaration is its root. -/
theorem parse_eq_openRoot (hd : d.IsValid) (hnone : d.declaration = none) {text : String}
    (htext : text.toList = d.spell) :
    parse text = openRoot d.root (spellAll d.after) >>= fun e => .ok e.close := by
  have hplain := not_declaration hd.before hd.root d.after
  rw [parse_eq, htext, afterMark_spell hd, hnone, spellDeclaration_none, List.nil_append,
    afterDeclaration, spellBody, hplain]
  exact readBody_spellBody hd.before hd.root hd.after

/-- What is read of a document is its root. -/
theorem openRoot_of_parse (hd : d.IsValid) {text : String} (htext : text.toList = d.spell)
    {root : Node} (h : parse text = .ok root) :
    ∃ e, openRoot d.root (spellAll d.after) = .ok e ∧ root = e.close := by
  have hbody : readBody d.spellBody = .ok root := by
    rw [parse_eq, htext, afterMark_spell hd] at h
    obtain ⟨body, hdeclaration, hread⟩ := exists_of_bind h
    cases hd' : d.declaration with
    | none =>
      have hplain := not_declaration hd.before hd.root d.after
      rw [hd', spellDeclaration_none, List.nil_append, afterDeclaration, spellBody,
        hplain] at hdeclaration
      cases hdeclaration
      exact hread
    | some declared =>
      -- the reader of declarations could only stop elsewhere if the document were none
      rw [hd', spellDeclaration_some, afterDeclaration] at hdeclaration
      have hstart : startsWith "<?xml "
          ("<?xml ".toList ++ declared ++ "?>".toList ++ d.spellBody) = true :=
        startsWith_iff.2 (by simp)
      rw [if_pos hstart] at hdeclaration
      obtain ⟨declared', hsplit, hfree'⟩ := append_of_skipDeclaration hstart hdeclaration
      have hfree : '<' ∉ declared := hd.declaration declared hd'
      obtain ⟨before, p, after, rfl, hbefore, hp, -⟩ := append_of_readBody hread
      obtain ⟨space, more, hspaces, hspace⟩ := exists_spaces hd.before hd.root d.after
      obtain ⟨space', more', hspaces', hspace'⟩ := exists_spaces hbefore hp after
      have hsame : d.spellBody = spellAll before ++ (p.spell ++ spellAll after) := by
        rw [spellBody, hspaces, hspaces']
        refine eq_of_append_spaces (a := declared ++ ['?']) (b := declared' ++ ['?']) (c := '>')
          (by simp [hfree]) (by simp [hfree']) (by decide) (by decide) hspace hspace' ?_
        have hcut := hsplit
        rw [spellBody, hspaces, hspaces'] at hcut
        simpa using hcut
      rw [hsame]
      exact hread
  rw [spellBody, readBody_spellBody hd.before hd.root hd.after] at hbody
  obtain ⟨e, hopen, hclose⟩ := exists_of_bind hbody
  cases hclose
  exact ⟨e, hopen, rfl⟩

end SpelledDocument

end ScriptedViews.Xml

import ScriptedViews.Proofs.Xml.Tags

set_option autoImplicit false

/-! # Content that is read

The reader of content goes through a document with the open elements on a stack. What it has read
once the innermost of them is closed is a list of pieces and an end tag. Two readings follow one
another where an element with content is opened: that of its content, and that of what comes after
it. -/

namespace ScriptedViews.Xml

open Piece (spellAll spellEndTag)

/-! ## Open elements -/

namespace OpenElement

theorem addNode_endRun (e : OpenElement) (n : Node) : e.endRun.addNode n = e.addNode n := by
  obtain ⟨source, name, attributes, scope, children, run⟩ := e
  cases run <;> rfl

theorem name_endRun (e : OpenElement) : e.endRun.name = e.name := by
  unfold endRun
  split <;> rfl

theorem name_addNode (e : OpenElement) (n : Node) : (e.addNode n).name = e.name :=
  e.name_endRun

end OpenElement

/-! ## What the reader of content does next -/

section Next

variable (fuel : Nat) (e : OpenElement) (outer : List OpenElement) (cs : List Char)

theorem readContent_bang : readContent (fuel + 1) e outer ('<' :: '!' :: cs) =
    if startsWith "<!--" ('<' :: '!' :: cs) then
      skipComment ('<' :: '!' :: cs) >>= readContent fuel e.endRun outer
    else if startsWith "<![CDATA[" ('<' :: '!' :: cs) then
      readUntil (startsWith "]]>") (('<' :: '!' :: cs).drop 9) >>= fun (text, rest) =>
        skipWord "]]>" rest >>= readContent fuel (e.addText (normalizeLines text)) outer
    else .error .malformed :=
  rfl

theorem readContent_question : readContent (fuel + 1) e outer ('<' :: '?' :: cs) =
    skipInstruction ('<' :: '?' :: cs) >>= readContent fuel e.endRun outer :=
  rfl

theorem readContent_slash : readContent (fuel + 1) e outer ('<' :: '/' :: cs) =
    (readEndTag ('<' :: '/' :: cs) >>= fun (name, rest) =>
      if name.qualifier ≠ e.name.qualifier ∨ name.localName ≠ e.name.localName then
        .error .unexpectedCloseTag
      else match outer with
        | [] => .ok (e.close, rest)
        | parent :: outer => readContent fuel (parent.addNode e.close) outer rest) :=
  rfl

theorem readContent_start {c : Char} (hbang : c ≠ '!') (hquestion : c ≠ '?') (hslash : c ≠ '/') :
    readContent (fuel + 1) e outer ('<' :: c :: cs) =
      (readStartTag e.scope ('<' :: c :: cs) >>= fun ((child, tagEnd), rest) =>
        match tagEnd with
        | .opened => readContent fuel child (e.endRun :: outer) rest
        | .empty => readContent fuel (e.addNode child.close) outer rest
        | .missing => .error .unclosedRootNode) := by
  rw [readContent]
  all_goals first | rfl | simp [hbang, hquestion, hslash]

theorem readContent_text {c : Char} (hc : c ≠ '<') :
    readContent (fuel + 1) e outer (c :: cs) =
      (readUntil (fun l => l.head? == some '<') (c :: cs) >>= fun (text, rest) =>
        if containsWord "]]>" text then .error .malformed
        else normalizeText text.length false [] text >>= fun text =>
          readContent fuel (e.addText text) outer rest) := by
  rw [readContent]
  all_goals first | rfl | simp [hc]

end Next

/-! ## Reading content -/

/-- How the reading goes on once the innermost element is closed. -/
def GoesOn (fuel : Nat) (e : OpenElement) (outer : List OpenElement) (after : List Char)
    (result : Node × List Char) : Prop :=
  match outer with
  | [] => result = (e.close, after)
  | parent :: outer =>
    ∃ less < fuel, readContent less (parent.addNode e.close) outer after = .ok result

theorem GoesOn.mono {fuel more : Nat} {e : OpenElement} {outer : List OpenElement}
    {after : List Char} {result : Node × List Char} (hle : fuel ≤ more)
    (h : GoesOn fuel e outer after result) : GoesOn more e outer after result := by
  cases outer with
  | nil => exact h
  | cons parent outer =>
    obtain ⟨less, hless, hread⟩ := h
    exact ⟨less, by omega, hread⟩

/-- What has been read when the innermost element is closed. -/
structure Reading (fuel : Nat) (e : OpenElement) (outer : List OpenElement) (cs : List Char)
    (result : Node × List Char) where
  pieces : List Piece
  closing : WrittenName
  space : List Char
  after : List Char
  closed : OpenElement
  spell : cs = spellAll pieces ++ spellEndTag closing space ++ after
  valid : Piece.AreValid pieces
  name : closing.IsValid
  qualifier : closing.qualifier = e.name.qualifier
  localName : closing.localName = e.name.localName
  isSpace : ∀ c ∈ space, isSpace c
  goesOn : GoesOn fuel closed outer after result

/-- A piece in front of what has been read. -/
theorem Reading.cons {fuel more : Nat} {e e₁ : OpenElement} {outer : List OpenElement}
    {cs : List Char} {result : Node × List Char} (r : Reading fuel e₁ outer cs result) {p : Piece}
    {all : List Char} (hle : fuel ≤ more) (hall : all = p.spell ++ cs) (hname : e₁.name = e.name)
    (hvalid : p.IsValid) (hfirst : p.isChars → r.pieces.head?.any Piece.isChars = false) :
    Nonempty (Reading more e outer all result) :=
  ⟨{ r with
      pieces := p :: r.pieces
      spell := by
        rw [hall, spellAll, List.append_assoc, List.append_assoc]
        exact congrArg (p.spell ++ ·) (r.spell.trans (List.append_assoc _ _ _))
      valid := by
        rw [Piece.AreValid]
        exact ⟨hvalid, r.valid, hfirst⟩
      qualifier := by rw [r.qualifier, hname]
      localName := by rw [r.localName, hname]
      goesOn := r.goesOn.mono hle }⟩

/-- Content that starts with a bracket does not start with character data. -/
theorem Reading.not_isChars {fuel : Nat} {e : OpenElement} {outer : List OpenElement}
    {cs : List Char} {result : Node × List Char} (r : Reading fuel e outer ('<' :: cs) result) :
    r.pieces.head?.any Piece.isChars = false := by
  have hspell := r.spell
  have hvalid := r.valid
  cases hps : r.pieces with
  | nil => rfl
  | cons p ps =>
    cases p with
    | chars text =>
      rw [hps, Piece.AreValid, Piece.IsValid] at hvalid
      rw [hps, spellAll, Piece.spell] at hspell
      obtain ⟨c, text', rfl⟩ := List.exists_cons_of_ne_nil hvalid.1.ne
      simp only [List.cons_append, List.cons.injEq] at hspell
      exact absurd hspell.1.symm (hvalid.1.chars c (by simp)).2
    | _ => rfl

/-- An element with content in front of what has been read after it. -/
theorem Reading.consElement {fuel less more : Nat} {tag : SpelledTag} {e child : OpenElement}
    {outer : List OpenElement} {cs rest after : List Char} {result : Node × List Char}
    (hvalid : tag.IsValid) (hname : child.name = tag.name)
    (hcs : cs = tag.spell ++ TagEnd.opened.spell ++ rest)
    (r : Reading fuel child (e.endRun :: outer) rest result)
    (r' : Reading less (e.addNode r.closed.close) outer after result)
    (hafter : r.after = after) (hle : less ≤ more) :
    Nonempty (Reading more e outer ('<' :: cs) result) := by
  subst hafter
  refine r'.cons (p := .element tag r.pieces r.closing r.space) hle ?_ (e.name_addNode _) ?_
    (fun h => absurd h Bool.false_ne_true)
  · rw [hcs, Piece.spell, TagEnd.spell]
    have hrest := r.spell
    simp only [List.cons_append, List.append_assoc, List.nil_append] at hrest ⊢
    rw [← hrest]
  · rw [Piece.IsValid]
    exact ⟨hvalid, r.valid, ⟨r.name, by rw [r.qualifier, hname], by rw [r.localName, hname],
      r.isSpace⟩⟩

/-- An element without content in front of what has been read after it. -/
theorem Reading.consEmpty {fuel more : Nat} {tag : SpelledTag} {e : OpenElement} {n : Node}
    {outer : List OpenElement} {cs rest : List Char} {result : Node × List Char}
    (hvalid : tag.IsValid) (hcs : cs = tag.spell ++ TagEnd.empty.spell ++ rest)
    (r : Reading fuel (e.addNode n) outer rest result) (hle : fuel ≤ more) :
    Nonempty (Reading more e outer ('<' :: cs) result) := by
  refine r.cons (p := .empty tag) hle ?_ (e.name_addNode _) ?_
    (fun h => absurd h Bool.false_ne_true)
  · rw [hcs, Piece.spell, TagEnd.spell]
    simp
  · rw [Piece.IsValid]
    exact hvalid

theorem append_of_readEndTag {cs rest : List Char} {n : WrittenName}
    (h : readEndTag ('<' :: '/' :: cs) = .ok (n, rest)) :
    ∃ space, '<' :: '/' :: cs = spellEndTag n space ++ rest ∧ n.IsValid
      ∧ ∀ c ∈ space, isSpace c := by
  unfold readEndTag at h
  obtain ⟨⟨name, afterName⟩, hname, hclose⟩ := exists_of_bind h
  obtain ⟨hsplit, hvalid⟩ := append_of_readQName hname
  obtain ⟨space, hspace, hspaces, -⟩ := skipSpace_spec afterName
  dsimp only at hclose
  split at hclose
  · rename_i after heq
    cases hclose
    have hcs : cs = n.spell ++ afterName := by simpa using hsplit
    refine ⟨space, ?_, hvalid, hspaces⟩
    rw [hcs, hspace, heq]
    simp [spellEndTag]
  · cases hclose

section Reading

variable {fuel : Nat} {e : OpenElement} {outer : List OpenElement} {cs : List Char}
  {result : Node × List Char}

/-- Content that starts with a comment or a section. -/
theorem reading_bang
    (ih : ∀ {e : OpenElement} {outer : List OpenElement} {cs : List Char},
      readContent fuel e outer cs = .ok result → Nonempty (Reading fuel e outer cs result))
    (h : readContent (fuel + 1) e outer ('<' :: '!' :: cs) = .ok result) :
    Nonempty (Reading (fuel + 1) e outer ('<' :: '!' :: cs) result) := by
  have hfuel : fuel ≤ fuel + 1 := Nat.le_succ fuel
  rw [readContent_bang] at h
  split at h
  · rename_i hstart
    obtain ⟨rest, hskip, hread⟩ := exists_of_bind h
    obtain ⟨text, hspell, hvalid⟩ := append_of_skipComment hstart hskip
    obtain ⟨r⟩ := ih hread
    exact r.cons (p := .comment text) hfuel (by rw [hspell, Piece.spell]) e.name_endRun
      (by rw [Piece.IsValid]; exact hvalid) (fun hp => absurd hp Bool.false_ne_true)
  · split at h
    · rename_i hstart
      obtain ⟨⟨text, left⟩, htext, hend⟩ := exists_of_bind h
      obtain ⟨rest, hrest, hread⟩ := exists_of_bind hend
      obtain ⟨hsplit, hchars, -, -⟩ := append_of_readUntil htext
      obtain ⟨tail, htail⟩ := startsWith_iff.1 hstart
      have hleft : left = "]]>".toList ++ rest := append_of_skipWord hrest
      have hdrop : tail = text ++ left := by
        rw [← hsplit, ← htail]
        have hlength : "<![CDATA[".toList.length = 9 := rfl
        exact (List.drop_left' hlength).symm
      have hspell : '<' :: '!' :: cs = (Piece.section text).spell ++ rest := by
        have hword : Piece.spellSection text = "<![CDATA[".toList ++ text ++ "]]>".toList := rfl
        rw [← htail, hdrop, hleft, Piece.spell, hword, List.append_assoc, List.append_assoc]
      obtain ⟨r⟩ := ih hread
      refine r.cons (p := .section text) hfuel hspell rfl ?_
        (fun hp => absurd hp Bool.false_ne_true)
      rw [Piece.IsValid]
      exact ⟨hchars, not_infix_of_readUntil (by decide) htext⟩
    · cases h

/-- Content that starts with a processing instruction. -/
theorem reading_instruction
    (ih : ∀ {e : OpenElement} {outer : List OpenElement} {cs : List Char},
      readContent fuel e outer cs = .ok result → Nonempty (Reading fuel e outer cs result))
    (h : readContent (fuel + 1) e outer ('<' :: '?' :: cs) = .ok result) :
    Nonempty (Reading (fuel + 1) e outer ('<' :: '?' :: cs) result) := by
  rw [readContent_question] at h
  obtain ⟨rest, hskip, hread⟩ := exists_of_bind h
  have hstart : startsWith "<?" ('<' :: '?' :: cs) = true := startsWith_iff.2 ⟨cs, rfl⟩
  obtain ⟨text, hspell, hvalid⟩ := append_of_skipInstruction hstart hskip
  obtain ⟨r⟩ := ih hread
  exact r.cons (p := .instruction text) (Nat.le_succ fuel) (by rw [hspell, Piece.spell])
    e.name_endRun (by rw [Piece.IsValid]; exact hvalid) (fun hp => absurd hp Bool.false_ne_true)

/-- Content that starts with the end tag of the innermost element. -/
theorem reading_endTag (h : readContent (fuel + 1) e outer ('<' :: '/' :: cs) = .ok result) :
    Nonempty (Reading (fuel + 1) e outer ('<' :: '/' :: cs) result) := by
  rw [readContent_slash] at h
  obtain ⟨⟨name, rest⟩, hend, hclose⟩ := exists_of_bind h
  obtain ⟨space, hspell, hvalid, hspace⟩ := append_of_readEndTag hend
  dsimp only at hclose
  split at hclose
  · cases hclose
  · rename_i hsame
    simp only [not_or, not_not] at hsame
    refine ⟨⟨[], name, space, rest, e, hspell, trivial, hvalid, hsame.1, hsame.2, hspace, ?_⟩⟩
    cases outer with
    | nil =>
      cases hclose
      rfl
    | cons parent outer => exact ⟨fuel, Nat.lt_succ_self fuel, hclose⟩

/-- Content that starts with character data. -/
theorem reading_chars
    (ih : ∀ {e : OpenElement} {outer : List OpenElement} {cs : List Char},
      readContent fuel e outer cs = .ok result → Nonempty (Reading fuel e outer cs result))
    {c : Char} (hc : c ≠ '<')
    (h : readContent (fuel + 1) e outer (c :: cs) = .ok result) :
    Nonempty (Reading (fuel + 1) e outer (c :: cs) result) := by
  rw [readContent_text _ _ _ _ hc] at h
  obtain ⟨⟨text, rest⟩, htext, hmore⟩ := exists_of_bind h
  obtain ⟨hsplit, hchars, hend, hnone⟩ := append_of_readUntil htext
  dsimp only at hmore
  split at hmore
  · cases hmore
  · rename_i hopen
    obtain ⟨normal, hnormal, hread⟩ := exists_of_bind hmore
    have hbracket : ∀ d ∈ text, d ≠ '<' := by
      rintro d hd rfl
      obtain ⟨a, b, rfl⟩ := List.append_of_mem hd
      exact absurd (hnone a ('<' :: b) rfl (by simp)) (by simp)
    have hne : text ≠ [] := by
      rintro rfl
      rw [List.nil_append] at hsplit
      rcases hend with rfl | hend
      · cases hsplit
      · rw [← hsplit] at hend
        simp [hc] at hend
    have hvalid : (Piece.chars text).IsValid := by
      rw [Piece.IsValid]
      exact ⟨hne, fun d hd => ⟨hchars d hd, hbracket d hd⟩,
        fun hinfix => hopen (containsWord_iff.2 hinfix), normal, hnormal⟩
    obtain ⟨r⟩ := ih hread
    have hfirst : r.pieces.head?.any Piece.isChars = false := by
      rcases hend with rfl | hend
      · have hspell := congrArg List.length r.spell
        simp [spellEndTag] at hspell
      · cases rest with
        | nil => cases hend
        | cons d rest =>
          have hd : d = '<' := by simpa using hend
          subst hd
          exact r.not_isChars
    exact r.cons (p := .chars text) (Nat.le_succ fuel) (by rw [hsplit, Piece.spell]) rfl hvalid
      (fun _ => hfirst)

/-- Content that starts with an element. -/
theorem reading_element
    (ih : ∀ {less : Nat} {e : OpenElement} {outer : List OpenElement} {cs : List Char},
      less ≤ fuel → readContent less e outer cs = .ok result →
        Nonempty (Reading less e outer cs result))
    {c : Char} (hbang : c ≠ '!') (hquestion : c ≠ '?') (hslash : c ≠ '/')
    (h : readContent (fuel + 1) e outer ('<' :: c :: cs) = .ok result) :
    Nonempty (Reading (fuel + 1) e outer ('<' :: c :: cs) result) := by
  rw [readContent_start _ _ _ _ hbang hquestion hslash] at h
  obtain ⟨⟨⟨child, tagEnd⟩, rest⟩, hread, hmore⟩ := exists_of_bind h
  cases tagEnd with
  | missing => cases hmore
  | empty =>
    obtain ⟨tag, hvalid, hname, hcs⟩ := append_of_readStartTag hread (by decide)
    obtain ⟨r⟩ := ih (Nat.le_refl fuel) hmore
    exact r.consEmpty hvalid hcs (Nat.le_succ fuel)
  | opened =>
    obtain ⟨tag, hvalid, hname, hcs⟩ := append_of_readStartTag hread (by decide)
    obtain ⟨r⟩ := ih (Nat.le_refl fuel) hmore
    obtain ⟨less, hless, hafter⟩ := r.goesOn
    rw [OpenElement.addNode_endRun] at hafter
    obtain ⟨r'⟩ := ih (Nat.le_of_lt hless) hafter
    exact Reading.consElement hvalid hname hcs r r' rfl (by omega)

end Reading

/-- What the reader of content reads, up to where the innermost element is closed, is pieces that
    follow the grammar and an end tag. -/
theorem reading_of_readContent {fuel : Nat} {e : OpenElement} {outer : List OpenElement}
    {cs : List Char} {result : Node × List Char} (h : readContent fuel e outer cs = .ok result) :
    Nonempty (Reading fuel e outer cs result) := by
  -- on the fuel: what comes after an element is read with less than the element itself
  induction fuel using Nat.strong_induction_on generalizing e outer cs with
  | _ fuel ih =>
    cases fuel with
    | zero => cases h
    | succ fuel =>
      have hfuel : fuel ≤ fuel + 1 := Nat.le_succ fuel
      have ihRest : ∀ {e : OpenElement} {outer : List OpenElement} {cs : List Char},
          readContent fuel e outer cs = .ok result → Nonempty (Reading fuel e outer cs result) :=
        fun h => ih fuel (Nat.lt_succ_self fuel) h
      rcases cs with _ | ⟨c, cs⟩
      · cases h
      · by_cases hc : c = '<'
        · subst hc
          rcases cs with _ | ⟨d, tail⟩
          · cases h
          · by_cases hbang : d = '!'
            · subst hbang
              exact reading_bang ihRest h
            · by_cases hquestion : d = '?'
              · subst hquestion
                exact reading_instruction ihRest h
              · by_cases hslash : d = '/'
                · subst hslash
                  exact reading_endTag h
                · refine reading_element (fun hless h => ?_) hbang hquestion hslash h
                  exact ih _ (Nat.lt_succ_of_le hless) h
        · exact reading_chars ihRest hc h

end ScriptedViews.Xml

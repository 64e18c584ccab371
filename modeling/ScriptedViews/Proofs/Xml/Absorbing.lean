import ScriptedViews.Proofs.Xml.Acceptance
import ScriptedViews.Proofs.Xml.Content

set_option autoImplicit false

/-! # What an open element takes in

Reading a spelled content changes the innermost open element piece by piece, as the pieces say, and
nothing else. What that makes of the element is told without the reader, and its nodes are those of
the pieces. -/

namespace ScriptedViews.Xml

open Document (convert convertAll)
open Piece (spellAll spellEndTag textNodes nodesAfter)

/-! ## Nodes of open elements -/

theorem convertAll_append (ns ms : List Node) :
    convertAll (ns ++ ms) = convertAll ns ++ convertAll ms := by
  induction ns with
  | nil => rfl
  | cons n ns ih => simp only [List.cons_append, convertAll, ih, List.append_assoc]

namespace OpenElement

/-- The nodes of a view among the children that an open element has so far. -/
def nodes (e : OpenElement) : List ScriptedViews.Node :=
  convertAll e.children.reverse

theorem nodes_endRun (e : OpenElement) : e.endRun.nodes = e.nodes ++ textNodes e.run := by
  obtain ⟨source, name, attributes, scope, children, run⟩ := e
  cases run with
  | none => simp [endRun, nodes, textNodes]
  | some cs =>
    simp [endRun, nodes, textNodes, convertAll_append, convertAll, convert]

theorem run_endRun (e : OpenElement) : e.endRun.run = none := by
  obtain ⟨source, name, attributes, scope, children, run⟩ := e
  cases run <;> rfl

theorem nodes_addNode (e : OpenElement) (n : Node) :
    (e.addNode n).nodes = e.nodes ++ textNodes e.run ++ convert n := by
  have h : (e.addNode n).nodes = e.endRun.nodes ++ convert n := by
    simp [addNode, nodes, convertAll_append, convertAll]
  rw [h, nodes_endRun]

end OpenElement

theorem Piece.ArePlain.tail {p : Piece} {ps : List Piece} (h : Piece.ArePlain (p :: ps)) :
    Piece.ArePlain ps := by
  rw [Piece.ArePlain] at h
  exact h.2

/-- Whether an open element becomes another one by what some pieces stand for. -/
structure Absorbs (ps : List Piece) (e e' : OpenElement) : Prop where
  source : e'.source = e.source
  name : e'.name = e.name
  attributes : e'.attributes = e.attributes
  scope : e'.scope = e.scope
  nodes : Piece.ArePlain ps → e'.endRun.nodes = e.nodes ++ nodesAfter e.run ps

namespace Absorbs

variable {p : Piece} {ps : List Piece} {e e' : OpenElement}

theorem nil (e : OpenElement) : Absorbs [] e e :=
  ⟨rfl, rfl, rfl, rfl, fun _ => by rw [OpenElement.nodes_endRun, nodesAfter]⟩

/-- A piece that ends a text and is left out. -/
theorem endRun (h : Absorbs ps e.endRun e') (hplain : Piece.ArePlain (p :: ps) → Piece.ArePlain ps)
    (hp : nodesAfter e.run (p :: ps) = textNodes e.run ++ nodesAfter none ps) :
    Absorbs (p :: ps) e e' := by
  have hsame : e.endRun.source = e.source ∧ e.endRun.name = e.name
      ∧ e.endRun.attributes = e.attributes ∧ e.endRun.scope = e.scope := by
    unfold OpenElement.endRun
    split <;> exact ⟨rfl, rfl, rfl, rfl⟩
  refine ⟨h.source.trans hsame.1, h.name.trans hsame.2.1, h.attributes.trans hsame.2.2.1,
    h.scope.trans hsame.2.2.2, fun hps => ?_⟩
  rw [h.nodes (hplain hps), OpenElement.nodes_endRun, OpenElement.run_endRun, hp,
    List.append_assoc]

/-- Character data joins the text before it. -/
theorem addText {cs : List Char} (h : Absorbs ps (e.addText cs) e')
    (hplain : Piece.ArePlain (p :: ps) → Piece.ArePlain ps)
    (hp : nodesAfter e.run (p :: ps) = nodesAfter (Piece.joinText e.run cs) ps) :
    Absorbs (p :: ps) e e' :=
  ⟨h.source, h.name, h.attributes, h.scope, fun hps => by
    rw [h.nodes (hplain hps), hp]
    rfl⟩

/-- An element stands after the text before it. -/
theorem addNode {n : Node} (h : Absorbs ps (e.addNode n) e')
    (hplain : Piece.ArePlain (p :: ps) → Piece.ArePlain ps)
    (hp : Piece.ArePlain (p :: ps) →
      nodesAfter e.run (p :: ps) = textNodes e.run ++ (convert n ++ nodesAfter none ps)) :
    Absorbs (p :: ps) e e' := by
  have hsame : (e.addNode n).source = e.source ∧ (e.addNode n).name = e.name
      ∧ (e.addNode n).attributes = e.attributes ∧ (e.addNode n).scope = e.scope
      ∧ (e.addNode n).run = none := by
    unfold OpenElement.addNode OpenElement.endRun
    split
    · exact ⟨rfl, rfl, rfl, rfl, rfl⟩
    · rename_i hrun
      exact ⟨rfl, rfl, rfl, rfl, hrun⟩
  refine ⟨h.source.trans hsame.1, h.name.trans hsame.2.1, h.attributes.trans hsame.2.2.1,
    h.scope.trans hsame.2.2.2.1, fun hps => ?_⟩
  rw [h.nodes (hplain hps), OpenElement.nodes_addNode, hsame.2.2.2.2, hp hps]
  simp only [List.append_assoc]

end Absorbs

/-- An element that a start tag opens has nothing in it yet. -/
theorem SpelledTag.Opens.nodes_eq {tag : SpelledTag} {outer : Scope} {source : List Char}
    {e : OpenElement} (h : tag.Opens outer source e) : e.nodes = [] := by
  rw [OpenElement.nodes, h.children]
  rfl

/-- The element that a start tag opens is the element of the tag, once it has absorbed its
    content. -/
theorem convert_close {tag : SpelledTag} {outer : Scope} {mark : Char} {rest : List Char}
    {e e' : OpenElement} {ps : List Piece}
    (hopens : tag.Opens outer ('<' :: tag.spell ++ mark :: rest) e) (habsorbs : Absorbs ps e e')
    (hvalid : tag.IsValid) (hplain : tag.IsPlain) (hps : Piece.ArePlain ps)
    (hmark : mark = '/' ∨ mark = '>') :
    convert e'.close = [.element tag.name.toQName (tag.attributes.map (·.toAttribute))
      (Piece.nodes ps)] := by
  have hnodes := habsorbs.nodes hps
  rw [hopens.nodes_eq, hopens.run, List.nil_append] at hnodes
  rw [OpenElement.close, convert, habsorbs.source, habsorbs.scope, habsorbs.attributes,
    hopens.readTag_eq hvalid hplain hmark, Piece.nodes, ← hnodes]
  rfl

/-! ## Pieces one by one -/

namespace OpenElement

/-- An open element with what some pieces say, `rest` being spelled after them. -/
def absorb : List Piece → List Char → OpenElement → Except XmlError OpenElement
  | [], _, e => .ok e
  | .chars cs :: ps, rest, e => absorb ps rest (e.addText ((Piece.normalized? cs).toOption.getD []))
  | .section cs :: ps, rest, e => absorb ps rest (e.addText (normalizeLines cs))
  | .comment _ :: ps, rest, e => absorb ps rest e.endRun
  | .instruction _ :: ps, rest, e => absorb ps rest e.endRun
  | .empty tag :: ps, rest, e => do
    let child ← tag.open? e.scope ('<' :: tag.spell ++ '/' :: '>' :: (spellAll ps ++ rest))
    absorb ps rest (e.addNode child.close)
  | .element tag content closing space :: ps, rest, e => do
    let after := spellEndTag closing space ++ (spellAll ps ++ rest)
    let child ← tag.open? e.scope ('<' :: tag.spell ++ '>' :: (spellAll content ++ after))
    let child ← absorb content after child
    absorb ps rest (e.addNode child.close)

end OpenElement

/-- What is absorbed changes an element as its pieces say. -/
theorem absorbs_of_absorb : ∀ {ps : List Piece} {rest : List Char} {e e' : OpenElement},
    Piece.AreValid ps → e.absorb ps rest = .ok e' → Absorbs ps e e'
  | [], rest, e, e', _, h => by
    rw [OpenElement.absorb] at h
    cases h
    exact .nil e
  | .chars cs :: ps, rest, e, e', hvalid, h => by
    rw [OpenElement.absorb] at h
    rw [Piece.AreValid] at hvalid
    exact (absorbs_of_absorb hvalid.2.1 h).addText Piece.ArePlain.tail (by rw [nodesAfter])
  | .section cs :: ps, rest, e, e', hvalid, h => by
    rw [OpenElement.absorb] at h
    rw [Piece.AreValid] at hvalid
    exact (absorbs_of_absorb hvalid.2.1 h).addText Piece.ArePlain.tail (by rw [nodesAfter])
  | .comment cs :: ps, rest, e, e', hvalid, h => by
    rw [OpenElement.absorb] at h
    rw [Piece.AreValid] at hvalid
    exact (absorbs_of_absorb hvalid.2.1 h).endRun Piece.ArePlain.tail (by rw [nodesAfter])
  | .instruction cs :: ps, rest, e, e', hvalid, h => by
    rw [OpenElement.absorb] at h
    rw [Piece.AreValid] at hvalid
    exact (absorbs_of_absorb hvalid.2.1 h).endRun Piece.ArePlain.tail (by rw [nodesAfter])
  | .empty tag :: ps, rest, e, e', hvalid, h => by
    rw [OpenElement.absorb] at h
    rw [Piece.AreValid, Piece.IsValid] at hvalid
    obtain ⟨child, hopen, hrest⟩ := exists_of_bind h
    refine (absorbs_of_absorb hvalid.2.1 hrest).addNode Piece.ArePlain.tail fun hplain => ?_
    rw [Piece.ArePlain, Piece.IsPlain] at hplain
    rw [nodesAfter, convert_close (SpelledTag.opens_of_open? hopen) (.nil child) hvalid.1 hplain.1
      trivial (.inl rfl), Piece.nodes, nodesAfter]
    rfl
  | .element tag content closing space :: ps, rest, e, e', hvalid, h => by
    rw [OpenElement.absorb] at h
    rw [Piece.AreValid, Piece.IsValid] at hvalid
    obtain ⟨child, hopen, hmore⟩ := exists_of_bind h
    obtain ⟨child', hcontent, hrest⟩ := exists_of_bind hmore
    have hchild := absorbs_of_absorb hvalid.1.2.1 hcontent
    refine (absorbs_of_absorb hvalid.2.1 hrest).addNode Piece.ArePlain.tail fun hplain => ?_
    rw [Piece.ArePlain, Piece.IsPlain] at hplain
    rw [nodesAfter, convert_close (SpelledTag.opens_of_open? hopen) hchild hvalid.1.1 hplain.1.1
      hplain.1.2 (.inr rfl)]
    rfl

/-! ## Reading pieces -/

section Reading

variable (k : Nat) (e : OpenElement) (outer : List OpenElement) (rest : List Char)

theorem readContent_chars {cs : List Char} (h : Piece.IsCharData cs) :
    readContent (k + 1) e outer (cs ++ '<' :: rest)
      = readContent k (e.addText ((Piece.normalized? cs).toOption.getD [])) outer ('<' :: rest) := by
  obtain ⟨text, htext⟩ := h.references
  have hread : readUntil (fun l => l.head? == some '<') (cs ++ '<' :: rest)
      = .ok (cs, '<' :: rest) := by
    refine readUntil_append (fun c hc => (h.chars c hc).1) (fun a b hab hb => ?_) (by simp)
      ⟨'<', rest, rfl, rfl⟩
    obtain ⟨c, b, rfl⟩ := List.exists_cons_of_ne_nil hb
    simpa using (h.chars c (by rw [hab]; simp)).2
  have hopen : containsWord "]]>" cs = false := by
    rw [← Bool.not_eq_true, containsWord_iff]
    exact h.open'
  obtain ⟨c, tail, hcs⟩ := List.exists_cons_of_ne_nil h.ne
  have hc : c ≠ '<' := (h.chars c (by rw [hcs]; simp)).2
  have htext' : normalizeText cs.length false [] cs = .ok text := htext
  rw [htext]
  rw [hcs, List.cons_append, readContent_text _ _ _ _ hc, ← List.cons_append, ← hcs, hread]
  simp only [bind, Except.bind, hopen, Bool.false_eq_true, if_false, htext']
  rfl

theorem readContent_section {cs : List Char} (h : Piece.IsSectionText cs) :
    readContent (k + 1) e outer (Piece.spellSection cs ++ rest)
      = readContent k (e.addText (normalizeLines cs)) outer rest := by
  have hspell : Piece.spellSection cs ++ rest
      = "<![CDATA[".toList ++ (cs ++ ("]]>".toList ++ rest)) := by
    have hword : Piece.spellSection cs = "<![CDATA[".toList ++ cs ++ "]]>".toList := rfl
    rw [hword, List.append_assoc, List.append_assoc]
  have hread := readUntil_word "]]>" (by decide) (by decide) h.chars h.open' rest
  generalize hafter : cs ++ ("]]>".toList ++ rest) = after at hspell hread
  have hstart : startsWith "<![CDATA[" ("<![CDATA[".toList ++ after) = true :=
    startsWith_iff.2 (List.prefix_append _ _)
  have hcomment : startsWith "<!--" ("<![CDATA[".toList ++ after) = false := rfl
  have hdrop : ("<![CDATA[".toList ++ after).drop 9 = after := rfl
  have hshape : "<![CDATA[".toList ++ after = '<' :: '!' :: ("[CDATA[".toList ++ after) := rfl
  rw [hspell, hshape, readContent_bang, ← hshape, hcomment, hstart, hdrop, hread]
  simp only [Bool.false_eq_true, if_false, if_true, bind, Except.bind, skipWord_append]

theorem readContent_comment {cs : List Char} (h : Piece.IsCommentText cs) :
    readContent (k + 1) e outer (Piece.spellComment cs ++ rest)
      = readContent k e.endRun outer rest := by
  have hstart : startsWith "<!--" (Piece.spellComment cs ++ rest) = true := rfl
  have hskip := skipComment_spell h rest
  have hshape : Piece.spellComment cs ++ rest
      = '<' :: '!' :: '-' :: '-' :: (cs ++ "-->".toList ++ rest) := rfl
  rw [hshape] at hstart hskip ⊢
  rw [readContent_bang, if_pos hstart, hskip]
  rfl

theorem readContent_instruction {cs : List Char} (h : Piece.IsInstructionText cs) :
    readContent (k + 1) e outer (Piece.spellInstruction cs ++ rest)
      = readContent k e.endRun outer rest := by
  have hskip := skipInstruction_spell h rest
  have hshape : Piece.spellInstruction cs ++ rest
      = '<' :: '?' :: (cs ++ "?>".toList ++ rest) := rfl
  rw [hshape] at hskip ⊢
  rw [readContent_question, hskip]
  rfl

/-- The first character of a name after a bracket tells a start tag from other markup. -/
theorem WrittenName.IsValid.head_cases {n : WrittenName} (h : n.IsValid) (more : List Char) :
    ∃ c cs, n.spell ++ more = c :: cs ∧ c ≠ '!' ∧ c ≠ '?' ∧ c ≠ '/' := by
  obtain ⟨c, cs, hcs, hc⟩ := h.head_spell
  refine ⟨c, cs ++ more, by rw [hcs]; rfl, ?_, ?_, ?_⟩ <;> rintro rfl <;> rcases hc with hc | hc
  all_goals exact absurd hc (by decide)

theorem readContent_startTag {tag : SpelledTag} (h : tag.IsValid) {tagEnd : TagEnd}
    (hend : tagEnd ≠ .missing) :
    readContent (k + 1) e outer ('<' :: tag.spell ++ (tagEnd.spell ++ rest))
      = tag.open? e.scope ('<' :: tag.spell ++ (tagEnd.spell ++ rest)) >>= fun child =>
        match tagEnd with
        | .opened => readContent k child (e.endRun :: outer) rest
        | .empty => readContent k (e.addNode child.close) outer rest
        | .missing => .error .unclosedRootNode := by
  have hread := readStartTag_spell h hend e.scope rest
  obtain ⟨c, cs, hcs, hbang, hquestion, hslash⟩ := h.name.head_cases
    (tag.attributes.flatMap SpelledAttribute.spell ++ tag.space ++ (tagEnd.spell ++ rest))
  have hshape : '<' :: tag.spell ++ (tagEnd.spell ++ rest) = '<' :: c :: cs := by
    rw [← hcs]
    simp [SpelledTag.spell]
  rw [hshape] at hread ⊢
  rw [readContent_start _ _ _ _ hbang hquestion hslash, hread]
  cases tag.open? e.scope ('<' :: c :: cs) with
  | error err => rfl
  | ok child => cases tagEnd <;> rfl

theorem readContent_endTag {tag : SpelledTag} {closing : WrittenName} {space : List Char}
    (h : Piece.Closes closing space tag) (hname : e.name = tag.name) :
    readContent (k + 1) e outer (spellEndTag closing space ++ rest)
      = match outer with
        | [] => .ok (e.close, rest)
        | parent :: outer => readContent k (parent.addNode e.close) outer rest := by
  have hread := readEndTag_spell h.name h.space rest
  have hshape : spellEndTag closing space ++ rest
      = '<' :: '/' :: (closing.spell ++ space ++ ['>'] ++ rest) := rfl
  have hsame : ¬ (closing.qualifier ≠ e.name.qualifier ∨ closing.localName ≠ e.name.localName) := by
    rw [hname, h.qualifier, h.localName]
    simp
  rw [hshape] at hread ⊢
  rw [readContent_slash, hread]
  cases outer <;> simp only [bind, Except.bind, if_neg hsame]

end Reading

/-- How many pieces some pieces are to the reader, which reads start tags and end tags apart. -/
def weight : List Piece → Nat
  | [] => 0
  | .chars _ :: ps => weight ps + 1
  | .section _ :: ps => weight ps + 1
  | .comment _ :: ps => weight ps + 1
  | .instruction _ :: ps => weight ps + 1
  | .empty _ :: ps => weight ps + 1
  | .element _ content _ _ :: ps => weight content + (weight ps + 1) + 1

/-- Pieces that do not start with character data start with a bracket, if what follows them does. -/
theorem exists_spellAll_eq {ps : List Piece} (h : ps.head?.any Piece.isChars = false)
    (rest : List Char) : ∃ cs, spellAll ps ++ '<' :: rest = '<' :: cs := by
  cases ps with
  | nil => exact ⟨rest, rfl⟩
  | cons p ps =>
    rw [spellAll]
    cases p with
    | chars cs => cases h
    | _ => exact ⟨_, rfl⟩

/-- Reading spelled content is absorbing it and reading on. -/
theorem readContent_spellAll : ∀ {ps : List Piece}, Piece.AreValid ps →
    ∀ (k : Nat) (e : OpenElement) (outer : List OpenElement) (rest : List Char),
    readContent (weight ps + k) e outer (spellAll ps ++ '<' :: rest)
      = e.absorb ps ('<' :: rest) >>= fun e' => readContent k e' outer ('<' :: rest)
  | [], _, k, e, outer, rest => by
    rw [weight, Nat.zero_add, OpenElement.absorb, spellAll]
    rfl
  | .chars cs :: ps, hvalid, k, e, outer, rest => by
    rw [Piece.AreValid, Piece.IsValid] at hvalid
    obtain ⟨after, hafter⟩ := exists_spellAll_eq (hvalid.2.2 rfl) rest
    rw [weight, spellAll, Piece.spell, List.append_assoc, Nat.add_right_comm, hafter,
      readContent_chars _ _ _ _ hvalid.1, ← hafter, readContent_spellAll hvalid.2.1,
      OpenElement.absorb]
  | .section cs :: ps, hvalid, k, e, outer, rest => by
    rw [Piece.AreValid, Piece.IsValid] at hvalid
    rw [weight, spellAll, Piece.spell, List.append_assoc, Nat.add_right_comm,
      readContent_section _ _ _ _ hvalid.1, readContent_spellAll hvalid.2.1, OpenElement.absorb]
  | .comment cs :: ps, hvalid, k, e, outer, rest => by
    rw [Piece.AreValid, Piece.IsValid] at hvalid
    rw [weight, spellAll, Piece.spell, List.append_assoc, Nat.add_right_comm,
      readContent_comment _ _ _ _ hvalid.1, readContent_spellAll hvalid.2.1, OpenElement.absorb]
  | .instruction cs :: ps, hvalid, k, e, outer, rest => by
    rw [Piece.AreValid, Piece.IsValid] at hvalid
    rw [weight, spellAll, Piece.spell, List.append_assoc, Nat.add_right_comm,
      readContent_instruction _ _ _ _ hvalid.1, readContent_spellAll hvalid.2.1,
      OpenElement.absorb]
  | .empty tag :: ps, hvalid, k, e, outer, rest => by
    rw [Piece.AreValid, Piece.IsValid] at hvalid
    have hspell : spellAll (.empty tag :: ps) ++ '<' :: rest
        = '<' :: tag.spell ++ (TagEnd.empty.spell ++ (spellAll ps ++ '<' :: rest)) := by
      rw [spellAll, Piece.spell, TagEnd.spell]
      simp
    rw [weight, hspell, Nat.add_right_comm, readContent_startTag _ _ _ _ hvalid.1 (by decide),
      OpenElement.absorb, bind_assoc]
    refine bind_congr fun child => ?_
    exact readContent_spellAll hvalid.2.1 _ _ _ _
  | .element tag content closing space :: ps, hvalid, k, e, outer, rest => by
    rw [Piece.AreValid, Piece.IsValid] at hvalid
    obtain ⟨⟨htag, hcontent, hcloses⟩, hps, -⟩ := hvalid
    generalize hafter : spellAll ps ++ '<' :: rest = after
    have hspell : spellAll (.element tag content closing space :: ps) ++ '<' :: rest
        = '<' :: tag.spell ++ (TagEnd.opened.spell
          ++ (spellAll content ++ (spellEndTag closing space ++ after))) := by
      rw [spellAll, Piece.spell, TagEnd.spell, ← hafter]
      simp
    have hfuel : weight content + (weight ps + 1) + 1 + k
        = weight content + (weight ps + k + 1) + 1 := by
      omega
    have hend : spellEndTag closing space ++ after
        = '<' :: ('/' :: closing.spell ++ space ++ ['>'] ++ after) := by
      simp [spellEndTag]
    rw [weight, hspell, hfuel, readContent_startTag _ _ _ _ htag (by decide), OpenElement.absorb,
      bind_assoc, hafter]
    generalize hsource : '<' :: tag.spell ++ (TagEnd.opened.spell
      ++ (spellAll content ++ (spellEndTag closing space ++ after))) = source
    have hsource' : '<' :: tag.spell
        ++ '>' :: (spellAll content ++ (spellEndTag closing space ++ after)) = source := hsource
    rw [hsource']
    cases hopen : tag.open? e.scope source with
    | error err => rfl
    | ok child =>
      have hread := readContent_spellAll hcontent (weight ps + k + 1) child (e.endRun :: outer)
        ('/' :: closing.spell ++ space ++ ['>'] ++ after)
      rw [← hend] at hread
      simp only [bind, Except.bind] at hread ⊢
      rw [hread]
      cases habsorb : child.absorb content (spellEndTag closing space ++ after) with
      | error err => rfl
      | ok child' =>
        have hname : child'.name = tag.name :=
          (absorbs_of_absorb hcontent habsorb).name.trans (SpelledTag.opens_of_open? hopen).name
        dsimp only
        rw [readContent_endTag _ _ _ _ hcloses hname]
        dsimp only
        rw [OpenElement.addNode_endRun, ← hafter]
        exact readContent_spellAll hps _ _ _ _

end ScriptedViews.Xml

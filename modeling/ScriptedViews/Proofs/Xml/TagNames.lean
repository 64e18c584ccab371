import ScriptedViews.Proofs.Xml.Documents

set_option autoImplicit false

/-! # Where names end

The names in a start tag are read twice: the reader of documents ends them by the grammar, at the
first character that no name has, and the scan of the text ends them at the first blank or sign.
White space ends names for both of them, but there is one blank that is also a character of names,
the Ogham space mark. So the two readings of a start tag are the same if and only if no name in it
has that character, whatever else is in the tag and around it. -/

namespace ScriptedViews.Xml

open Piece (spellAll spellEndTag)

/-! ## Names and blanks -/

/-- The one blank that names may have. -/
def oghamSpace : Char :=
  '\u1680'

/-- Whether the characters are a name: one that may start it, and those that may follow. -/
def IsName : List Char → Prop
  | [] => False
  | c :: cs => (isNameStart c = true ∨ c = ':') ∧ ∀ d ∈ cs, isNameChar d = true ∨ d = ':'

theorem IsPartName.isName_append {cs : List Char} (h : IsPartName cs) {more : List Char}
    (hmore : ∀ d ∈ more, isNameChar d = true ∨ d = ':') : IsName (cs ++ more) := by
  obtain ⟨hne, hstart, hrest⟩ := h
  cases cs with
  | nil => exact absurd rfl hne
  | cons c cs =>
    have hhead : isNameStart c = true := by simpa [startsName] using hstart
    rw [List.forall_mem_cons] at hrest
    exact ⟨.inl hhead, List.forall_mem_append.2 ⟨fun d hd => .inl (hrest.2 d hd), hmore⟩⟩

theorem WrittenName.IsValid.isName {n : WrittenName} (h : n.IsValid) : IsName n.spell := by
  have htail : ∀ d ∈ ':' :: n.localName.toList, isNameChar d = true ∨ d = ':' :=
    List.forall_mem_cons.2 ⟨.inr rfl, fun d hd => .inl (h.localName.2.2 d hd)⟩
  unfold WrittenName.spell
  split
  · by_cases hq : n.qualifier = ""
    · rw [hq]
      exact ⟨.inr rfl, (List.forall_mem_cons.1 htail).2⟩
    · exact (h.qualifier hq).2.isName_append htail
  · have hlocal : IsName (n.localName.toList ++ []) := h.localName.isName_append (by simp)
    rwa [List.append_nil] at hlocal

/-- Of all characters of names, one is blank. -/
theorem eq_oghamSpace_of_isBlank {c : Char} (hname : isNameChar c = true ∨ c = ':')
    (hblank : Text.isBlank c = true) : c = oghamSpace := by
  have hranges : ∀ b ∈ Text.whiteSpaceRanges, ∀ r ∈ nameStartRanges ++ nameTailRanges,
      b.2 < r.1 ∨ r.2 < b.1 ∨ b = (0x1680, 0x1680) := by decide
  obtain ⟨b, hb, hlow, hhigh⟩ := exists_of_inRanges hblank
  rcases hname with hname | rfl
  · obtain ⟨r, hr, hlow', hhigh'⟩ := exists_of_isNameChar hname
    rcases hranges b hb r hr with h | h | rfl
    · omega
    · omega
    · exact Char.toNat_inj.1 (Nat.le_antisymm hhigh hlow)
  · exact absurd hblank (by decide)

theorem WrittenName.IsValid.isSolid_iff {n : WrittenName} (h : n.IsValid) :
    n.IsSolid ↔ oghamSpace ∉ n.spell := by
  constructor
  · intro hsolid hmem
    exact absurd (hsolid oghamSpace hmem) (by decide)
  · intro hnot c hc
    rw [← Bool.not_eq_true]
    intro hblank
    exact hnot (eq_oghamSpace_of_isBlank (h.isNameChar_of_mem hc) hblank ▸ hc)

/-! ## One start tag -/

/-- A run of characters is taken as far as it goes, and what tells one kind of characters apart
    among them does so as well as another. -/
theorem takeWhile_append_cons_of_eq {p q : Char → Bool} {a b : List Char} {c : Char}
    (h : ∀ d ∈ a, p d = q d) (hc : p c = false) : (a ++ c :: b).takeWhile p = a.takeWhile q := by
  induction a with
  | nil => exact List.takeWhile_cons_of_neg (by simp [hc])
  | cons d a ih =>
    rw [List.forall_mem_cons] at h
    rw [List.cons_append, List.takeWhile_cons, List.takeWhile_cons, h.1, ih h.2]

/-- The names in a start tag, first of all the element's. -/
def StartTag.names (t : StartTag) : List (List Char) :=
  t.name :: t.attributes

/-- The names in a start tag in the form they have in it. -/
def SpelledTag.written (t : SpelledTag) : StartTag :=
  ⟨t.name.spell, t.attributes.map (·.name.spell)⟩

theorem SpelledTag.IsValid.isName_of_mem {t : SpelledTag} (h : t.IsValid) :
    ∀ n ∈ t.written.names, IsName n := by
  simp only [StartTag.names, written, List.forall_mem_cons, List.forall_mem_map]
  exact ⟨h.name.isName, fun a ha => (h.attributes a ha).name.isName⟩

theorem StartTag.not_isBlank_of_scanAttributes {fuel : Nat} {cs : List Char} :
    ∀ n ∈ scanAttributes fuel cs, ∀ c ∈ n, Text.isBlank c = false := by
  induction fuel generalizing cs with
  | zero => simp [scanAttributes]
  | succ fuel ih =>
    have hname : ∀ cs : List Char, ∀ c ∈ cs.takeWhile (!endsAttributeName ·),
        Text.isBlank c = false := by
      intro cs c hc
      have hnot := List.mem_takeWhile_imp hc
      simp only [endsAttributeName, Bool.not_or, Bool.and_eq_true, Bool.not_eq_true'] at hnot
      exact hnot.2
    rw [scanAttributes]
    split
    · simp
    · dsimp only
      split
      · simp
      · split
        · rw [List.forall_mem_cons]
          exact ⟨hname _, ih⟩
        · rw [List.forall_mem_singleton]
          exact hname _

/-- No name that the scan finds has a blank. -/
theorem StartTag.not_isBlank_of_scan {cs : List Char} :
    ∀ n ∈ (scan cs).names, ∀ c ∈ n, Text.isBlank c = false := by
  rw [StartTag.names, List.forall_mem_cons]
  refine ⟨fun c hc => ?_, not_isBlank_of_scanAttributes⟩
  have hnot := List.mem_takeWhile_imp hc
  simp only [endsName, Bool.not_or, Bool.and_eq_true, Bool.not_eq_true'] at hnot
  exact hnot.1.1

/-- The scan of a start tag finds the names that are written in it if and only if none of them has
    the one blank that names may have. -/
theorem StartTag.scan_eq_written_iff {t : SpelledTag} (h : t.IsValid) {mark : Char}
    (hmark : mark = '/' ∨ mark = '>') (rest : List Char) :
    scan ('<' :: t.spell ++ mark :: rest) = t.written
      ↔ ∀ n ∈ t.written.names, oghamSpace ∉ n := by
  constructor
  · intro heq n hn hmem
    rw [← heq] at hn
    exact absurd (not_isBlank_of_scan n hn oghamSpace hmem) (by decide)
  · intro hnot
    simp only [names, SpelledTag.written, List.forall_mem_cons, List.forall_mem_map] at hnot
    exact scan_spell h (h.name.isSolid_iff.2 hnot.1)
      (fun a ha => (h.attributes a ha).name.isSolid_iff.2 (hnot.2 a ha)) hmark rest

/-- The name of an element is found up to the first blank that names may have. -/
theorem StartTag.name_scan {t : SpelledTag} (h : t.IsValid) {mark : Char}
    (hmark : mark = '/' ∨ mark = '>') (rest : List Char) :
    (scan ('<' :: t.spell ++ mark :: rest)).name = t.name.spell.takeWhile (· ≠ oghamSpace) := by
  obtain ⟨c, cs, hafter, hc⟩ := exists_afterName h hmark rest
  have hshape : '<' :: t.spell ++ mark :: rest = '<' :: (t.name.spell ++ c :: cs) := by
    rw [← hafter]
    simp [SpelledTag.spell]
  have hends : ∀ d ∈ t.name.spell, (!endsName d) = decide (d ≠ oghamSpace) := by
    intro d hd
    have hslash : d ≠ '/' := fun heq => h.name.not_mem_spell (by decide) (by decide) (heq ▸ hd)
    have hclose : d ≠ '>' := fun heq => h.name.not_mem_spell (by decide) (by decide) (heq ▸ hd)
    by_cases hspace : d = oghamSpace
    · rw [hspace]
      rfl
    · have hblank : Text.isBlank d = false := by
        rw [← Bool.not_eq_true]
        exact fun hblank => hspace (eq_oghamSpace_of_isBlank (h.name.isNameChar_of_mem hd) hblank)
      simp [endsName, hslash, hclose, hblank, hspace]
  rw [hshape, scan]
  exact takeWhile_append_cons_of_eq hends (by simp [hc])

/-! ## Where start tags stand -/

/-- A start tag with the text that starts at its bracket. -/
structure PlacedTag where
  tag : SpelledTag
  source : List Char

/-- Whether a start tag that follows the grammar stands in a text, with what closes it. -/
structure PlacedTag.StandsIn (t : PlacedTag) (text : List Char) : Prop where
  isValid : t.tag.IsValid
  suffix : t.source <:+ text
  spell : ∃ mark rest, (mark = '/' ∨ mark = '>')
    ∧ t.source = '<' :: t.tag.spell ++ mark :: rest

theorem PlacedTag.StandsIn.trans {t : PlacedTag} {text more : List Char} (h : t.StandsIn text)
    (hmore : text <:+ more) : t.StandsIn more :=
  ⟨h.isValid, h.suffix.trans hmore, h.spell⟩

/-- A start tag that stands in some pieces stands in them with another one in front. -/
theorem PlacedTag.StandsIn.cons {t : PlacedTag} {ps : List Piece} {rest : List Char}
    (h : t.StandsIn (spellAll ps ++ rest)) (p : Piece) :
    t.StandsIn (spellAll (p :: ps) ++ rest) := by
  rw [spellAll, List.append_assoc]
  exact h.trans (List.suffix_append _ _)

/-- The start tags of some pieces in the order of the document, `rest` being spelled after them. -/
def Piece.tags : List Piece → List Char → List PlacedTag
  | [], _ => []
  | .chars _ :: ps, rest => tags ps rest
  | .section _ :: ps, rest => tags ps rest
  | .comment _ :: ps, rest => tags ps rest
  | .instruction _ :: ps, rest => tags ps rest
  | .empty tag :: ps, rest =>
    ⟨tag, '<' :: tag.spell ++ '/' :: '>' :: (spellAll ps ++ rest)⟩ :: tags ps rest
  | .element tag content closing space :: ps, rest =>
    let after := spellEndTag closing space ++ (spellAll ps ++ rest)
    ⟨tag, '<' :: tag.spell ++ '>' :: (spellAll content ++ after)⟩
      :: (tags content after ++ tags ps rest)

/-- The start tags of a document, in order. -/
def SpelledDocument.tags (d : SpelledDocument) : List PlacedTag :=
  Piece.tags [d.root] (spellAll d.after)

theorem Piece.standsIn_of_mem_tags : ∀ {ps : List Piece} {rest : List Char}, Piece.AreValid ps →
    ∀ t ∈ Piece.tags ps rest, t.StandsIn (spellAll ps ++ rest)
  | [], rest, _ => by simp [Piece.tags]
  | .chars cs :: ps, rest, h => by
    rw [Piece.AreValid] at h
    rw [Piece.tags]
    exact fun t ht => (standsIn_of_mem_tags h.2.1 t ht).cons _
  | .section cs :: ps, rest, h => by
    rw [Piece.AreValid] at h
    rw [Piece.tags]
    exact fun t ht => (standsIn_of_mem_tags h.2.1 t ht).cons _
  | .comment cs :: ps, rest, h => by
    rw [Piece.AreValid] at h
    rw [Piece.tags]
    exact fun t ht => (standsIn_of_mem_tags h.2.1 t ht).cons _
  | .instruction cs :: ps, rest, h => by
    rw [Piece.AreValid] at h
    rw [Piece.tags]
    exact fun t ht => (standsIn_of_mem_tags h.2.1 t ht).cons _
  | .empty tag :: ps, rest, h => by
    rw [Piece.AreValid, Piece.IsValid] at h
    have hspell : spellAll (.empty tag :: ps) ++ rest
        = '<' :: tag.spell ++ '/' :: '>' :: (spellAll ps ++ rest) := by
      rw [spellAll, Piece.spell]
      simp
    rw [Piece.tags, List.forall_mem_cons]
    refine ⟨⟨h.1, ?_, '/', _, .inl rfl, rfl⟩, fun t ht => ?_⟩
    · rw [hspell]
    · exact (standsIn_of_mem_tags h.2.1 t ht).cons _
  | .element tag content closing space :: ps, rest, h => by
    rw [Piece.AreValid, Piece.IsValid] at h
    obtain ⟨⟨htag, hcontent, -⟩, hps, -⟩ := h
    have hspell : spellAll (.element tag content closing space :: ps) ++ rest
        = '<' :: tag.spell ++ '>' :: (spellAll content
          ++ (spellEndTag closing space ++ (spellAll ps ++ rest))) := by
      rw [spellAll, Piece.spell]
      simp
    rw [Piece.tags, List.forall_mem_cons, List.forall_mem_append]
    refine ⟨⟨htag, ?_, '>', _, .inr rfl, rfl⟩, fun t ht => ?_, fun t ht => ?_⟩
    · rw [hspell]
    · rw [hspell]
      refine (standsIn_of_mem_tags hcontent t ht).trans ?_
      exact ⟨'<' :: tag.spell ++ ['>'], by simp⟩
    · exact (standsIn_of_mem_tags hps t ht).cons _

theorem SpelledDocument.IsValid.standsIn_of_mem_tags {d : SpelledDocument} (h : d.IsValid) :
    ∀ t ∈ d.tags, t.StandsIn d.spell := by
  have hroot : Piece.AreValid [d.root] := by
    rw [Piece.AreValid]
    exact ⟨h.root.1, trivial, fun _ => rfl⟩
  intro t ht
  refine (Piece.standsIn_of_mem_tags hroot t ht).trans ?_
  refine ⟨spellMark d.hasMark ++ (spellDeclaration d.declaration ++ spellAll d.before), ?_⟩
  simp [SpelledDocument.spell, SpelledDocument.spellBody, spellAll]

/-! ## Where elements start -/

mutual

/-- The texts that start at the start tags of a node's elements, in the order of the document. -/
def Node.sources : Node → List (List Char)
  | .text _ => []
  | .element source _ _ _ children => source :: sourcesAll children

/-- The texts that start at the start tags of some nodes' elements. -/
def sourcesAll : List Node → List (List Char)
  | [] => []
  | n :: ns => n.sources ++ sourcesAll ns

end

theorem sourcesAll_append (ns ms : List Node) :
    sourcesAll (ns ++ ms) = sourcesAll ns ++ sourcesAll ms := by
  induction ns with
  | nil => rfl
  | cons n ns ih => simp only [List.cons_append, sourcesAll, ih, List.append_assoc]

namespace OpenElement

/-- The texts that start at the elements among the children that an open element has so far. -/
def sources (e : OpenElement) : List (List Char) :=
  sourcesAll e.children.reverse

theorem sources_endRun (e : OpenElement) : e.endRun.sources = e.sources := by
  obtain ⟨source, name, attributes, scope, children, run⟩ := e
  cases run <;> simp [endRun, sources, sourcesAll_append, sourcesAll, Node.sources]

theorem sources_addNode (e : OpenElement) (n : Node) :
    (e.addNode n).sources = e.sources ++ n.sources := by
  have h : (e.addNode n).sources = e.endRun.sources ++ n.sources := by
    simp [addNode, sources, sourcesAll_append, sourcesAll]
  rw [h, sources_endRun]

theorem sources_close (e : OpenElement) : e.close.sources = e.source :: e.sources := by
  rw [close, Node.sources]
  exact congrArg (e.source :: ·) e.sources_endRun

end OpenElement

/-- An element that a start tag opens at `source` has no elements in it yet. -/
theorem SpelledTag.Opens.sources_eq {tag : SpelledTag} {outer : Scope} {source : List Char}
    {e : OpenElement} (h : tag.Opens outer source e) : e.sources = [] := by
  rw [OpenElement.sources, h.children]
  rfl

/-- What an element absorbs starts where the start tags in it do. -/
theorem sources_of_absorb : ∀ {ps : List Piece} {rest : List Char} {e e' : OpenElement},
    Piece.AreValid ps → e.absorb ps rest = .ok e' →
      e'.sources = e.sources ++ (Piece.tags ps rest).map (·.source)
  | [], rest, e, e', _, h => by
    rw [OpenElement.absorb] at h
    cases h
    simp [Piece.tags]
  | .chars cs :: ps, rest, e, e', hvalid, h => by
    rw [OpenElement.absorb] at h
    rw [Piece.AreValid] at hvalid
    rw [Piece.tags, sources_of_absorb hvalid.2.1 h]
    rfl
  | .section cs :: ps, rest, e, e', hvalid, h => by
    rw [OpenElement.absorb] at h
    rw [Piece.AreValid] at hvalid
    rw [Piece.tags, sources_of_absorb hvalid.2.1 h]
    rfl
  | .comment cs :: ps, rest, e, e', hvalid, h => by
    rw [OpenElement.absorb] at h
    rw [Piece.AreValid] at hvalid
    rw [Piece.tags, sources_of_absorb hvalid.2.1 h, OpenElement.sources_endRun]
  | .instruction cs :: ps, rest, e, e', hvalid, h => by
    rw [OpenElement.absorb] at h
    rw [Piece.AreValid] at hvalid
    rw [Piece.tags, sources_of_absorb hvalid.2.1 h, OpenElement.sources_endRun]
  | .empty tag :: ps, rest, e, e', hvalid, h => by
    rw [OpenElement.absorb] at h
    rw [Piece.AreValid, Piece.IsValid] at hvalid
    obtain ⟨child, hopen, hrest⟩ := exists_of_bind h
    have hopens := SpelledTag.opens_of_open? hopen
    rw [Piece.tags, sources_of_absorb hvalid.2.1 hrest, OpenElement.sources_addNode,
      OpenElement.sources_close, hopens.source, hopens.sources_eq]
    simp
  | .element tag content closing space :: ps, rest, e, e', hvalid, h => by
    rw [OpenElement.absorb] at h
    rw [Piece.AreValid, Piece.IsValid] at hvalid
    obtain ⟨child, hopen, hmore⟩ := exists_of_bind h
    obtain ⟨child', hcontent, hrest⟩ := exists_of_bind hmore
    have hopens := SpelledTag.opens_of_open? hopen
    have hchild := absorbs_of_absorb hvalid.1.2.1 hcontent
    rw [Piece.tags, sources_of_absorb hvalid.2.1 hrest, OpenElement.sources_addNode,
      OpenElement.sources_close, hchild.source, hopens.source,
      sources_of_absorb hvalid.1.2.1 hcontent, hopens.sources_eq]
    simp

/-- The elements of a document start where its start tags do. -/
theorem sources_of_openRoot {p : Piece} {after : List Char} {e : OpenElement} (hvalid : p.IsValid)
    (h : openRoot p after = .ok e) :
    e.close.sources = (Piece.tags [p] after).map (·.source) := by
  cases p with
  | empty tag =>
    have hopens := SpelledTag.opens_of_open? h
    rw [OpenElement.sources_close, hopens.source, hopens.sources_eq]
    simp [Piece.tags, spellAll]
  | element tag content closing space =>
    rw [Piece.IsValid] at hvalid
    obtain ⟨child, hopen, habsorb⟩ := exists_of_bind h
    have hopens := SpelledTag.opens_of_open? hopen
    rw [OpenElement.sources_close, (absorbs_of_absorb hvalid.2.1 habsorb).source, hopens.source,
      sources_of_absorb hvalid.2.1 habsorb, hopens.sources_eq]
    simp [Piece.tags, spellAll]
  | _ => cases h

/-- Whatever document spells a text that is read, the elements that are read start at its start
    tags, one for one and in order. -/
theorem sources_of_parse {text : String} {root : Node} (h : parse text = .ok root)
    {d : SpelledDocument} (hvalid : d.IsValid) (hspell : d.spell = text.toList) :
    root.sources = d.tags.map (·.source) := by
  obtain ⟨e, hopen, rfl⟩ := SpelledDocument.openRoot_of_parse hvalid hspell.symm h
  exact sources_of_openRoot hvalid.root.1 hopen

/-! ## The scans of a document -/

/-- A text that is read is a spelled document. Whatever document spells it, the elements that are
    read start at its start tags, one for one and in order, and the scan of each finds the names
    that are written in its tag if and only if none of them has the one blank that names may
    have. The name of the element itself is found up to that blank. -/
theorem scan_sources {text : String} {root : Node} (h : parse text = .ok root) :
    (∃ d : SpelledDocument, d.IsValid ∧ d.spell = text.toList)
      ∧ ∀ d : SpelledDocument, d.IsValid → d.spell = text.toList →
        root.sources = d.tags.map (·.source)
          ∧ ∀ t ∈ d.tags, t.StandsIn text.toList ∧ (∀ n ∈ t.tag.written.names, IsName n)
            ∧ (StartTag.scan t.source).name = t.tag.name.spell.takeWhile (· ≠ oghamSpace)
            ∧ (StartTag.scan t.source = t.tag.written
              ↔ ∀ n ∈ t.tag.written.names, oghamSpace ∉ n) := by
  refine ⟨SpelledDocument.exists_of_parse h, fun d hvalid hspell => ?_⟩
  refine ⟨sources_of_parse h hvalid hspell, fun t ht => ?_⟩
  have hstands := hvalid.standsIn_of_mem_tags t ht
  obtain ⟨mark, rest, hmark, hsource⟩ := hstands.spell
  rw [hspell] at hstands
  refine ⟨hstands, hstands.isValid.isName_of_mem, ?_, ?_⟩
  · rw [hsource]
    exact StartTag.name_scan hstands.isValid hmark rest
  · rw [hsource]
    exact StartTag.scan_eq_written_iff hstands.isValid hmark rest

/-- A document with the blank in the name of an attribute and in that of an element. -/
def spaced : SpelledDocument where
  hasMark := false
  declaration := none
  before := []
  root := .element
    ⟨⟨"", "p", false⟩,
      [⟨[' '], ⟨"", "x\u1680y", false⟩, [], [], '"', ['1']⟩,
        ⟨[' '], ⟨"", "z", false⟩, [], [], '"', ['2']⟩], []⟩
    [.empty ⟨⟨"", "b\u1680", false⟩, [], []⟩, .empty ⟨⟨"", "c", false⟩, [], []⟩]
    ⟨"", "p", false⟩ []
  after := []

theorem spaced_isValid : spaced.IsValid := by
  have hname : ∀ localName : String, IsPartName localName.toList →
      WrittenName.IsValid ⟨"", localName, false⟩ :=
    fun _ h => ⟨h, fun hq => absurd rfl hq⟩
  have hp := hname "p" ⟨by simp, rfl, forall_of_all rfl⟩
  have hb := hname "b\u1680" ⟨by simp, rfl, forall_of_all rfl⟩
  have hc := hname "c" ⟨by simp, rfl, forall_of_all rfl⟩
  have hx := hname "x\u1680y" ⟨by simp, rfl, forall_of_all rfl⟩
  have hz := hname "z" ⟨by simp, rfl, forall_of_all rfl⟩
  have hfirst : SpelledAttribute.IsValid
      ⟨[' '], ⟨"", "x\u1680y", false⟩, [], [], '"', ['1']⟩ :=
    ⟨by simp, forall_of_all rfl, hx, forall_of_all rfl, forall_of_all rfl, .inl rfl,
      forall_of_all rfl, _, rfl⟩
  have hsecond : SpelledAttribute.IsValid ⟨[' '], ⟨"", "z", false⟩, [], [], '"', ['2']⟩ :=
    ⟨by simp, forall_of_all rfl, hz, forall_of_all rfl, forall_of_all rfl, .inl rfl,
      forall_of_all rfl, _, rfl⟩
  refine ⟨by simp [spaced], ⟨trivial, by simp [spaced]⟩, ⟨?_, rfl⟩, ⟨trivial, by simp [spaced]⟩⟩
  rw [spaced, Piece.IsValid]
  refine ⟨⟨hp, by simpa using ⟨hfirst, hsecond⟩, by simp⟩, ?_, ⟨hp, rfl, rfl, by simp⟩⟩
  simpa [Piece.AreValid, Piece.IsValid, Piece.isChars] using
    ⟨⟨hb, by simp, by simp⟩, ⟨hc, by simp, by simp⟩⟩

theorem scan_sources_spaced : spaced.IsValid
    ∧ ∃ root, parse (String.ofList spaced.spell) = .ok root
      ∧ root.sources = spaced.tags.map (·.source)
      ∧ ∀ t ∈ spaced.tags,
        (StartTag.scan t.source).name = t.tag.name.spell.takeWhile (· ≠ oghamSpace)
        ∧ (StartTag.scan t.source = t.tag.written
          ↔ ∀ n ∈ t.tag.written.names, oghamSpace ∉ n) := by
  obtain ⟨root, hroot⟩ : ∃ root, parse (String.ofList spaced.spell) = .ok root := ⟨_, rfl⟩
  have hscan := (scan_sources hroot).2 spaced spaced_isValid String.toList_ofList.symm
  exact ⟨spaced_isValid, root, hroot, hscan.1, fun t ht => (hscan.2 t ht).2.2⟩

/-- The scans of its elements cut two names and miss one. -/
theorem scan_spaced : String.ofList spaced.spell = "<p x\u1680y=\"1\" z=\"2\"><b\u1680/><c/></p>"
    ∧ ∃ root, parse (String.ofList spaced.spell) = .ok root
      ∧ spaced.tags.map (·.tag.written)
        = [⟨['p'], ["x\u1680y".toList, ['z']]⟩, ⟨"b\u1680".toList, []⟩, ⟨['c'], []⟩]
      ∧ root.sources.map StartTag.scan = [⟨['p'], [['x']]⟩, ⟨['b'], []⟩, ⟨['c'], []⟩] := by
  obtain ⟨root, hroot⟩ : ∃ root, parse (String.ofList spaced.spell) = .ok root := ⟨_, rfl⟩
  have hsources := sources_of_parse hroot spaced_isValid String.toList_ofList.symm
  rw [SpelledDocument.tags, spaced] at hsources
  refine ⟨rfl, root, hroot, ?_, ?_⟩
  · rw [SpelledDocument.tags, spaced]
    simp only [Piece.tags]
    rfl
  · rw [hsources]
    simp only [Piece.tags]
    rfl

end ScriptedViews.Xml

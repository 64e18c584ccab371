import ScriptedViews.Proofs.Code.Reading
import ScriptedViews.Proofs.Document.AsWritten
import ScriptedViews.Proofs.Document.Markup

set_option autoImplicit false

/-! # Markup and back

The text that a view of markup prints is read as that view again, but for the white space that is
taken out of its texts. The text is spelled here as a document, which is where the code and the
reader meet. -/

namespace ScriptedViews

open Code (HasExpression)
open Script (utf8)
open Xml (WrittenName SpelledAttribute SpelledTag SpelledDocument Piece OpenElement isXmlChar)

/-! ## Characters that stand for themselves -/

namespace Xml

theorem normalizeValue_of_not_mem {cs : List Char}
    (h : ∀ c ∈ cs, c ∉ ['&', '\t', '\n', '\r']) :
    normalizeValue cs.length cs = .ok cs := by
  induction cs with
  | nil => rfl
  | cons c cs ih =>
    obtain ⟨hc, hcs⟩ := List.forall_mem_cons.1 h
    simp only [List.mem_cons, List.not_mem_nil, or_false, not_or] at hc
    obtain ⟨hand, htab, hfeed, hreturn⟩ := hc
    have hmore := ih hcs
    rw [List.length_cons, normalizeValue, if_neg hand, if_neg (fun heq => hreturn heq.1), hmore]
    simp only [bind, Except.bind, pure, Except.pure, hfeed, hreturn, htab, or_self, if_false]

theorem pushLiteral_of_ne {buffer : List Char} {c : Char} (hc : c ≠ '\r') (hbuffer : '\r' ∉ buffer)
    (last : Bool) : normalizeText.pushLiteral buffer c last = c :: buffer := by
  cases buffer with
  | nil => simp [normalizeText.pushLiteral, hc]
  | cons d buffer =>
    have hd : d ≠ '\r' := fun heq => hbuffer (heq ▸ List.mem_cons_self)
    unfold normalizeText.pushLiteral
    split
    · rename_i heq
      exact absurd (List.cons.inj heq).1 hd
    · simp [hc, hd]

theorem normalizeText_of_not_mem {cs : List Char} (h : ∀ c ∈ cs, c ∉ ['&', '\r'])
    {buffer : List Char} (hbuffer : '\r' ∉ buffer) :
    normalizeText cs.length false buffer cs = .ok (buffer.reverse ++ cs) := by
  induction cs generalizing buffer with
  | nil => simp [normalizeText]
  | cons c cs ih =>
    obtain ⟨hc, hcs⟩ := List.forall_mem_cons.1 h
    simp only [List.mem_cons, List.not_mem_nil, or_false, not_or] at hc
    obtain ⟨hand, hreturn⟩ := hc
    rw [List.length_cons, normalizeText, if_neg hand, if_neg Bool.false_ne_true,
      pushLiteral_of_ne hreturn hbuffer, ih hcs]
    · simp
    · simpa using ⟨fun heq => hreturn heq.symm, hbuffer⟩

end Xml

/-! ## Markup as a document -/

/-- The name as it is written. -/
def QName.spelled (n : QName) : WrittenName :=
  ⟨"", n.localName, false⟩

/-- The attribute as it is written. -/
def Attribute.spelled (a : Attribute) : SpelledAttribute :=
  ⟨[' '], a.name.spelled, [], [], '"', a.value.toList⟩

/-- The start of a tag as it is written. -/
def spelledTag (name : QName) (attributes : List Attribute) : SpelledTag :=
  ⟨name.spelled, attributes.map Attribute.spelled, []⟩

mutual

/-- The node as it is written. -/
def Node.spelled : Node → Piece
  | .text content => .chars (Text.minify content).toList
  | .element name attributes children =>
    if children.isEmpty then .empty (spelledTag name attributes)
    else .element (spelledTag name attributes) (Node.spelledAll children) name.spelled []

/-- The nodes as they are written. -/
def Node.spelledAll : List Node → List Piece
  | [] => []
  | n :: ns => n.spelled :: Node.spelledAll ns

end

/-- The document whose root is written so. -/
def Element.spelled (e : Element) : SpelledDocument :=
  ⟨false, none, [], e.toNode.spelled, []⟩

namespace QName.IsUnprefixed

variable {n : QName} (h : n.IsUnprefixed)

include h

theorem isValid : n.spelled.IsValid :=
  ⟨h.localName, fun hq => absurd rfl hq⟩

theorem render_eq : n.render = n.localName := by
  rw [render, h.qualifier]

theorem toQName_spelled : n.spelled.toQName = n := by
  rw [h.isValid.toQName_eq]
  obtain ⟨qualifier, localName⟩ := n
  have hq : qualifier = none := h.qualifier
  rw [hq]
  rfl

end QName.IsUnprefixed

namespace Attribute.IsMarkup

variable {a : Attribute} (h : a.IsMarkup)

include h

theorem value?_spelled : a.spelled.value? = .ok a.value.toList := by
  refine Xml.normalizeValue_of_not_mem fun c hc hmem => (h.value c hc).2 ?_
  simp only [List.mem_cons, List.not_mem_nil, or_false] at hmem ⊢
  tauto

theorem isValid : a.spelled.IsValid := by
  refine ⟨by simp [Attribute.spelled], by simp [Attribute.spelled, Xml.isSpace], h.name.isValid,
    by simp [Attribute.spelled], by simp [Attribute.spelled], .inl rfl, fun c hc => ?_,
    _, h.value?_spelled⟩
  obtain ⟨hchar, hnot⟩ := h.value c hc
  simp only [List.mem_cons, List.not_mem_nil, or_false, not_or] at hnot
  exact ⟨hchar, hnot.2.2.1, hnot.1⟩

theorem toAttribute_spelled : a.spelled.toAttribute = a := by
  have hvalue : a.spelled.value = a.value := by
    rw [SpelledAttribute.value, h.value?_spelled]
    exact String.ofList_toList
  rw [SpelledAttribute.toAttribute, hvalue]
  obtain ⟨name, value⟩ := a
  exact congrArg (Attribute.mk · value) h.name.toQName_spelled

end Attribute.IsMarkup

theorem spell_spelledTag {name : QName} {attributes : List Attribute} (hname : name.IsUnprefixed)
    (h : ∀ a ∈ attributes, a.IsMarkup) :
    '<' :: (spelledTag name attributes).spell
      = (Expansion.startText name.render attributes).toList := by
  have hattributes : (attributes.map Attribute.spelled).flatMap SpelledAttribute.spell
      = (Expansion.attributesText attributes).toList := by
    induction attributes with
    | nil => rfl
    | cons a rest ih =>
      obtain ⟨ha, hrest⟩ := List.forall_mem_cons.1 h
      rw [List.map_cons, List.flatMap_cons, ih hrest, Expansion.attributesText, ha.name.render_eq]
      simp [SpelledAttribute.spell, Attribute.spelled, QName.spelled, WrittenName.spell]
  rw [SpelledTag.spell, spelledTag, hattributes, Expansion.startText, hname.render_eq]
  simp [QName.spelled, WrittenName.spell]

mutual

/-- The text of markup is what its document spells. -/
theorem spell_spelled (n : Node) (h : n.IsMarkup) : n.spelled.spell = n.markup.toList := by
  cases n with
  | text content =>
    rw [Node.spelled, Piece.spell, Node.markup]
  | element name attributes children =>
    rw [Node.IsMarkup] at h
    have hstart := spell_spelledTag h.1 h.2.1
    rw [Node.spelled, Node.markup]
    by_cases hchildren : children.isEmpty
    · rw [if_pos hchildren, if_pos hchildren, Piece.spell, hstart, String.toList_append]
      rfl
    · rw [if_neg hchildren, if_neg hchildren, Piece.spell, hstart,
        spellAll_spelledAll children h.2.2.2, h.1.render_eq]
      simp [Piece.spellEndTag, QName.spelled, WrittenName.spell]

theorem spellAll_spelledAll (ns : List Node) (h : Node.AreMarkup ns) :
    Piece.spellAll (Node.spelledAll ns) = (Node.markupAll ns).toList := by
  cases ns with
  | nil => rfl
  | cons n ns =>
    rw [Node.AreMarkup] at h
    rw [Node.spelledAll, Piece.spellAll, Node.markupAll, spell_spelled n h.1,
      spellAll_spelledAll ns h.2.1, String.toList_append]

end

/-! ## The document is well formed -/

theorem spelledTag_isValid {name : QName} {attributes : List Attribute} (hname : name.IsUnprefixed)
    (h : ∀ a ∈ attributes, a.IsMarkup) : (spelledTag name attributes).IsValid := by
  refine ⟨hname.isValid, ?_, by simp [spelledTag]⟩
  intro a ha
  obtain ⟨b, hb, rfl⟩ := List.mem_map.1 ha
  exact (h b hb).isValid

theorem spelledTag_isPlain {name : QName} {attributes : List Attribute} (hname : name.IsUnprefixed)
    (h : ∀ a ∈ attributes, a.IsMarkup) : (spelledTag name attributes).IsPlain := by
  have hspelled : ∀ a ∈ (spelledTag name attributes).attributes,
      ∃ b ∈ attributes, b.IsMarkup ∧ a.name.spell = b.name.localName.toList
        ∧ a.name.hasColon = false := by
    intro a ha
    obtain ⟨b, hb, rfl⟩ := List.mem_map.1 ha
    exact ⟨b, hb, h b hb, rfl, rfl⟩
  refine ⟨hname.solid, fun a ha => ?_, ?_, fun a ha => ?_, fun a ha _ => ?_⟩
  · obtain ⟨b, -, hb, hspell, -⟩ := hspelled a ha
    rw [WrittenName.IsSolid, hspell]
    exact hb.name.solid
  · rw [List.count_eq_zero_of_not_mem]
    · exact Nat.zero_le 1
    · intro hmem
      obtain ⟨a, ha, hspell⟩ := List.mem_map.1 hmem
      obtain ⟨b, -, hb, hspell', -⟩ := hspelled a ha
      rw [hspell'] at hspell
      exact hb.notXmlns (String.toList_injective hspell)
  · obtain ⟨b, -, hb, hspell, -⟩ := hspelled a ha
    rw [hspell]
    intro heq
    have hcolon : ':' ∉ b.name.localName.toList := hb.name.localName.not_mem (by decide)
    rw [heq] at hcolon
    exact hcolon (by decide)
  · obtain ⟨b, -, -, -, hcolon⟩ := hspelled a ha
    exact hcolon

namespace IsMarkupText

variable {content : String} (h : IsMarkupText content)

include h

theorem mem_minify {c : Char} (hc : c ∈ (Text.minify content).toList) :
    isXmlChar c ∧ c ∉ ['<', '&', '\r'] := by
  by_cases hfeed : c = '\n'
  · rw [hfeed]
    exact ⟨by decide, by decide⟩
  · have hreturn : '\r' ∉ content.toList := Code.not_mem_of_isMarkupText h (by simp)
    exact h.chars c ((Text.within_minify hreturn).mem hfeed hc)

theorem normalized?_minify : Piece.normalized? (Text.minify content).toList
    = .ok (Text.minify content).toList := by
  have hnot : ∀ c ∈ (Text.minify content).toList, c ∉ ['&', '\r'] := by
    intro c hc hmem
    exact (h.mem_minify hc).2 (List.mem_cons_of_mem _ hmem)
  have hall := Xml.normalizeText_of_not_mem hnot List.not_mem_nil
  rw [List.reverse_nil, List.nil_append] at hall
  exact hall

theorem isCharData : Piece.IsCharData (Text.minify content).toList := by
  have hreturn : '\r' ∉ content.toList := Code.not_mem_of_isMarkupText h (by simp)
  refine ⟨fun hnil => ?_, fun c hc => ?_, fun hin => ?_, _, h.normalized?_minify⟩
  · have hblank := Text.isBlankText_minify h.blank
    rw [Text.isBlankText, hnil] at hblank
    cases hblank
  · obtain ⟨hchar, hnot⟩ := h.mem_minify hc
    simp only [List.mem_cons, List.not_mem_nil, or_false, not_or] at hnot
    exact ⟨hchar, hnot.1⟩
  · exact h.open' ((Text.within_minify hreturn).word _ (by simp) (by decide) hin)

end IsMarkupText

theorem head?_spelledAll {ns : List Node} (h : ns.head?.any Node.isText = false) :
    (Node.spelledAll ns).head?.any Piece.isChars = false := by
  cases ns with
  | nil => rfl
  | cons n ns =>
    cases n with
    | text content => cases h
    | element name attributes children =>
      rw [Node.spelledAll, Node.spelled]
      split <;> rfl

mutual

theorem spelled_isValid (n : Node) (h : n.IsMarkup) : n.spelled.IsValid ∧ n.spelled.IsPlain := by
  cases n with
  | text content =>
    rw [Node.IsMarkup] at h
    rw [Node.spelled, Piece.IsValid, Piece.IsPlain]
    · exact ⟨h.isCharData, trivial⟩
    · simp
    · simp
  | element name attributes children =>
    rw [Node.IsMarkup] at h
    have hvalid := spelledTag_isValid h.1 h.2.1
    have hplain := spelledTag_isPlain h.1 h.2.1
    obtain ⟨hcontent, hcontent'⟩ := spelledAll_areValid children h.2.2.2
    rw [Node.spelled]
    split
    · rw [Piece.IsValid, Piece.IsPlain]
      exact ⟨hvalid, hplain⟩
    · rw [Piece.IsValid, Piece.IsPlain]
      exact ⟨⟨hvalid, hcontent, ⟨h.1.isValid, rfl, rfl, by simp⟩⟩, hplain, hcontent'⟩

theorem spelledAll_areValid (ns : List Node) (h : Node.AreMarkup ns) :
    Piece.AreValid (Node.spelledAll ns) ∧ Piece.ArePlain (Node.spelledAll ns) := by
  cases ns with
  | nil => exact ⟨trivial, trivial⟩
  | cons n ns =>
    rw [Node.AreMarkup] at h
    obtain ⟨hfirst, hfirst'⟩ := spelled_isValid n h.1
    obtain ⟨hrest, hrest'⟩ := spelledAll_areValid ns h.2.1
    rw [Node.spelledAll, Piece.AreValid, Piece.ArePlain]
    refine ⟨⟨hfirst, hrest, fun hchars => head?_spelledAll (h.2.2 ?_)⟩, hfirst', hrest'⟩
    cases n with
    | text content => rfl
    | element name attributes children =>
      rw [Node.spelled] at hchars
      split at hchars <;> cases hchars

end

/-! ## The tree of the document -/

theorem spelledTag_toQName {name : QName} (attributes : List Attribute)
    (hname : name.IsUnprefixed) : (spelledTag name attributes).name.toQName = name :=
  hname.toQName_spelled

theorem spelledTag_toAttributes (name : QName) {attributes : List Attribute}
    (h : ∀ a ∈ attributes, a.IsMarkup) :
    (spelledTag name attributes).attributes.map (·.toAttribute) = attributes := by
  rw [spelledTag, List.map_map]
  exact (List.map_congr_left fun a ha => (h a ha).toAttribute_spelled).trans (List.map_id _)

/-- The nodes of markup that is written, after a text that does not touch it. -/
theorem nodesAfter_spelledAll : ∀ (ns : List Node), Node.AreMarkup ns →
    ∀ text : Option (List Char), (text = none ∨ ns.head?.any Node.isText = false) →
    Piece.nodesAfter text (Node.spelledAll ns) = Piece.textNodes text ++ Node.minifiedAll ns
  | [], _, text, _ => by
    rw [Node.spelledAll, Piece.nodesAfter, Node.minifiedAll, List.append_nil]
  | .text content :: ns, h, text, htext => by
    rw [Node.AreMarkup, Node.IsMarkup] at h
    have hnone : text = none := htext.resolve_right (by simp [Node.isText])
    have hrest := nodesAfter_spelledAll ns h.2.1 (some (Text.minify content).toList)
      (.inr (h.2.2 rfl))
    have hblank := Text.isBlankText_minify h.1.blank
    rw [Node.spelledAll, Node.spelled, Piece.nodesAfter, h.1.normalized?_minify, hnone]
    have hjoin : ∀ cs : List Char, Piece.joinText none
        ((Except.ok cs : Except Xml.XmlError (List Char)).toOption.getD []) = some cs := fun _ => rfl
    have hnil : Piece.textNodes none = [] := rfl
    rw [hjoin, hrest, hnil, List.nil_append, Piece.textNodes, String.ofList_toList, hblank,
      if_neg Bool.false_ne_true, Node.minifiedAll, Node.minified, List.singleton_append]
  | .element name attributes children :: ns, h, text, _ => by
    rw [Node.AreMarkup, Node.IsMarkup] at h
    obtain ⟨⟨hname, hattributes, -, hchildren⟩, hns, -⟩ := h
    have hrest := nodesAfter_spelledAll ns hns none (.inl rfl)
    have hcontent := nodesAfter_spelledAll children hchildren none (.inl rfl)
    have hnone : Piece.textNodes none = [] := rfl
    rw [hnone, List.nil_append] at hrest hcontent
    rw [Node.spelledAll, Node.spelled, Node.minifiedAll, Node.minified]
    split
    · rename_i hempty
      have hnil : Node.minifiedAll children = [] := by
        rw [List.isEmpty_iff.1 hempty, Node.minifiedAll]
      rw [Piece.nodesAfter, hrest, spelledTag_toQName _ hname, spelledTag_toAttributes _ hattributes,
        hnil]
    · rw [Piece.nodesAfter, hrest, hcontent, spelledTag_toQName _ hname,
        spelledTag_toAttributes _ hattributes]

/-! ## The document is read -/

section Reading

open Xml (TagContent PlainAttribute Scope checkAttributes)

/-- The attribute as the reader keeps it. -/
def Attribute.kept (a : Attribute) : PlainAttribute :=
  ⟨a.name.spelled, a.value⟩

theorem addAll_spelled {attributes : List Attribute} (h : ∀ a ∈ attributes, a.IsMarkup)
    (t : TagContent) : t.addAll (attributes.map Attribute.spelled)
      = .ok { t with attributes := t.attributes ++ attributes.map Attribute.kept } := by
  induction attributes generalizing t with
  | nil => simp [TagContent.addAll, pure, Except.pure]
  | cons a rest ih =>
    obtain ⟨ha, hrest⟩ := List.forall_mem_cons.1 h
    have hvalue : Xml.normalizeValue a.value.toList.length a.value.toList = .ok a.value.toList :=
      ha.value?_spelled
    have hadd : t.add a.spelled.toRaw
        = .ok { t with attributes := t.attributes ++ [a.kept] } := by
      have hxmlns : "" ≠ "xmlns" := by decide
      simp only [TagContent.add, SpelledAttribute.toRaw, Attribute.spelled, hvalue, bind, Except.bind,
        QName.spelled, hxmlns, ha.notXmlns, if_false, String.ofList_toList, Attribute.kept]
    have hmore := ih hrest { t with attributes := t.attributes ++ [a.kept] }
    rw [TagContent.addAll] at hmore
    rw [List.map_cons, TagContent.addAll, List.foldlM_cons, hadd]
    simp only [bind, Except.bind]
    rw [hmore, List.map_cons, List.append_assoc]
    rfl

theorem checkAttributes_kept {attributes : List Attribute} (h : ∀ a ∈ attributes, a.IsMarkup)
    (hnodup : (attributes.map (·.name)).Nodup) (scope : Scope)
    (seen : List (Option String × String))
    (hseen : ∀ a ∈ attributes, (none, a.name.localName) ∉ seen) :
    checkAttributes scope seen (attributes.map Attribute.kept) = .ok () := by
  induction attributes generalizing seen with
  | nil => rfl
  | cons a rest ih =>
    obtain ⟨ha, hrest⟩ := List.forall_mem_cons.1 h
    obtain ⟨hfresh, hseen⟩ := List.forall_mem_cons.1 hseen
    rw [List.map_cons, List.nodup_cons] at hnodup
    have hxml : "" ≠ "xml" := by decide
    have hmore := ih hrest hnodup.2 ((none, a.name.localName) :: seen) (by
      intro b hb hmem
      rcases List.mem_cons.1 hmem with heq | hmem
      · -- two names without prefixes are the same if their local parts are
        have hsame : b.name = a.name := by
          have hb' := (hrest b hb).name.qualifier
          have ha' := ha.name.qualifier
          have hlocal : b.name.localName = a.name.localName := (Prod.mk.inj heq).2
          generalize b.name = n at hb' hlocal ⊢
          generalize a.name = m at ha' hlocal ⊢
          cases n
          cases m
          simp_all
        exact hnodup.1 (hsame ▸ List.mem_map_of_mem hb)
      · exact hseen b hb hmem)
    have hnot : seen.contains (none, a.name.localName) = false := by
      simpa using hfresh
    rw [List.map_cons, checkAttributes]
    simp only [Attribute.kept, QName.spelled, hxml, if_false, Xml.namespaceOf, if_true, bind,
      Except.bind, hnot, Bool.false_eq_true]
    exact hmore

theorem exists_open (name : QName) {attributes : List Attribute} (h : ∀ a ∈ attributes, a.IsMarkup)
    (hnodup : (attributes.map (·.name)).Nodup) (outer : Scope) (source : List Char) :
    ∃ e, (spelledTag name attributes).open? outer source = .ok e := by
  have hxmlns : "" ≠ "xmlns" := by decide
  have hcheck := fun scope => checkAttributes_kept h hnodup scope [] (by simp)
  rw [SpelledTag.open?, spelledTag]
  simp only [QName.spelled, hxmlns, if_false, addAll_spelled h, bind, Except.bind, List.nil_append,
    hcheck, Xml.namespaceOf, if_true]
  exact ⟨_, rfl⟩

/-- Nothing in markup that is written keeps an element from absorbing it. -/
theorem exists_absorb : ∀ (ns : List Node), Node.AreMarkup ns → ∀ (rest : List Char)
    (e : OpenElement), ∃ e', e.absorb (Node.spelledAll ns) rest = .ok e'
  | [], _, rest, e => ⟨e, by rw [Node.spelledAll, OpenElement.absorb]⟩
  | .text content :: ns, h, rest, e => by
    rw [Node.AreMarkup] at h
    rw [Node.spelledAll, Node.spelled, OpenElement.absorb]
    exact exists_absorb ns h.2.1 rest _
  | .element name attributes children :: ns, h, rest, e => by
    rw [Node.AreMarkup, Node.IsMarkup] at h
    obtain ⟨⟨-, hattributes, hnodup, hchildren⟩, hns, -⟩ := h
    rw [Node.spelledAll, Node.spelled]
    split
    · rw [OpenElement.absorb]
      obtain ⟨child, hchild⟩ := exists_open name hattributes hnodup e.scope _
      rw [hchild]
      exact exists_absorb ns hns rest _
    · rw [OpenElement.absorb]
      obtain ⟨child, hchild⟩ := exists_open name hattributes hnodup e.scope _
      rw [hchild]
      obtain ⟨child', hchild'⟩ := exists_absorb children hchildren _ child
      simp only [bind, Except.bind]
      rw [hchild']
      exact exists_absorb ns hns rest _

end Reading

/-! ## The round trip -/

theorem IsMarkupText.minified {content : String} (h : IsMarkupText content) :
    IsMarkupText (Text.minify content) := by
  have hreturn : '\r' ∉ content.toList := Code.not_mem_of_isMarkupText h (by simp)
  have hwithin := Text.within_minify hreturn
  exact ⟨Text.isBlankText_minify h.blank, fun c hc => h.mem_minify hc,
    fun hin => h.open' (hwithin.word _ (by simp) (by decide) hin),
    fun hexpression => h.plain (hwithin.expression hexpression)⟩

theorem head?_minifiedAll (ns : List Node) :
    (Node.minifiedAll ns).head?.any Node.isText = ns.head?.any Node.isText := by
  cases ns with
  | nil => rfl
  | cons n ns => cases n <;> rfl

mutual

/-- Markup stays markup with its texts minified, and prints the same. -/
theorem minified_isMarkup (n : Node) (h : n.IsMarkup) :
    n.minified.IsMarkup ∧ n.minified.markup = n.markup := by
  cases n with
  | text content =>
    rw [Node.IsMarkup] at h
    rw [Node.minified, Node.IsMarkup, Node.markup, Node.markup]
    exact ⟨h.minified, Text.minify_minify content⟩
  | element name attributes children =>
    rw [Node.IsMarkup] at h
    obtain ⟨hcontent, hsame⟩ := minifiedAll_areMarkup children h.2.2.2
    have hempty : (Node.minifiedAll children).isEmpty = children.isEmpty := by
      cases children <;> rfl
    rw [Node.minified, Node.IsMarkup, Node.markup, Node.markup, hsame, hempty]
    exact ⟨⟨h.1, h.2.1, h.2.2.1, hcontent⟩, rfl⟩

theorem minifiedAll_areMarkup (ns : List Node) (h : Node.AreMarkup ns) :
    Node.AreMarkup (Node.minifiedAll ns)
      ∧ Node.markupAll (Node.minifiedAll ns) = Node.markupAll ns := by
  cases ns with
  | nil => exact ⟨trivial, rfl⟩
  | cons n ns =>
    rw [Node.AreMarkup] at h
    obtain ⟨hfirst, hfirst'⟩ := minified_isMarkup n h.1
    obtain ⟨hrest, hrest'⟩ := minifiedAll_areMarkup ns h.2.1
    rw [Node.minifiedAll, Node.AreMarkup, Node.markupAll, Node.markupAll, hfirst', hrest',
      head?_minifiedAll]
    refine ⟨⟨hfirst, hrest, fun htext => h.2.2 ?_⟩, rfl⟩
    cases n with
    | text content => rfl
    | element name attributes children => cases htext

end

namespace Element

theorem markup_ne (e : Element) : e.toNode.markup ≠ "" := by
  rw [Element.toNode, Node.markup, Expansion.startText]
  intro hempty
  have hlist := congrArg String.toList hempty
  simp at hlist

variable {e : Element} (h : e.toNode.IsMarkup)

include h

theorem spelled_isValid : e.spelled.IsValid := by
  refine ⟨by simp [Element.spelled], ⟨trivial, by simp [Element.spelled]⟩,
    ⟨(ScriptedViews.spelled_isValid _ h).1, ?_⟩, ⟨trivial, by simp [Element.spelled]⟩⟩
  rw [Element.spelled, Element.toNode, Node.spelled]
  split <;> rfl

theorem spell_spelled : e.spelled.spell = e.toNode.markup.toList := by
  have hroot := ScriptedViews.spell_spelled _ h
  rw [SpelledDocument.spell, SpelledDocument.spellBody, Element.spelled, hroot]
  have hnone : SpelledDocument.spellMark false = [] := rfl
  have hplain : SpelledDocument.spellDeclaration none = [] := rfl
  rw [hnone, hplain, Piece.spellAll, List.append_nil]
  rfl

/-- The text of markup is read, whatever is in it. -/
theorem exists_parse_markup : ∃ root, Xml.parse e.toNode.markup = .ok root := by
  have hparse := SpelledDocument.parse_eq_openRoot (spelled_isValid h) rfl (spell_spelled h).symm
  have hopen : ∃ root, Xml.openRoot e.spelled.root (Piece.spellAll e.spelled.after) = .ok root := by
    have hmarkup := h
    rw [Element.toNode, Node.IsMarkup] at hmarkup
    obtain ⟨-, hattributes, hnodup, hchildren⟩ := hmarkup
    rw [Element.spelled, Element.toNode, Node.spelled]
    split
    · exact exists_open e.name hattributes hnodup [] _
    · rw [Xml.openRoot]
      obtain ⟨child, hchild⟩ := exists_open e.name hattributes hnodup [] _
      rw [hchild]
      exact exists_absorb e.children hchildren _ child
  obtain ⟨root, hroot⟩ := hopen
  rw [hparse, hroot]
  exact ⟨_, rfl⟩

/-- The text of markup is read as the markup, with its texts minified. -/
theorem parse_markup : Document.parse e.toNode.markup = .ok e.minified := by
  obtain ⟨root, hroot⟩ := exists_parse_markup h
  have hvalid := spelled_isValid h
  obtain ⟨element, hopen, rfl⟩ :=
    SpelledDocument.openRoot_of_parse hvalid (spell_spelled h).symm hroot
  have hconvert := Xml.convert_of_openRoot hvalid.root.1 (ScriptedViews.spelled_isValid _ h).2 hopen
  have hnodes : Piece.nodes [e.spelled.root] = [e.toNode.minified] := by
    have hall := nodesAfter_spelledAll [e.toNode] ⟨h, trivial, fun _ => rfl⟩ none (.inl rfl)
    exact hall
  rw [hnodes] at hconvert
  have hsame := Document.toNode_convertRoot.trans hconvert
  rw [← Element.toNode_minified, List.singleton_inj] at hsame
  have hroot' : Document.convertRoot element.close = e.minified := Element.toNode_injective hsame
  rw [Document.parse, hroot]
  exact congrArg Except.ok hroot'

end Element

/-- The code of markup is one statement, which prints the text of the markup. That text is read as
    the markup with its texts minified, and as a view again it prints the same. -/
theorem markup_roundTrip {T : Element} (h : T.toNode.IsMarkup) (namespaces : NamespaceTable)
    (uri : String) :
    Code.generate T namespaces uri
        = .ok (Code.printStatement (Code.literal T.toNode.markup))
      ∧ (∀ levels ≤ 194, Script.readProgram levels
          (utf8 (Code.printStatement (Code.literal T.toNode.markup)))
        = .ok (.mk [] true [Code.bridgeCall 1 "print" [.text (utf8 T.toNode.markup)]]))
      ∧ Document.parse T.toNode.markup = .ok T.minified
      ∧ Code.generate T.minified namespaces uri
        = .ok (Code.printStatement (Code.literal T.toNode.markup)) := by
  have hcode : ∀ {e : Element}, e.toNode.IsMarkup →
      Code.generate e namespaces uri = .ok (Code.printStatement (Code.literal e.toNode.markup)) := by
    intro e he
    have hprint : Code.Directive.sources (Code.Directive.printOf e.toNode.markup)
        = Code.printStatement (Code.literal e.toNode.markup) := by
      rw [Code.Directive.sources_printOf, Code.printText, if_neg e.markup_ne]
    rw [Code.generate_of_isMarkup he, hprint]
  obtain ⟨hminified, hsame⟩ := minified_isMarkup T.toNode h
  rw [← Element.toNode_minified] at hminified hsame
  refine ⟨hcode h, fun levels hlevels => ?_, Element.parse_markup h, ?_⟩
  · have hread := Code.readProgram_sources hlevels [.print T.toNode.markup]
    rw [Code.Directive.sources, Code.Directive.sources, String.append_empty] at hread
    exact hread
  · rw [hcode hminified, hsame]

/-- A view with text on two lines, an empty element and a quote in a value. -/
def twoLines : Element :=
  ⟨⟨none, "p"⟩, [⟨⟨none, "id"⟩, "it's"⟩],
    [.text " a\n\n $\x7b b ", .element ⟨none, "br"⟩ [] [], .text "\x7d"]⟩

theorem twoLines_isMarkup : twoLines.toNode.IsMarkup := by
  have hname : ∀ name ∈ ["p", "id", "br"], QName.IsUnprefixed ⟨none, name⟩ := by
    simp only [List.forall_mem_cons, List.not_mem_nil, IsEmpty.forall_iff, implies_true, and_true]
    exact ⟨⟨rfl, ⟨by simp, rfl, Xml.forall_of_all rfl⟩, Xml.forall_of_all rfl⟩,
      ⟨rfl, ⟨by simp, rfl, Xml.forall_of_all rfl⟩, Xml.forall_of_all rfl⟩,
      ⟨rfl, ⟨by simp, rfl, Xml.forall_of_all rfl⟩, Xml.forall_of_all rfl⟩⟩
  have hid : Attribute.IsMarkup ⟨⟨none, "id"⟩, "it's"⟩ :=
    ⟨hname _ (by simp), by decide, Xml.forall_of_all rfl, by decide⟩
  have hopen : IsMarkupText " a\n\n $\x7b b " :=
    ⟨rfl, Xml.forall_of_all rfl, by decide, by decide⟩
  have hclose : IsMarkupText "\x7d" := ⟨rfl, Xml.forall_of_all rfl, by decide, by decide⟩
  have hbr : Node.IsMarkup (.element ⟨none, "br"⟩ [] []) := by
    rw [Node.IsMarkup]
    exact ⟨hname _ (by simp), by simp, by simp, trivial⟩
  rw [twoLines, Element.toNode, Node.IsMarkup]
  refine ⟨hname _ (by simp), by simpa using hid, by simp, ?_⟩
  refine ⟨by rw [Node.IsMarkup]; exact hopen, ⟨hbr, ⟨by rw [Node.IsMarkup]; exact hclose, trivial,
    fun _ => rfl⟩, fun hfalse => absurd hfalse Bool.false_ne_true⟩, fun _ => rfl⟩

theorem markup_roundTrip_twoLines :
    twoLines.toNode.IsMarkup
      ∧ Document.parse "<p id=\"it's\">a\n$\x7b b<br/>\x7d</p>" = .ok twoLines.minified
      ∧ Code.generate twoLines.minified [] "/v"
        = .ok (Code.printStatement (Code.literal "<p id=\"it's\">a\n$\x7b b<br/>\x7d</p>")) := by
  have hmarkup : twoLines.toNode.markup = "<p id=\"it's\">a\n$\x7b b<br/>\x7d</p>" := rfl
  obtain ⟨-, -, hparse, hcode⟩ := markup_roundTrip twoLines_isMarkup [] "/v"
  rw [hmarkup] at hparse hcode
  exact ⟨twoLines_isMarkup, hparse, hcode⟩

end ScriptedViews

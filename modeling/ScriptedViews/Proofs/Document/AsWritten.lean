import ScriptedViews.Proofs.Xml.Documents

set_option autoImplicit false

/-! # Views as they are written

The tree of a view is the tree of its document as that is spelled: every name in the form it has in
its start tag, every attribute with the value that stands next to it, and every child that is not
left out in its place. -/

namespace ScriptedViews.Document

open Xml

theorem toNode_convertRoot {source : List Char} {name : WrittenName}
    {attributes : List PlainAttribute} {scope : Scope} {children : List Xml.Node} :
    [(convertRoot (.element source name attributes scope children)).toNode]
      = convert (.element source name attributes scope children) := by
  rw [convert]
  rfl

/-- A text that is read is a spelled document, and whatever document spells it, if its start tags
    are plain, the root of that document as it is written is the tree of the view. -/
theorem parse_asWritten {text : String} {root : Xml.Node} (h : Xml.parse text = .ok root) :
    (∃ d : SpelledDocument, d.IsValid ∧ d.spell = text.toList)
      ∧ ∀ d : SpelledDocument, d.IsValid → d.spell = text.toList → d.root.IsPlain →
        ∃ e : Element, parse text = .ok e ∧ [e.toNode] = Piece.nodes [d.root] := by
  refine ⟨SpelledDocument.exists_of_parse h, fun d hvalid hspell hplain => ?_⟩
  obtain ⟨e, hopen, rfl⟩ := SpelledDocument.openRoot_of_parse hvalid hspell.symm h
  refine ⟨convertRoot e.close, by rw [parse, h], ?_⟩
  rw [← convert_of_openRoot hvalid.root.1 hplain hopen]
  exact toNode_convertRoot

/-- A document with brackets, signs and white space in and around its values, and a declaration
    between its attributes. -/
def quoted : SpelledDocument where
  hasMark := false
  declaration := none
  before := []
  root := .element
    ⟨⟨"", "a", false⟩,
      [⟨[' '], ⟨"x", "b", true⟩, [' '], ['\n'], '\'', ">=/\" ".toList⟩,
        ⟨['\t'], ⟨"xmlns", "x", true⟩, [], [], '"', "u'".toList⟩,
        ⟨[' ', ' '], ⟨"", "c", false⟩, [], [' '], '"', "v&lt;".toList⟩], [' ']⟩
    [.chars " t ".toList, .comment " <d/> ".toList, .chars "\n".toList,
      .empty ⟨⟨"x", "d", true⟩, [], []⟩, .section "<".toList]
    ⟨"", "a", false⟩ []
  after := []

theorem quoted_isValid : quoted.IsValid := by
  have hpart : ∀ name ∈ ["a", "b", "c", "d", "x", "xmlns"], IsPartName name.toList := by
    simp only [List.forall_mem_cons, List.not_mem_nil, IsEmpty.forall_iff, implies_true, and_true]
    exact ⟨⟨by simp, rfl, forall_of_all rfl⟩, ⟨by simp, rfl, forall_of_all rfl⟩,
      ⟨by simp, rfl, forall_of_all rfl⟩, ⟨by simp, rfl, forall_of_all rfl⟩,
      ⟨by simp, rfl, forall_of_all rfl⟩, ⟨by simp, rfl, forall_of_all rfl⟩⟩
  have hname : ∀ localName ∈ ["a", "b", "c", "d", "x", "xmlns"],
      WrittenName.IsValid ⟨"", localName, false⟩ :=
    fun _ h => ⟨hpart _ h, fun hq => absurd rfl hq⟩
  have hprefixed : ∀ qualifier ∈ ["a", "b", "c", "d", "x", "xmlns"],
      ∀ localName ∈ ["a", "b", "c", "d", "x", "xmlns"],
      WrittenName.IsValid ⟨qualifier, localName, true⟩ :=
    fun _ hq _ h => ⟨hpart _ h, fun _ => ⟨rfl, hpart _ hq⟩⟩
  have hfirst : SpelledAttribute.IsValid
      ⟨[' '], ⟨"x", "b", true⟩, [' '], ['\n'], '\'', ">=/\" ".toList⟩ :=
    ⟨by simp, forall_of_all rfl, hprefixed _ (by simp) _ (by simp), forall_of_all rfl,
      forall_of_all rfl, .inr rfl, forall_of_all rfl, _, rfl⟩
  have hsecond : SpelledAttribute.IsValid ⟨['\t'], ⟨"xmlns", "x", true⟩, [], [], '"', "u'".toList⟩ :=
    ⟨by simp, forall_of_all rfl, hprefixed _ (by simp) _ (by simp), forall_of_all rfl,
      forall_of_all rfl, .inl rfl, forall_of_all rfl, _, rfl⟩
  have hthird : SpelledAttribute.IsValid
      ⟨[' ', ' '], ⟨"", "c", false⟩, [], [' '], '"', "v&lt;".toList⟩ :=
    ⟨by simp, forall_of_all rfl, hname _ (by simp), forall_of_all rfl, forall_of_all rfl, .inl rfl,
      forall_of_all rfl, _, rfl⟩
  have hroot : quoted.root.IsValid := by
    rw [quoted, Piece.IsValid]
    refine ⟨⟨hname _ (by simp), ?_, forall_of_all rfl⟩, ?_, ⟨hname _ (by simp), rfl, rfl, by simp⟩⟩
    · simpa using ⟨hfirst, hsecond, hthird⟩
    · simp only [Piece.AreValid, Piece.IsValid, Piece.isChars, List.head?_cons, Option.any_some,
        List.head?_nil, Option.any_none, Bool.false_eq_true, IsEmpty.forall_iff, implies_true,
        and_true]
      exact ⟨⟨by simp, forall_of_all rfl, by decide, _, rfl⟩,
        ⟨forall_of_all rfl, by decide, by decide⟩, ⟨by simp, forall_of_all rfl, by decide, _, rfl⟩,
        ⟨hprefixed _ (by simp) _ (by simp), by simp, by simp⟩, ⟨forall_of_all rfl, by decide⟩⟩
  exact ⟨by simp [quoted], ⟨trivial, by simp [quoted]⟩, ⟨hroot, rfl⟩, ⟨trivial, by simp [quoted]⟩⟩

theorem quoted_isPlain : quoted.root.IsPlain := by
  rw [quoted, Piece.IsPlain]
  refine ⟨⟨forall_of_all rfl, ?_, by decide, by decide, by decide⟩, ?_⟩
  · simp only [List.forall_mem_cons, List.not_mem_nil, IsEmpty.forall_iff, implies_true, and_true]
    exact ⟨forall_of_all rfl, forall_of_all rfl, forall_of_all rfl⟩
  · simp only [Piece.ArePlain, Piece.IsPlain, and_true, true_and]
    exact ⟨forall_of_all rfl, by simp, by decide, by simp, by simp⟩

theorem parse_asWritten_quoted : quoted.IsValid ∧ quoted.root.IsPlain
    ∧ ∃ e : Element, parse (String.ofList quoted.spell) = .ok e
      ∧ [e.toNode] = Piece.nodes [quoted.root] := by
  obtain ⟨root, hroot⟩ : ∃ root, Xml.parse (String.ofList quoted.spell) = .ok root := ⟨_, rfl⟩
  exact ⟨quoted_isValid, quoted_isPlain,
    (parse_asWritten hroot).2 quoted quoted_isValid String.toList_ofList.symm quoted_isPlain⟩

end ScriptedViews.Document

import ScriptedViews.Proofs.Tree.QName
import ScriptedViews.Proofs.Xml.Tokens

set_option autoImplicit false

/-! # Start tags

What a start tag says is read twice: the reader of documents tells declarations from other
attributes and gives the values of the latter in turn, and a scan of the text gives the names as
they are written. Put together again they are the attributes of the tag, one for one. -/

namespace ScriptedViews.Xml

/-! ## Reading -/

/-- An attribute as the reader hands it on. -/
def SpelledAttribute.toRaw (a : SpelledAttribute) : RawAttribute :=
  ⟨a.name, a.raw⟩

/-- What closes a start tag. -/
def TagEnd.spell : TagEnd → List Char
  | .opened => ['>']
  | .empty => ['/', '>']
  | .missing => []

theorem exists_value_of_add {t t' : TagContent} {a : SpelledAttribute}
    (h : t.add a.toRaw = .ok t') : ∃ cs, a.value? = .ok cs :=
  let ⟨cs, hcs, _⟩ := exists_of_bind h
  ⟨cs, hcs⟩

theorem append_of_readTagContent {fuel : Nat} {t content : TagContent} {tagEnd : TagEnd}
    {cs rest : List Char} (h : readTagContent fuel t cs = .ok ((content, tagEnd), rest))
    (hend : tagEnd ≠ .missing) :
    ∃ (as : List SpelledAttribute) (space : List Char),
      cs = as.flatMap SpelledAttribute.spell ++ space ++ tagEnd.spell ++ rest
      ∧ (∀ a ∈ as, a.IsValid) ∧ ∀ c ∈ space, isSpace c := by
  induction fuel generalizing t cs with
  | zero => cases h
  | succ fuel ih =>
    cases cs with
    | nil =>
      cases h
      exact absurd rfl hend
    | cons c cs =>
      obtain ⟨space, hsplit, hspace, hhead⟩ := skipSpace_spec (c :: cs)
      unfold readTagContent at h
      split at h
      · rename_i after heq
        cases h
        exact ⟨[], space, by rw [hsplit, heq]; simp [TagEnd.spell], by simp, hspace⟩
      · rename_i after heq
        cases h
        exact ⟨[], space, by rw [hsplit, heq]; simp [TagEnd.spell], by simp, hspace⟩
      · split at h
        · rename_i hc
          obtain ⟨⟨raw, after⟩, hread, hmore⟩ := exists_of_bind h
          obtain ⟨t', hadd, hrest⟩ := exists_of_bind hmore
          obtain ⟨as, last, rfl, has, hlast⟩ := ih hrest
          obtain ⟨before, behind, quote, hraw, hname, hbefore, hbehind, hquote, hchars⟩ :=
            append_of_readAttribute hread
          let a : SpelledAttribute := ⟨space, raw.name, before, behind, quote, raw.value⟩
          have hspace_ne : space ≠ [] := by
            rintro rfl
            rw [List.nil_append] at hsplit
            have hnot := hhead c (by rw [← hsplit]; rfl)
            rw [hc] at hnot
            cases hnot
          refine ⟨a :: as, last, ?_, ?_, hlast⟩
          · rw [hsplit, hraw]
            simp [a, SpelledAttribute.spell]
          · simpa using ⟨⟨hspace_ne, hspace, hname, hbefore, hbehind, hquote, hchars,
              exists_value_of_add (a := a) hadd⟩, has⟩
        · cases h

theorem append_of_readStartTag {outer : Scope} {e : OpenElement} {tagEnd : TagEnd}
    {cs rest : List Char} (h : readStartTag outer ('<' :: cs) = .ok ((e, tagEnd), rest))
    (hend : tagEnd ≠ .missing) :
    ∃ tag : SpelledTag, tag.IsValid ∧ e.name = tag.name
      ∧ cs = tag.spell ++ tagEnd.spell ++ rest := by
  unfold readStartTag at h
  obtain ⟨⟨name, afterName⟩, hname, hcontent⟩ := exists_of_bind h
  obtain ⟨hsplit, hvalid⟩ := append_of_readQName hname
  rw [List.drop_one, List.tail_cons] at hsplit
  dsimp only at hcontent
  split at hcontent
  · cases hcontent
  · obtain ⟨⟨⟨content, tagEnd'⟩, left⟩, hread, hrest⟩ := exists_of_bind hcontent
    dsimp only at hrest
    -- the checks of prefixes either fail or change nothing
    have hresult : ((⟨'<' :: cs, name, content.attributes, inherit content.declared outer, [],
        none⟩, tagEnd'), left) = ((e, tagEnd), rest) := by
      split at hrest
      · rename_i hmissing
        cases hrest
        exact absurd hmissing hend
      · obtain ⟨_, _, hrest⟩ := exists_of_bind hrest
        obtain ⟨_, _, hrest⟩ := exists_of_bind hrest
        exact Except.ok.inj hrest
    cases hresult
    obtain ⟨as, space, rfl, has, hspace⟩ := append_of_readTagContent hread hend
    refine ⟨⟨name, as, space⟩, ⟨hvalid, has, hspace⟩, rfl, ?_⟩
    rw [hsplit]
    simp [SpelledTag.spell]

/-! ## What a start tag opens -/

/-- Add some attributes to what a start tag says. -/
def TagContent.addAll (t : TagContent) (as : List SpelledAttribute) : Except XmlError TagContent :=
  as.foldlM (fun t a => t.add a.toRaw) t

/-- The element that a start tag at the start of `source` opens where `outer` is in scope, if its
    attributes and prefixes allow it. -/
def SpelledTag.open? (tag : SpelledTag) (outer : Scope) (source : List Char) :
    Except XmlError OpenElement :=
  if tag.name.qualifier = "xmlns" then .error .invalidElementNamePrefix
  else do
    let content ← ({} : TagContent).addAll tag.attributes
    let scope := inherit content.declared outer
    checkAttributes scope [] content.attributes
    let _ ← namespaceOf scope tag.name.qualifier
    return ⟨source, tag.name, content.attributes, scope, [], none⟩

/-- What an element is that a start tag has opened. -/
structure SpelledTag.Opens (tag : SpelledTag) (outer : Scope) (source : List Char)
    (e : OpenElement) : Prop where
  source : e.source = source
  name : e.name = tag.name
  content : ∃ content, ({} : TagContent).addAll tag.attributes = .ok content
    ∧ e.attributes = content.attributes ∧ e.scope = inherit content.declared outer
  children : e.children = []
  run : e.run = none

theorem SpelledTag.opens_of_open? {tag : SpelledTag} {outer : Scope} {source : List Char}
    {e : OpenElement} (h : tag.open? outer source = .ok e) : tag.Opens outer source e := by
  unfold SpelledTag.open? at h
  split at h
  · cases h
  · obtain ⟨content, hcontent, hchecks⟩ := exists_of_bind h
    obtain ⟨_, _, hchecks⟩ := exists_of_bind hchecks
    obtain ⟨_, _, hchecks⟩ := exists_of_bind hchecks
    cases hchecks
    exact ⟨rfl, rfl, ⟨content, hcontent, rfl, rfl⟩, rfl, rfl⟩

/-! ## Names -/

theorem IsPartName.not_mem {cs : List Char} (h : IsPartName cs) {c : Char}
    (hc : isNameChar c = false) : c ∉ cs := by
  intro hmem
  rw [h.2.2 c hmem] at hc
  cases hc

namespace WrittenName.IsValid

variable {n : WrittenName} (h : n.IsValid)

include h

theorem qualifier_eq_of_not_hasColon (hn : n.hasColon = false) : n.qualifier = "" := by
  by_contra hq
  rw [(h.qualifier hq).1] at hn
  cases hn

theorem colon_not_mem_qualifier : ':' ∉ n.qualifier.toList := by
  by_cases hq : n.qualifier = ""
  · simp [hq]
  · exact (h.qualifier hq).2.not_mem (by decide)

/-- The parts of a name are those that its written form is split into. -/
theorem toQName_eq :
    n.toQName = ⟨if n.qualifier = "" then none else some n.qualifier, n.localName⟩ := by
  unfold WrittenName.toQName QName.parse
  rw [String.toList_ofList, WrittenName.spell, ← QName.ofParts_some]
  cases hn : n.hasColon with
  | true =>
    rw [if_pos rfl, QName.splitColon_append h.colon_not_mem_qualifier]
    simp
  | false =>
    rw [if_neg Bool.false_ne_true, QName.splitColon_of_not_mem (h.localName.not_mem (by decide)),
      h.qualifier_eq_of_not_hasColon hn]
    simp [QName.ofParts, Option.filter_some]

theorem localName_toQName : n.toQName.localName = n.localName := by
  rw [h.toQName_eq]

theorem isNamespaceDeclaration_iff : n.toQName.isNamespaceDeclaration = true
    ↔ n.qualifier = "xmlns" ∨ n.qualifier = "" ∧ n.localName = "xmlns" := by
  rw [h.toQName_eq]
  by_cases hq : n.qualifier = ""
  · simp [QName.isNamespaceDeclaration, hq, Vocabulary.xmlnsPrefix]
  · simp [QName.isNamespaceDeclaration, hq, Vocabulary.xmlnsPrefix]

end WrittenName.IsValid

/-! ## Declarations -/

/-- The prefix that a declaration gives a URI to. -/
def SpelledAttribute.declared (a : SpelledAttribute) : Option String :=
  a.name.toQName.qualifier.map fun _ => a.name.toQName.localName

theorem uri?_append (declared more : Scope) (p : Option String) :
    Scope.uri? (declared ++ more) p = (declared.uri? p).or (more.uri? p) :=
  List.lookup_append

/-- What the namespaces in scope are in an element: first of all those that it declares. -/
theorem uri?_inherit {declared outer : Scope} {p : Option String} {uri : String}
    (h : declared.uri? p = some uri) : (inherit declared outer).uri? p = some uri := by
  rw [inherit, uri?_append, h]
  rfl

/-- Whether a start tag can be read with a given attribute next: the default namespace has not been
    declared if it is declared now. -/
def TagContent.IsOpenFor (t : TagContent) (a : SpelledAttribute) : Prop :=
  a.name.spell = "xmlns".toList → t.declared.uri? none = none

/-- A plain attribute is a declaration by its name if and only if it is recorded as one. -/
theorem TagContent.add_cases {t t' : TagContent} {a : SpelledAttribute} (hname : a.name.IsValid)
    (hxml : a.name.spell ≠ "xmlns:xml".toList)
    (hxmlns : a.name.localName = "xmlns" → a.name.hasColon = false) (hopen : t.IsOpenFor a)
    (h : t.add a.toRaw = .ok t') :
    (a.name.toQName.isNamespaceDeclaration = true ∧ t.declared.uri? a.declared = none
        ∧ t' = { t with declared := t.declared ++ [(a.declared, a.value)] })
      ∨ (a.name.toQName.isNamespaceDeclaration = false
        ∧ t' = { t with attributes := t.attributes ++ [⟨a.name, a.value⟩] }) := by
  obtain ⟨cs, hcs, hadd⟩ := exists_of_bind h
  have hvalue : String.ofList cs = a.value := by
    have hcs' : a.value? = .ok cs := hcs
    simp only [SpelledAttribute.value, hcs']
  have hdeclares := hname.isNamespaceDeclaration_iff
  have hdeclared : a.declared = if a.name.qualifier = "" then none else some a.name.localName := by
    rw [SpelledAttribute.declared, hname.localName_toQName, hname.toQName_eq]
    by_cases hq : a.name.qualifier = "" <;> simp [hq]
  simp only [hvalue, SpelledAttribute.toRaw] at hadd
  split at hadd
  · rename_i hq
    have hlocal : a.name.localName ≠ "xml" := by
      intro hlocal
      obtain ⟨hcolon, -⟩ := hname.qualifier (by rw [hq]; decide)
      exact hxml (by simp [WrittenName.spell, hcolon, hq, hlocal])
    have hsome : a.declared = some a.name.localName := by
      rw [hdeclared, hq]
      rfl
    -- the URI of `xml` is only given to the prefix `xml`
    split at hadd
    · cases hadd
    · split at hadd
      · cases hadd
      · split at hadd
        · cases hadd
        · rename_i hnotUri
          split at hadd
          · cases hadd
          · rename_i hnew
            split at hadd
            · rename_i huri
              exact absurd ⟨hlocal, huri⟩ hnotUri
            · cases hadd
              refine .inl ⟨hdeclares.2 (.inl hq), ?_, by rw [hsome]⟩
              rw [hsome]
              simpa using hnew
  · rename_i hq
    split at hadd
    · rename_i hlocal
      have hcolon := hxmlns hlocal
      have hempty := hname.qualifier_eq_of_not_hasColon hcolon
      have hnone : a.declared = none := by
        rw [hdeclared, if_pos hempty]
      split at hadd
      · cases hadd
      · split at hadd
        · cases hadd
        · cases hadd
          refine .inl ⟨hdeclares.2 (.inr ⟨hempty, hlocal⟩), ?_, by rw [hnone]⟩
          rw [hnone]
          exact hopen (by simp [WrittenName.spell, hcolon, hlocal])
    · rename_i hlocal
      cases hadd
      refine .inr ⟨?_, rfl⟩
      rw [← Bool.not_eq_true, hdeclares]
      rintro (h | h)
      · exact hq h
      · exact hlocal h.2

/-! ## Names and values together -/

/-- What has been declared stays so. -/
theorem TagContent.declared_of_add {t t' : TagContent} {a : RawAttribute} (h : t.add a = .ok t') :
    ∃ more, t'.declared = t.declared ++ more := by
  obtain ⟨cs, -, hadd⟩ := exists_of_bind h
  dsimp only at hadd
  split_ifs at hadd <;> cases hadd
  · exact ⟨[], by simp⟩
  · exact ⟨_, rfl⟩
  · exact ⟨_, rfl⟩
  · exact ⟨[], by simp⟩

theorem TagContent.uri?_of_addAll {as : List SpelledAttribute} {t content : TagContent}
    (hall : t.addAll as = .ok content) {p : Option String} {uri : String}
    (h : t.declared.uri? p = some uri) : content.declared.uri? p = some uri := by
  induction as generalizing t with
  | nil =>
    cases hall
    exact h
  | cons a as ih =>
    obtain ⟨t', hadd, hrest⟩ := exists_of_bind hall
    obtain ⟨more, hmore⟩ := TagContent.declared_of_add hadd
    refine ih hrest ?_
    rw [hmore, uri?_append, h]
    rfl

/-- The one declaration of the default namespace is written `xmlns`. -/
theorem SpelledAttribute.spell_eq_of_declared {a : SpelledAttribute} (hname : a.name.IsValid)
    (hxmlns : a.name.localName = "xmlns" → a.name.hasColon = false)
    (hdeclares : a.name.toQName.isNamespaceDeclaration = true) (h : a.declared = none) :
    a.name.spell = "xmlns".toList := by
  have hq : a.name.qualifier = "" := by
    simpa [SpelledAttribute.declared, hname.toQName_eq] using h
  rcases hname.isNamespaceDeclaration_iff.1 hdeclares with hp | ⟨-, hlocal⟩
  · rw [hq] at hp
    exact absurd hp (by decide)
  · rw [WrittenName.spell, hxmlns hlocal, if_neg Bool.false_ne_true, hlocal]

/-- Each attribute of a plain start tag gets its own value: a declaration the URI that is in scope
    for it, and any other attribute the value whose turn it is. -/
theorem pairValues_of_addAll {as : List SpelledAttribute} {t content : TagContent} {scope : Scope}
    (hvalid : ∀ a ∈ as, a.IsValid) (honce : (as.map (·.name.spell)).count "xmlns".toList ≤ 1)
    (hxml : ∀ a ∈ as, a.name.spell ≠ "xmlns:xml".toList)
    (hxmlns : ∀ a ∈ as, a.name.localName = "xmlns" → a.name.hasColon = false)
    (hopen : ∀ a ∈ as, t.IsOpenFor a) (hall : t.addAll as = .ok content)
    (hscope : ∀ p uri, content.declared.uri? p = some uri → scope.uri? p = some uri) :
    ∃ plain, content.attributes = t.attributes ++ plain
      ∧ Document.pairValues scope (as.map (·.name.toQName)) (plain.map (·.value))
        = as.map (·.toAttribute) := by
  induction as generalizing t with
  | nil =>
    cases hall
    exact ⟨[], by simp, rfl⟩
  | cons a as ih =>
    obtain ⟨t', hadd, hrest⟩ := exists_of_bind hall
    have hrest : t'.addAll as = .ok content := hrest
    simp only [List.mem_cons, forall_eq_or_imp] at hvalid hxml hxmlns hopen
    simp only [List.map_cons, List.count_cons] at honce
    have hname := hvalid.1.name
    rcases TagContent.add_cases hname hxml.1 hxmlns.1 hopen.1 hadd with
      ⟨hdeclares, hnew, rfl⟩ | ⟨hdeclares, rfl⟩
    · have hopen' : ∀ b ∈ as, TagContent.IsOpenFor
          { t with declared := t.declared ++ [(a.declared, a.value)] } b := by
        intro b hb hspell
        rw [uri?_append, hopen.2 b hb hspell]
        cases hkey : a.declared with
        | some p => rfl
        | none =>
          -- then the default namespace would be declared twice
          have ha := a.spell_eq_of_declared hname hxmlns.1 hdeclares hkey
          have hpos : 0 < (as.map (·.name.spell)).count "xmlns".toList :=
            List.count_pos_iff.2 (hspell ▸ List.mem_map_of_mem hb)
          rw [ha, beq_self_eq_true, if_pos rfl] at honce
          omega
      obtain ⟨plain, hplain, hpairs⟩ := ih hvalid.2 (by omega) hxml.2 hxmlns.2 hopen' hrest
      refine ⟨plain, hplain, ?_⟩
      have huri : scope.uri? a.declared = some a.value := by
        refine hscope _ _ (TagContent.uri?_of_addAll hrest ?_)
        rw [uri?_append, hnew]
        simp [Scope.uri?]
      simp only [List.map_cons, Document.pairValues, hdeclares, if_true, hpairs]
      rw [SpelledAttribute.declared] at huri
      rw [huri]
      rfl
    · have hopen' : ∀ b ∈ as, TagContent.IsOpenFor
          { t with attributes := t.attributes ++ [⟨a.name, a.value⟩] } b := hopen.2
      obtain ⟨plain, hplain, hpairs⟩ := ih hvalid.2 (by omega) hxml.2 hxmlns.2 hopen' hrest
      refine ⟨⟨a.name, a.value⟩ :: plain, by rw [hplain]; simp, ?_⟩
      simp only [List.map_cons, Document.pairValues, hdeclares, hpairs, Bool.false_eq_true,
        if_false]
      rfl

/-! ## Names as they are written -/

theorem isBlank_of_isSpace {c : Char} (h : isSpace c = true) : Text.isBlank c = true := by
  simp only [isSpace, Bool.or_eq_true, beq_iff_eq] at h
  rcases h with ((rfl | rfl) | rfl) | rfl <;> rfl

theorem trimStart_append {a : List Char} (ha : ∀ c ∈ a, isSpace c) (b : List Char) :
    Text.trimStart (a ++ b) = Text.trimStart b :=
  List.dropWhile_append_of_pos fun c hc => isBlank_of_isSpace (ha c hc)

theorem trimStart_cons {c : Char} (hc : Text.isBlank c = false) (cs : List Char) :
    Text.trimStart (c :: cs) = c :: cs := by
  rw [Text.trimStart, List.dropWhile_cons_of_neg (by simp [hc])]

/-- A run of characters is taken up to the first one that is not of its kind. -/
theorem takeWhile_append_cons {p : Char → Bool} {a b : List Char} {c : Char} (ha : ∀ d ∈ a, p d)
    (hc : p c = false) : (a ++ c :: b).takeWhile p = a ∧ (a ++ c :: b).dropWhile p = c :: b := by
  rw [List.takeWhile_append_of_pos ha, List.dropWhile_append_of_pos ha,
    List.takeWhile_cons_of_neg (by simp [hc]), List.dropWhile_cons_of_neg (by simp [hc]),
    List.append_nil]
  exact ⟨rfl, rfl⟩

namespace WrittenName.IsValid

variable {n : WrittenName} (h : n.IsValid)

include h

/-- The characters of a name are characters of names and at most one colon. -/
theorem isNameChar_of_mem {c : Char} (hc : c ∈ n.spell) : isNameChar c = true ∨ c = ':' := by
  unfold WrittenName.spell at hc
  split at hc
  · rcases List.mem_append.1 hc with hc | hc
    · by_cases hq : n.qualifier = ""
      · simp [hq] at hc
      · exact .inl ((h.qualifier hq).2.2.2 c hc)
    · rcases List.mem_cons.1 hc with rfl | hc
      · exact .inr rfl
      · exact .inl (h.localName.2.2 c hc)
  · exact .inl (h.localName.2.2 c hc)

theorem not_mem_spell {c : Char} (hc : isNameChar c = false) (hcolon : c ≠ ':') : c ∉ n.spell := by
  intro hmem
  rcases h.isNameChar_of_mem hmem with hname | heq
  · rw [hname] at hc
    cases hc
  · exact hcolon heq

theorem spell_ne : n.spell ≠ [] := by
  unfold WrittenName.spell
  split
  · simp
  · exact h.localName.1

end WrittenName.IsValid

namespace StartTag

/-- A quoted value is passed over, whatever it holds. -/
theorem afterValue?_spell {a : SpelledAttribute} (h : a.IsValid) (rest : List Char) :
    afterValue? (a.beforeEquals ++ '=' :: a.afterEquals ++ a.quote :: a.raw ++ [a.quote] ++ rest)
      = some rest := by
  have hquote : Text.isBlank a.quote = false := by
    rcases h.quote with hq | hq <;> rw [hq] <;> rfl
  have hraw := (takeWhile_append_cons (p := (· ≠ a.quote)) (b := rest) (c := a.quote)
    (fun c hc => by simpa using (h.raw c hc).2.1) (by simp)).2
  have hshape : a.beforeEquals ++ '=' :: a.afterEquals ++ a.quote :: a.raw ++ [a.quote] ++ rest
      = a.beforeEquals ++ '=' :: (a.afterEquals ++ a.quote :: (a.raw ++ a.quote :: rest)) := by
    simp
  rw [hshape, afterValue?, trimStart_append h.beforeEquals, trimStart_cons (by rfl)]
  simp only [trimStart_append h.afterEquals, trimStart_cons hquote, h.quote, if_true, hraw]

/-- The names of attributes are found one by one, up to what closes the tag. -/
theorem scanAttributes_spell {as : List SpelledAttribute} (hvalid : ∀ a ∈ as, a.IsValid)
    (hsolid : ∀ a ∈ as, a.name.IsSolid) {space : List Char} (hspace : ∀ c ∈ space, isSpace c)
    {mark : Char} (hmark : mark = '/' ∨ mark = '>') (rest : List Char) {fuel : Nat}
    (hfuel : as.length < fuel) :
    scanAttributes fuel (as.flatMap SpelledAttribute.spell ++ space ++ mark :: rest)
      = as.map (·.name.spell) := by
  induction as generalizing fuel with
  | nil =>
    obtain ⟨fuel, rfl⟩ : ∃ n, fuel = n + 1 := ⟨fuel - 1, by simp at hfuel; omega⟩
    have hblank : Text.isBlank mark = false := by
      rcases hmark with rfl | rfl <;> rfl
    simp only [List.flatMap_nil, List.nil_append, scanAttributes, trimStart_append hspace,
      trimStart_cons hblank, hmark, if_true, List.map_nil]
  | cons a as ih =>
    obtain ⟨fuel, rfl⟩ : ∃ n, fuel = n + 1 := ⟨fuel - 1, by simp at hfuel; omega⟩
    simp only [List.mem_cons, forall_eq_or_imp] at hvalid hsolid
    have hname := hvalid.1.name
    have hless : as.length < fuel := by simpa using hfuel
    have htail := ih hvalid.2 hsolid.2 hless
    generalize hmore : as.flatMap SpelledAttribute.spell ++ space ++ mark :: rest = more at htail
    have hshape : (a :: as).flatMap SpelledAttribute.spell ++ space ++ mark :: rest
        = a.space ++ (a.name.spell ++ (a.beforeEquals ++ '=' :: a.afterEquals
          ++ a.quote :: a.raw ++ [a.quote] ++ more)) := by
      rw [← hmore]
      simp [SpelledAttribute.spell]
    generalize hafter : a.beforeEquals ++ '=' :: a.afterEquals ++ a.quote :: a.raw ++ [a.quote]
      ++ more = after at hshape
    -- the name ends at white space or at the equals sign
    have hnames : ∀ c ∈ a.name.spell, (!endsAttributeName c) = true := by
      intro c hc
      have hsign : c ≠ '=' := fun heq => hname.not_mem_spell (by decide) (by decide) (heq ▸ hc)
      simp [endsAttributeName, hsign, hsolid.1 c hc]
    have hends : ∃ c cs, after = c :: cs ∧ (!endsAttributeName c) = false := by
      rw [← hafter]
      cases hbefore : a.beforeEquals with
      | nil => exact ⟨'=', _, rfl, rfl⟩
      | cons c cs =>
        have hc := isBlank_of_isSpace (hvalid.1.beforeEquals c (by rw [hbefore]; simp))
        exact ⟨c, _, rfl, by simp [endsAttributeName, hc]⟩
    obtain ⟨c, cs, hcs, hc⟩ := hends
    have hcut := takeWhile_append_cons (b := cs) hnames hc
    rw [← hcs] at hcut
    obtain ⟨d, ds, hspell⟩ := List.exists_cons_of_ne_nil hname.spell_ne
    have hd : d ∈ a.name.spell := by rw [hspell]; simp
    have hslash : ¬ (d = '/' ∨ d = '>') := by
      rintro (rfl | rfl)
      · exact hname.not_mem_spell (by decide) (by decide) hd
      · exact hname.not_mem_spell (by decide) (by decide) hd
    have hstart : Text.trimStart (a.space ++ (a.name.spell ++ after)) = d :: (ds ++ after) := by
      rw [trimStart_append hvalid.1.space, hspell, List.cons_append, trimStart_cons (hsolid.1 d hd)]
    have hvalue : afterValue? after = some more := by
      rw [← hafter]
      exact afterValue?_spell hvalid.1 more
    rw [hshape, scanAttributes, hstart]
    dsimp only
    rw [if_neg hslash, ← List.cons_append, ← hspell, hcut.1, hcut.2, hvalue]
    dsimp only
    rw [htail, List.map_cons]

theorem length_le_length_flatMap (as : List SpelledAttribute) :
    as.length ≤ (as.flatMap SpelledAttribute.spell).length := by
  induction as with
  | nil => exact Nat.le_refl _
  | cons a as ih =>
    simp only [List.flatMap_cons, List.length_append, List.length_cons, SpelledAttribute.spell]
    omega

/-- What follows the name in a start tag ends it. -/
theorem exists_afterName {tag : SpelledTag} (h : tag.IsValid) {mark : Char}
    (hmark : mark = '/' ∨ mark = '>') (rest : List Char) :
    ∃ c cs, tag.attributes.flatMap SpelledAttribute.spell ++ tag.space ++ mark :: rest = c :: cs
      ∧ endsName c = true := by
  cases has : tag.attributes with
  | nil =>
    cases hspace : tag.space with
    | nil => exact ⟨mark, rest, rfl, by rcases hmark with rfl | rfl <;> rfl⟩
    | cons c cs =>
      have hc := isBlank_of_isSpace (h.space c (by rw [hspace]; simp))
      exact ⟨c, _, rfl, by simp [endsName, hc]⟩
  | cons a as =>
    have ha := h.attributes a (by rw [has]; simp)
    obtain ⟨c, cs, hspace⟩ := List.exists_cons_of_ne_nil ha.space_ne
    have hc := isBlank_of_isSpace (ha.space c (by rw [hspace]; simp))
    refine ⟨c, ?_, ?_, by simp [endsName, hc]⟩
    rotate_left
    · simp only [List.flatMap_cons, SpelledAttribute.spell, hspace, List.cons_append]
      rfl

/-- The scan of a start tag finds its names as they are written. -/
theorem scan_spell {tag : SpelledTag} (hvalid : tag.IsValid) (hname : tag.name.IsSolid)
    (hsolid : ∀ a ∈ tag.attributes, a.name.IsSolid) {mark : Char} (hmark : mark = '/' ∨ mark = '>')
    (rest : List Char) :
    scan ('<' :: tag.spell ++ mark :: rest)
      = ⟨tag.name.spell, tag.attributes.map (·.name.spell)⟩ := by
  have hnames : ∀ c ∈ tag.name.spell, (!endsName c) = true := by
    intro c hc
    have hslash : c ≠ '/' := fun heq =>
      hvalid.name.not_mem_spell (by decide) (by decide) (heq ▸ hc)
    have hclose : c ≠ '>' := fun heq =>
      hvalid.name.not_mem_spell (by decide) (by decide) (heq ▸ hc)
    simp [endsName, hslash, hclose, hname c hc]
  have hshape : '<' :: tag.spell ++ mark :: rest = '<' :: (tag.name.spell
      ++ (tag.attributes.flatMap SpelledAttribute.spell ++ tag.space ++ mark :: rest)) := by
    simp [SpelledTag.spell]
  generalize hafter : tag.attributes.flatMap SpelledAttribute.spell ++ tag.space ++ mark :: rest
    = after at hshape
  have hends : ∃ c cs, after = c :: cs ∧ (!endsName c) = false := by
    obtain ⟨c, cs, hcs, hc⟩ := exists_afterName hvalid hmark rest
    exact ⟨c, cs, hafter ▸ hcs, by simp [hc]⟩
  obtain ⟨c, cs, hcs, hc⟩ := hends
  have hcut := takeWhile_append_cons (b := cs) hnames hc
  rw [← hcs] at hcut
  have hfuel : tag.attributes.length < after.length := by
    have := length_le_length_flatMap tag.attributes
    rw [← hafter]
    simp only [List.length_append, List.length_cons]
    omega
  rw [hshape, scan]
  rw [hcut.1, hcut.2, ← hafter, scanAttributes_spell hvalid.attributes hsolid hvalid.space hmark]
  rwa [hafter]

end StartTag

/-- The name and the attributes of an element are those of its start tag, if that is plain. -/
theorem SpelledTag.Opens.readTag_eq {tag : SpelledTag} {outer : Scope} {mark : Char}
    {rest : List Char} {e : OpenElement} (h : tag.Opens outer ('<' :: tag.spell ++ mark :: rest) e)
    (hvalid : tag.IsValid) (hplain : tag.IsPlain) (hmark : mark = '/' ∨ mark = '>') :
    Document.readTag e.source e.scope e.attributes
      = (tag.name.toQName, tag.attributes.map (·.toAttribute)) := by
  obtain ⟨content, hall, hattributes, hscope⟩ := h.content
  obtain ⟨plain, hvalues, hpairs⟩ := pairValues_of_addAll hvalid.attributes hplain.xmlnsOnce
    hplain.notXml hplain.notXmlns (fun _ _ _ => rfl) hall
    (fun _ _ huri => uri?_inherit huri)
  have hsame : content.attributes = plain := by simpa using hvalues
  rw [h.source, Document.readTag, StartTag.scan_spell hvalid hplain.name hplain.names hmark rest,
    hattributes, hscope, hsame, List.map_map]
  exact Prod.ext rfl hpairs

end ScriptedViews.Xml

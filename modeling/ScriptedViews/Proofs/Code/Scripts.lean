import ScriptedViews.Proofs.Code.UnknownTags
import ScriptedViews.Proofs.Document.CharacterData
import ScriptedViews.View

set_option autoImplicit false

/-! # Scripts

The text of a script is a statement of the code that the script is put into, with a new line before
and after it. That code is the view's, or the code of the innermost call around the script, which
the code around that call has in a literal. The text is the character data in the script as its
document spells it, without the runs of it that are blank: a line end that stands alone between two
comments is lost. -/

namespace ScriptedViews.Code

open Vocabulary (scriptTag)
open Xml (SpelledDocument SpelledAttribute WrittenName Piece IsPartName forall_of_all)

/-! ## What code is put into -/

/-- The code that an element which is looked at is put into: that of the view, or that of the
    content of the innermost call around it. The code around a call has the content in a literal. -/
inductive Hosts (namespaces : NamespaceTable) (uri : String) (root : Element) :
    List Nat → String → Prop where
  | view {code : String} (hcode : generate root namespaces uri = .ok code) :
      Hosts namespaces uri root [] code
  | inside {path : List Nat} {e : Element} {host : String} (i : Nat)
      (h : Hosts namespaces uri root path host) (he : Visits namespaces root path e)
      (hrole : roleOf namespaces e.name = .ok .markup ∨ roleOf namespaces e.name = .ok .group) :
      Hosts namespaces uri root (path ++ [i]) host
  | content {path : List Nat} {e : Element} {q url host content before after : String} (i : Nat)
      (h : Hosts namespaces uri root path host) (he : Visits namespaces root path e)
      (hrole : roleOf namespaces e.name = .ok (.invocation q url))
      (hcontent : (generateNodes namespaces uri {} e.children).map Builder.finish = .ok content)
      (hhost : host = before ++ invocationStatement (Uri.anchor uri url) e.name.localName
        (callAttributes q e.attributes) ("function()\n" ++ content ++ "end") ++ after) :
      Hosts namespaces uri root (path ++ [i]) content

section Tokens

variable {namespaces : NamespaceTable} {uri : String}

/-- The tokens of one node stand among those of all. -/
theorem exists_nodesTokens {nodes : List Node} {i : Nat} {n : Node} {ts : List Token}
    (hn : nodes[i]? = some n) (hts : nodesTokens namespaces uri nodes = .ok ts) :
    ∃ before us after, nodeTokens namespaces uri n = .ok us ∧ ts = before ++ us ++ after := by
  induction nodes generalizing i ts with
  | nil => simp at hn
  | cons m nodes ih =>
    obtain ⟨us, vs, hus, hvs, rfl⟩ := exists_of_nodesTokens_cons hts
    cases i with
    | zero =>
      cases hn
      exact ⟨[], us, vs, hus, rfl⟩
    | succ i =>
      obtain ⟨before, ws, after, hws, rfl⟩ := ih hn hvs
      exact ⟨us ++ before, ws, after, hws, by simp only [List.append_assoc]⟩

/-- The code of some nodes, from their tokens. -/
theorem finish_of_nodesTokens {nodes : List Node} {ts : List Token}
    (h : nodesTokens namespaces uri nodes = .ok ts) :
    (generateNodes namespaces uri {} nodes).map Builder.finish = .ok (emit ts) := by
  rw [generateNodes_finish, h]
  rfl

/-- Every element that is looked at has tokens of its own among those of the code that it is put
    into. -/
theorem Visits.exists_hosts {root x : Element} {path : List Nat} {code : String}
    (hcode : generate root namespaces uri = .ok code) (hx : Visits namespaces root path x) :
    ∃ before us after, nodeTokens namespaces uri x.toNode = .ok us
      ∧ Hosts namespaces uri root path (emit (before ++ us ++ after)) := by
  induction hx with
  | root =>
    have htokens := hcode
    rw [generate_eq] at htokens
    obtain ⟨us, hus, hemit⟩ := exists_of_map htokens
    refine ⟨[], us, [], hus, .view ?_⟩
    rw [List.nil_append, List.append_nil, hemit, hcode]
  | @child path e child i he hentered hchild ih =>
    obtain ⟨before, us, after, hus, hhost⟩ := ih
    rw [Element.toNode, nodeTokens] at hus
    rcases isEntered_iff.1 hentered with hrole | hrole | ⟨q, url, hrole⟩
    -- the children of markup stand between its tags, in the same code
    · have hne : e.children.isEmpty = false := by
        cases hc : e.children with
        | nil => simp [hc] at hchild
        | cons => rfl
      rw [hrole] at hus
      simp only [hne, Bool.false_eq_true, if_false] at hus
      obtain ⟨ts, hts, rfl⟩ := exists_of_map hus
      obtain ⟨before', ws, after', hws, rfl⟩ := exists_nodesTokens hchild hts
      refine ⟨before ++ (startTokens e.name.render e.attributes ++ outputTokens ">") ++ before',
        ws, after' ++ endTokens e.name.render ++ after, hws, ?_⟩
      have hinner := hhost.inside i he (.inl hrole)
      simpa only [List.append_assoc] using hinner
    -- those of a group stand for it
    · rw [hrole] at hus
      obtain ⟨before', ws, after', hws, rfl⟩ := exists_nodesTokens hchild hus
      refine ⟨before ++ before', ws, after' ++ after, hws, ?_⟩
      have hinner := hhost.inside i he (.inr hrole)
      simpa only [List.append_assoc] using hinner
    -- those of a call are put into code of their own, which the code around has in a literal
    · rw [hrole] at hus
      obtain ⟨ts, hts, rfl⟩ := exists_of_map hus
      rw [List.append_assoc, List.singleton_append, emit_append_statement] at hhost
      have hinner := hhost.content i he hrole (finish_of_nodesTokens hts) rfl
      obtain ⟨before', ws, after', hws, rfl⟩ := exists_nodesTokens hchild hts
      exact ⟨before', ws, after', hws, hinner⟩

end Tokens

/-! ## The code of scripts -/

/-- Whether the code of an element is a statement between two new lines, to whatever the builder
    holds and in the code that the element is put into. -/
structure EmitsScript (namespaces : NamespaceTable) (uri : String) (root : Element)
    (path : List Nat) (x : Element) (script : String) : Prop where
  builder : ∀ b : Builder, generateNode namespaces uri b x.toNode
    = .ok (((b.statement "\n").statement script).statement "\n")
  code : ∀ code, generate root namespaces uri = .ok code → ∃ before after,
    Hosts namespaces uri root path (before ++ "\n" ++ script ++ "\n" ++ after)

/-- A script that is looked at is emitted as its text. -/
theorem Visits.emitsScript {namespaces : NamespaceTable} {root x : Element} {path : List Nat}
    (hx : Visits namespaces root path x) (hscript : IsDirective namespaces x.name scriptTag)
    (uri : String) : EmitsScript namespaces uri root path x (Node.textOfAll x.children) := by
  constructor
  · intro b
    rw [Element.toNode, generateNode, hscript.roleOf_eq_script]
  · intro code hcode
    obtain ⟨before, us, after, hus, hhost⟩ := hx.exists_hosts hcode
    rw [Element.toNode, nodeTokens, hscript.roleOf_eq_script] at hus
    cases hus
    refine ⟨emit before, emit after, ?_⟩
    rw [List.append_assoc, List.cons_append, emit_append_statement, List.cons_append,
      emit_statement, List.singleton_append, emit_statement] at hhost
    simpa only [String.append_assoc] using hhost

/-- A path in the tree of a view leads to the same element in the document. -/
theorem Visits.exists_contentAt {namespaces : NamespaceTable} {root x : Element} {path : List Nat}
    {ps : List Piece} (hx : Visits namespaces root path x)
    (hroot : Piece.Yields none ps root.children) :
    ∃ content, Piece.contentAt path ps = some content
      ∧ Piece.Yields none content x.children := by
  induction hx with
  | root => exact ⟨ps, rfl, hroot⟩
  | @child path e child i _ _ hchild ih =>
    obtain ⟨outer, houter, hyields⟩ := ih
    obtain ⟨content, hcontent, hinner⟩ := hyields.child hchild
    exact ⟨content, by rw [Piece.contentAt_append, houter]; exact hcontent, hinner⟩

/-- A text that is read is a spelled document. Whatever document spells it, the code of a script
    that is looked at is, between two new lines, the character data in the script without the runs
    of it that are blank. Only blanks are left out of it, and nothing is if and only if every blank
    run is empty. -/
theorem scripts_emitted {text : String} {root : Element} (h : Document.parse text = .ok root) :
    (∃ d : SpelledDocument, d.IsValid ∧ d.spell = text.toList)
      ∧ ∀ d : SpelledDocument, d.IsValid → d.spell = text.toList →
        ∀ (namespaces : NamespaceTable) (uri : String) (path : List Nat) (x : Element),
          Visits namespaces root path x → IsDirective namespaces x.name scriptTag →
            ∃ content, Piece.contentAt path d.root.content = some content
              ∧ EmitsScript namespaces uri root path x (String.ofList (Piece.keptData content))
              ∧ (Piece.keptData content).filter (!Text.isBlank ·)
                = (Piece.characterData content).filter (!Text.isBlank ·)
              ∧ (Piece.keptData content = Piece.characterData content
                ↔ ∀ run ∈ Piece.runs content, Piece.isBlankRun run → run = []) := by
  constructor
  · rw [Document.parse] at h
    cases hparse : Xml.parse text with
    | error e => simp [hparse] at h
    | ok tree => exact SpelledDocument.exists_of_parse hparse
  · intro d hvalid hspell namespaces uri path x hx hscript
    obtain ⟨content, hcontent, hyields⟩ :=
      hx.exists_contentAt (Document.yields_of_parse h hvalid hspell)
    have htext : Node.textOfAll x.children = String.ofList (Piece.keptData content) := by
      rw [← String.ofList_toList (s := Node.textOfAll x.children), hyields.textOfAll]
      rfl
    refine ⟨content, hcontent, ?_, ?_, ?_⟩
    · rw [← htext]
      exact hx.emitsScript hscript uri
    · rw [Piece.keptData, Piece.filter_keep, Piece.flatten_runs]
    · rw [Piece.keptData, ← Piece.flatten_runs]
      exact Piece.keep_eq_flatten_iff

/-- A view with a script that has a line end between two comments. -/
def commented : SpelledDocument where
  hasMark := false
  declaration := none
  before := []
  root := .element ⟨⟨"x", "view", true⟩,
      [⟨[' '], ⟨"xmlns", "x", true⟩, [], [], '"', "xview".toList⟩], []⟩
    [.element ⟨⟨"x", "script", true⟩, [], []⟩
      [.chars "a = 1 --".toList, .comment " ".toList, .chars "\n".toList, .comment " ".toList,
        .chars "a = 2".toList] ⟨"x", "script", true⟩ []]
    ⟨"x", "view", true⟩ []
  after := []

theorem commented_isValid : commented.IsValid := by
  have hpart : ∀ name ∈ ["x", "view", "xmlns", "script"], IsPartName name.toList := by
    simp only [List.forall_mem_cons, List.not_mem_nil, IsEmpty.forall_iff, implies_true, and_true]
    exact ⟨⟨by simp, rfl, forall_of_all rfl⟩, ⟨by simp, rfl, forall_of_all rfl⟩,
      ⟨by simp, rfl, forall_of_all rfl⟩, ⟨by simp, rfl, forall_of_all rfl⟩⟩
  have hname : ∀ qualifier ∈ ["x", "view", "xmlns", "script"],
      ∀ localName ∈ ["x", "view", "xmlns", "script"],
      WrittenName.IsValid ⟨qualifier, localName, true⟩ :=
    fun _ hq _ h => ⟨hpart _ h, fun _ => ⟨rfl, hpart _ hq⟩⟩
  have hview := hname "x" (by simp) "view" (by simp)
  have hscript := hname "x" (by simp) "script" (by simp)
  have hdeclaration : SpelledAttribute.IsValid
      ⟨[' '], ⟨"xmlns", "x", true⟩, [], [], '"', "xview".toList⟩ :=
    ⟨by simp, forall_of_all rfl, hname _ (by simp) _ (by simp), forall_of_all rfl,
      forall_of_all rfl, .inl rfl, forall_of_all rfl, _, rfl⟩
  have hdata : ∀ cs ∈ ["a = 1 --".toList, "\n".toList, "a = 2".toList], Piece.IsCharData cs := by
    simp only [List.forall_mem_cons, List.not_mem_nil, IsEmpty.forall_iff, implies_true, and_true]
    exact ⟨⟨by simp, forall_of_all rfl, by decide, _, rfl⟩,
      ⟨by simp, forall_of_all rfl, by decide, _, rfl⟩,
      ⟨by simp, forall_of_all rfl, by decide, _, rfl⟩⟩
  have hcomment : Piece.IsCommentText " ".toList := ⟨forall_of_all rfl, by decide, by decide⟩
  have hroot : commented.root.IsValid := by
    rw [commented, Piece.IsValid]
    refine ⟨⟨hview, by simpa using hdeclaration, by simp⟩, ?_, ⟨hview, rfl, rfl, by simp⟩⟩
    simp only [Piece.AreValid, Piece.IsValid, Piece.isChars, List.head?_cons, Option.any_some,
      List.head?_nil, Option.any_none, Bool.false_eq_true, IsEmpty.forall_iff, implies_true,
      and_true]
    exact ⟨⟨hscript, by simp, by simp⟩, ⟨hdata _ (by simp), hcomment, hdata _ (by simp), hcomment,
      hdata _ (by simp)⟩, ⟨hscript, rfl, rfl, by simp⟩⟩
  exact ⟨by simp [commented], ⟨trivial, by simp [commented]⟩, ⟨hroot, rfl⟩,
    ⟨trivial, by simp [commented]⟩⟩


/-- What the root of the view declares. -/
def commentedNamespaces : NamespaceTable :=
  [("x", { target := some "xview", url := some "xview" })]

/-- The view is a group with a script in it. -/
theorem exists_script_commented : ∃ root x,
    Document.parse (String.ofList commented.spell) = .ok root
      ∧ root.namespaces = .ok commentedNamespaces ∧ Visits commentedNamespaces root [0] x
      ∧ IsDirective commentedNamespaces x.name scriptTag := by
  obtain ⟨root, hroot⟩ : ∃ root, Document.parse (String.ofList commented.spell) = .ok root :=
    ⟨_, rfl⟩
  have hread : (Document.parse (String.ofList commented.spell)).toOption.map (fun e =>
      (e.name, e.writtenAttributes, e.children[0]?.map fun n => match n with
        | .element name _ _ => some name
        | .text _ => none))
      = some (⟨some "x", "view"⟩, [("xmlns:x", "xview")],
        some (some ⟨some "x", "script"⟩)) := by decide +kernel
  rw [hroot] at hread
  simp only [Except.toOption, Option.map_some, Option.some.injEq, Prod.mk.injEq] at hread
  obtain ⟨hname, hattributes, hchild⟩ := hread
  have hdirective : ∀ localName tag, Vocabulary.sameName localName tag = true →
      IsDirective commentedNamespaces ⟨some "x", localName⟩ tag :=
    fun _ _ h => ⟨_, ⟨"x", rfl, rfl⟩, by decide, h⟩
  rw [Option.map_eq_some_iff] at hchild
  obtain ⟨n, hn, helement⟩ := hchild
  cases n with
  | text content => cases helement
  | element name attributes children =>
    cases helement
    refine ⟨root, ⟨_, attributes, children⟩, hroot, ?_, .child .root ?_ hn, ?_⟩
    · rw [Element.namespaces, hattributes]
      have hresolve : NamespaceTable.resolve [("xmlns:x", "xview")] = .ok commentedNamespaces := by
        decide +kernel
      rw [hresolve]
    · rw [hname]
      exact .group (hdirective _ _ (by decide))
    · exact hdirective _ _ (by decide)

theorem scripts_emitted_commented : commented.IsValid ∧ ∃ root x content,
    Document.parse (String.ofList commented.spell) = .ok root
      ∧ root.namespaces = .ok commentedNamespaces ∧ Visits commentedNamespaces root [0] x
      ∧ IsDirective commentedNamespaces x.name scriptTag
      ∧ Piece.contentAt [0] commented.root.content = some content
      ∧ EmitsScript commentedNamespaces "/page.xview" root [0] x
        (String.ofList (Piece.keptData content))
      ∧ (Piece.keptData content = Piece.characterData content
        ↔ ∀ run ∈ Piece.runs content, Piece.isBlankRun run → run = []) := by
  obtain ⟨root, x, hroot, hnamespaces, hx, hscript⟩ := exists_script_commented
  obtain ⟨content, hcontent, hemits, -, hwhole⟩ := (scripts_emitted hroot).2 commented
    commented_isValid String.toList_ofList.symm commentedNamespaces "/page.xview" [0] x hx hscript
  exact ⟨commented_isValid, root, x, content, hroot, hnamespaces, hx, hscript, hcontent, hemits,
    hwhole⟩

/-- The line end after a comment of the script stands alone between two comments of the document
    and is lost, so that the comment takes in the rest of the script. -/
theorem script_commented : String.ofList commented.spell
      = "<x:view xmlns:x=\"xview\"><x:script>a = 1 --<!-- -->\n<!-- -->a = 2</x:script></x:view>"
    ∧ (∃ content, Piece.contentAt [0] commented.root.content = some content
      ∧ String.ofList (Piece.characterData content) = "a = 1 --\na = 2")
    ∧ (View.compile 0 "/page.xview" (String.ofList commented.spell)).toOption.map (·.source)
      = some "\na = 1 --a = 2\n" :=
  ⟨rfl, ⟨_, rfl, by simp only [Piece.characterData]; rfl⟩, by decide +kernel⟩

end ScriptedViews.Code

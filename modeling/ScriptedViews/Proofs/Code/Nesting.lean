import ScriptedViews.Proofs.Code.Tree
import ScriptedViews.Proofs.Script.Literal

set_option autoImplicit false

/-! # Calls inside the content of calls

The code of a call holds the source of its content as a literal, so the code of a call that stands
in the content of others is escaped once for each of them. However deep it stands, the lexer gets
its arguments back, one literal after the other, and the source of its content depends on the
element's children alone. -/

namespace ScriptedViews.Code

open Script (Bytes utf8 utf8_append scanToken scanToken_literal)

/-! ## Places -/

/-- An element that calls a view, and where it stands. -/
structure Place where
  name : QName
  attributes : List Attribute
  children : List Node
  /-- The prefix of the name, and the directory that the prefix stands for. -/
  qualifier : String
  url : String
  /-- The tokens of all that stands before the element. -/
  before : List Token

namespace Place

/-- The element as a node. -/
def toNode (p : Place) : Node :=
  .element p.name p.attributes p.children

/-- The same place with more tokens before it. -/
def after (ts : List Token) (p : Place) : Place :=
  { p with before := ts ++ p.before }

/-- Whether a place is one among nodes, outside the content of any call. -/
inductive Among (namespaces : NamespaceTable) (uri : String) : Place → List Node → Prop where
  | here {p : Place} {rest : List Node}
      (hrole : roleOf namespaces p.name = .ok (.invocation p.qualifier p.url))
      (hbefore : p.before = []) : Among namespaces uri p (p.toNode :: rest)
  | later {p : Place} {n : Node} {rest : List Node} {ts : List Token}
      (hn : nodeTokens namespaces uri n = .ok ts) (hp : Among namespaces uri p rest) :
      Among namespaces uri (p.after ts) (n :: rest)
  | markup {p : Place} {name : QName} {attributes : List Attribute} {children rest : List Node}
      (hrole : roleOf namespaces name = .ok .markup) (hp : Among namespaces uri p children) :
      Among namespaces uri (p.after (startTokens name.render attributes ++ outputTokens ">"))
        (.element name attributes children :: rest)
  | group {p : Place} {name : QName} {attributes : List Attribute} {children rest : List Node}
      (hrole : roleOf namespaces name = .ok .group) (hp : Among namespaces uri p children) :
      Among namespaces uri p (.element name attributes children :: rest)

/-- Whether a place is one in the content of others, each of which is in that of the one before. -/
def Within (namespaces : NamespaceTable) (uri : String) (p : Place) : List Place → List Node → Prop
  | [], nodes => p.Among namespaces uri nodes
  | q :: outer, nodes => q.Among namespaces uri nodes ∧ Within namespaces uri p outer q.children

/-- The statement that the element at a place becomes, with the tokens of its children. -/
def statement (uri : String) (p : Place) (content : List Token) : String :=
  invocationStatement (Uri.anchor uri p.url) p.name.localName
    (callAttributes p.qualifier p.attributes) (contentSource content)

end Place

/-! ## Reading a call back -/

/-- Whether the statement of the element at a place follows some code and is read as a call with
    these four arguments: the first, the second and the last are literals with these bytes, and
    each ends where the next part of the statement starts. -/
def ReadsCall (code lead base tag attributes content : Bytes) : Prop :=
  ∃ first second last rest : Bytes,
    code = lead ++ utf8 "xview:execute(" ++ first
      ∧ ∀ line,
        scanToken line first = ⟨.text base, line, utf8 ", " ++ second⟩
          ∧ scanToken line second = ⟨.text tag, line, utf8 ", " ++ attributes ++ utf8 ", " ++ last⟩
          ∧ scanToken line last = ⟨.text content, line, utf8 ");\n" ++ rest⟩

/-- Whether the call at a place is read in some code, where `lead` stands before the code of the
    nodes: in the code itself, or in the last argument of the call that it is in the content of. -/
def Place.Reads (uri : String) (p : Place) (content : Bytes) : List Place → Bytes → Bytes → Prop
  | [], lead, code =>
    ReadsCall code (lead ++ utf8 (emit p.before)) (utf8 (Uri.anchor uri p.url))
      (utf8 p.name.localName) (utf8 (callAttributes p.qualifier p.attributes)) content
  | q :: outer, lead, code =>
    ∃ inner : Bytes,
      ReadsCall code (lead ++ utf8 (emit q.before)) (utf8 (Uri.anchor uri q.url))
          (utf8 q.name.localName) (utf8 (callAttributes q.qualifier q.attributes)) inner
        ∧ p.Reads uri content outer (utf8 "function()\n") inner

/-- A statement that calls a view is read back argument by argument. -/
theorem readsCall_invocationStatement (lead rest : Bytes) (base tag attributes content : String) :
    ReadsCall (lead ++ utf8 (invocationStatement base tag attributes content) ++ rest) lead
      (utf8 base) (utf8 tag) (utf8 attributes) (utf8 content) := by
  refine ⟨_, _, _, rest, ?_, fun line =>
    ⟨scanToken_literal base line _, scanToken_literal tag line _, scanToken_literal content line _⟩⟩
  simp only [invocationStatement, show Vocabulary.bridgeBinding = "xview" from rfl, utf8_append,
    List.append_assoc]
  rw [show utf8 "xview:execute(" = utf8 "xview" ++ utf8 ":execute(" by decide]
  simp only [List.append_assoc]

/-! ## Tokens around a place -/

/-- The tokens of nodes are those before a place, the statement of the element there, and more. -/
theorem Place.Among.tokens {namespaces : NamespaceTable} {uri : String} {p : Place}
    {nodes : List Node} (hp : p.Among namespaces uri nodes) {ts : List Token}
    (hts : nodesTokens namespaces uri nodes = .ok ts) :
    ∃ content behind, nodesTokens namespaces uri p.children = .ok content
      ∧ ts = p.before ++ .statement (p.statement uri content) :: behind := by
  induction hp generalizing ts with
  | @here p rest hrole hbefore =>
    obtain ⟨us, behind, hus, -, rfl⟩ := exists_of_nodesTokens_cons hts
    rw [toNode, nodeTokens, hrole] at hus
    obtain ⟨content, hcontent, rfl⟩ := exists_of_map hus
    exact ⟨content, behind, hcontent, by rw [hbefore]; rfl⟩
  | @later p n rest us hn hp ih =>
    obtain ⟨us', vs, hus, hvs, rfl⟩ := exists_of_nodesTokens_cons hts
    obtain rfl : us = us' := Except.ok.inj (hn.symm.trans hus)
    obtain ⟨content, behind, hcontent, rfl⟩ := ih hvs
    exact ⟨content, behind, hcontent, by rw [after, List.append_assoc]; rfl⟩
  | @markup p name attributes children rest hrole hp ih =>
    have hne : children.isEmpty = false := by
      cases hp <;> rfl
    obtain ⟨us, vs, hus, -, rfl⟩ := exists_of_nodesTokens_cons hts
    rw [nodeTokens, hrole] at hus
    simp only [hne, Bool.false_eq_true, if_false] at hus
    obtain ⟨ws, hws, rfl⟩ := exists_of_map hus
    obtain ⟨content, behind, hcontent, rfl⟩ := ih hws
    refine ⟨content, behind ++ endTokens name.render ++ vs, hcontent, ?_⟩
    simp only [after, List.append_assoc, List.cons_append]
    rfl
  | @group p name attributes children rest hrole hp ih =>
    obtain ⟨us, vs, hus, -, rfl⟩ := exists_of_nodesTokens_cons hts
    rw [nodeTokens, hrole] at hus
    obtain ⟨content, behind, hcontent, rfl⟩ := ih hus
    exact ⟨content, behind ++ vs, hcontent, by rw [List.append_assoc, List.cons_append]⟩

/-- The call at a place among nodes is read in the code of the nodes, whatever stands around it. -/
theorem Place.Among.readsCall {namespaces : NamespaceTable} {uri : String} {p : Place}
    {nodes : List Node} (hp : p.Among namespaces uri nodes) {ts : List Token}
    (hts : nodesTokens namespaces uri nodes = .ok ts) (lead rest : Bytes) :
    ∃ content, nodesTokens namespaces uri p.children = .ok content
      ∧ ReadsCall (lead ++ utf8 (emit ts) ++ rest) (lead ++ utf8 (emit p.before))
        (utf8 (Uri.anchor uri p.url)) (utf8 p.name.localName)
        (utf8 (callAttributes p.qualifier p.attributes)) (utf8 (contentSource content)) := by
  obtain ⟨content, behind, hcontent, rfl⟩ := hp.tokens hts
  refine ⟨content, hcontent, ?_⟩
  have h := readsCall_invocationStatement (lead ++ utf8 (emit p.before)) (utf8 (emit behind) ++ rest)
    (Uri.anchor uri p.url) p.name.localName (callAttributes p.qualifier p.attributes)
    (contentSource content)
  rw [emit_append_statement, utf8_append, utf8_append, statement]
  simpa only [List.append_assoc] using h

/-- The call at a place is read through all calls that it is in the content of. -/
theorem Place.Within.reads {namespaces : NamespaceTable} {uri : String} {p : Place}
    {outer : List Place} {nodes : List Node} (hp : p.Within namespaces uri outer nodes)
    {ts : List Token} (hts : nodesTokens namespaces uri nodes = .ok ts) (lead rest : Bytes) :
    ∃ content, nodesTokens namespaces uri p.children = .ok content
      ∧ p.Reads uri (utf8 (contentSource content)) outer lead (lead ++ utf8 (emit ts) ++ rest) := by
  induction outer generalizing nodes ts lead rest with
  | nil => exact Among.readsCall hp hts lead rest
  | cons q outer ih =>
    obtain ⟨hq, hp⟩ := hp
    obtain ⟨inner, hinner, hcall⟩ := hq.readsCall hts lead rest
    obtain ⟨content, hcontent, hreads⟩ := ih hp hinner (utf8 "function()\n") (utf8 "end")
    refine ⟨content, hcontent, utf8 (contentSource inner), hcall, ?_⟩
    rw [contentSource, utf8_append, utf8_append]
    exact hreads

/-! ## The whole view -/

end ScriptedViews.Code

import ScriptedViews.Proofs.Code.Roles
import ScriptedViews.Proofs.Code.Tree

set_option autoImplicit false

/-! # Tags that mean nothing

A view has no code if one of its elements has a name that means nothing, as long as the element is
in a place that becomes code: what stands in scripts and in the places of content is not looked at.
The error names the first such element in the order of the document, however deep in the content of
calls it stands. -/

namespace ScriptedViews.Code

/-! ## Visited elements -/

/-- The elements of a tree that are looked at, with the paths that lead to them: the root, and each
    child of an element that is looked at and entered. A path gives the number of the child to go to
    at each step. -/
inductive Visits (namespaces : NamespaceTable) (root : Element) : List Nat → Element → Prop where
  | root : Visits namespaces root [] root
  | child {path : List Nat} {e child : Element} {i : Nat} (he : Visits namespaces root path e)
      (hentered : IsEntered namespaces e.name) (hchild : e.children[i]? = some child.toNode) :
      Visits namespaces root (path ++ [i]) child

/-- Whether a path leads to an element that stands no later in the document than the one that
    another path leads to: parents stand before their children, and these in order. -/
inductive NoLater : List Nat → List Nat → Prop where
  | parent (path : List Nat) : NoLater [] path
  | sibling {i j : Nat} (h : i < j) (path path' : List Nat) : NoLater (i :: path) (j :: path')
  | inside {path path' : List Nat} (i : Nat) (h : NoLater path path') :
      NoLater (i :: path) (i :: path')

theorem NoLater.antisymm {path path' : List Nat} (h : NoLater path path')
    (h' : NoLater path' path) : path = path' := by
  induction h with
  | parent path =>
    cases h' with
    | parent => rfl
  | sibling hlt =>
    cases h' with
    | sibling hlt' => exact absurd (Nat.lt_trans hlt hlt') (Nat.lt_irrefl _)
    | inside => exact absurd hlt (Nat.lt_irrefl _)
  | inside i _ ih =>
    cases h' with
    | sibling hlt => exact absurd hlt (Nat.lt_irrefl _)
    | inside _ h' => rw [ih h']

variable {namespaces : NamespaceTable} {uri : String}

/-- The elements that are looked at among some nodes. -/
def VisitsAmong (namespaces : NamespaceTable) (nodes : List Node) (path : List Nat) (x : Element) :
    Prop :=
  ∃ i rest child, path = i :: rest ∧ nodes[i]? = some (Element.toNode child)
    ∧ Visits namespaces child rest x

theorem Visits.descend {e child x : Element} {i : Nat} {path : List Nat}
    (hentered : IsEntered namespaces e.name) (hchild : e.children[i]? = some child.toNode)
    (h : Visits namespaces child path x) : Visits namespaces e (i :: path) x := by
  induction h with
  | root => exact .child .root hentered hchild
  | child _ hentered hchild ih => exact .child ih hentered hchild

/-- A path to an element is empty, or goes to a child of the root first. -/
theorem visits_iff {e x : Element} {path : List Nat} : Visits namespaces e path x
    ↔ path = [] ∧ x = e
      ∨ IsEntered namespaces e.name ∧ VisitsAmong namespaces e.children path x := by
  constructor
  · intro h
    induction h with
    | root => exact .inl ⟨rfl, rfl⟩
    | @child path y z i _ hentered hchild ih =>
      rcases ih with ⟨rfl, rfl⟩ | ⟨he, j, rest, top, rfl, htop, hvisits⟩
      · exact .inr ⟨hentered, i, [], z, rfl, hchild, .root⟩
      · exact .inr ⟨he, j, rest ++ [i], top, rfl, htop, .child hvisits hentered hchild⟩
  · rintro (⟨rfl, rfl⟩ | ⟨he, i, rest, child, rfl, hchild, h⟩)
    · exact .root
    · exact h.descend he hchild

theorem toNode_injective : Function.Injective Element.toNode := by
  rintro ⟨name, attributes, children⟩ ⟨name', attributes', children'⟩ h
  simpa [Element.toNode] using h

/-- A path leads to one element at most. -/
theorem Visits.unique {e x y : Element} {path : List Nat} (hx : Visits namespaces e path x)
    (hy : Visits namespaces e path y) : x = y := by
  induction path generalizing e with
  | nil =>
    rcases visits_iff.1 hx with ⟨-, rfl⟩ | ⟨-, i, rest, child, hpath, -⟩
    · rcases visits_iff.1 hy with ⟨-, rfl⟩ | ⟨-, i, rest, child, hpath, -⟩
      · rfl
      · cases hpath
    · cases hpath
  | cons i path ih =>
    rcases visits_iff.1 hx with ⟨hpath, -⟩ | ⟨-, j, rest, child, hpath, hchild, hx⟩
    · cases hpath
    cases hpath
    rcases visits_iff.1 hy with ⟨hpath, -⟩ | ⟨-, k, rest', child', hpath, hchild', hy⟩
    · cases hpath
    cases hpath
    obtain rfl := toNode_injective (Option.some.inj (hchild.symm.trans hchild'))
    exact ih hx hy

/-- The elements that are looked at in a node. -/
def NodeVisits (namespaces : NamespaceTable) (n : Node) (path : List Nat) (x : Element) : Prop :=
  ∃ e, n = Element.toNode e ∧ Visits namespaces e path x

section Visited

variable {path : List Nat} {x : Element}

theorem nodeVisits_toNode (e : Element) : NodeVisits namespaces e.toNode = Visits namespaces e := by
  funext path x
  refine propext ⟨?_, fun h => ⟨e, rfl, h⟩⟩
  rintro ⟨e', he, h⟩
  rwa [toNode_injective he]

theorem nodeVisits_element {name : QName} {attributes : List Attribute} {children : List Node} :
    NodeVisits namespaces (.element name attributes children) path x
      ↔ path = [] ∧ x = ⟨name, attributes, children⟩
        ∨ IsEntered namespaces name ∧ VisitsAmong namespaces children path x := by
  have h := @nodeVisits_toNode namespaces ⟨name, attributes, children⟩
  rw [show Node.element name attributes children = Element.toNode ⟨name, attributes, children⟩ from
    rfl, h]
  exact visits_iff

theorem not_nodeVisits_text {content : String} :
    ¬ NodeVisits namespaces (.text content) path x := by
  rintro ⟨e, he, -⟩
  cases he

theorem not_visitsAmong_nil : ¬ VisitsAmong namespaces [] path x := by
  rintro ⟨i, rest, child, -, hchild, -⟩
  cases hchild

theorem visitsAmong_cons {n : Node} {nodes : List Node} :
    VisitsAmong namespaces (n :: nodes) path x
      ↔ (∃ rest, path = 0 :: rest ∧ NodeVisits namespaces n rest x)
        ∨ ∃ i rest, path = (i + 1) :: rest ∧ VisitsAmong namespaces nodes (i :: rest) x := by
  constructor
  · rintro ⟨i, rest, child, rfl, hchild, h⟩
    cases i with
    | zero => exact .inl ⟨rest, rfl, child, Option.some.inj hchild, h⟩
    | succ i => exact .inr ⟨i, rest, rfl, i, rest, child, rfl, hchild, h⟩
  · rintro (⟨rest, rfl, child, rfl, h⟩ | ⟨i, rest, rfl, j, rest', child, hpath, hchild, h⟩)
    · exact ⟨0, rest, child, rfl, rfl, h⟩
    · cases hpath
      exact ⟨i + 1, rest, child, rfl, hchild, h⟩

end Visited

/-! ## The first unknown tag -/

/-- Whether an element is the first, among those that are visited, whose name means nothing. -/
structure IsFirstUnknown (namespaces : NamespaceTable) (visits : List Nat → Element → Prop)
    (path : List Nat) (x : Element) : Prop where
  visited : visits path x
  unknown : IsUnknown namespaces x.name
  first : ∀ path' y, visits path' y → IsUnknown namespaces y.name → NoLater path path'

/-- Whether an outcome is what has to come of the elements that are visited: an error that names the
    first whose name means nothing, if there is one. -/
def Answers {α : Type} (namespaces : NamespaceTable) (visits : List Nat → Element → Prop) :
    Except CompileError α → Prop
  | .ok _ => ∀ path x, visits path x → ¬ IsUnknown namespaces x.name
  | .error e => ∃ path x, IsFirstUnknown namespaces visits path x ∧ e = .unknownTag x.name.render

/-! ## Outcomes of one node and of several -/

namespace Answers

variable {α β : Type} {r : Except CompileError α} {visits : List Nat → Element → Prop}
  {name : QName} {attributes : List Attribute} {n : Node} {children nodes : List Node}

theorem map (h : Answers namespaces visits r) (f : α → β) :
    Answers namespaces visits (r.map f) := by
  cases r with
  | ok a => exact h
  | error e => exact h

/-- Nothing in an element that is not entered is looked at. -/
theorem leaf (hknown : ¬ IsUnknown namespaces name) (hleft : ¬ IsEntered namespaces name) (a : α) :
    Answers namespaces (NodeVisits namespaces (.element name attributes children))
      (.ok a : Except CompileError α) := by
  intro path x hx
  rcases nodeVisits_element.1 hx with ⟨-, rfl⟩ | ⟨hentered, -⟩
  · exact hknown
  · exact absurd hentered hleft

/-- An element stands before what is in it. -/
theorem unknown (h : IsUnknown namespaces name) :
    Answers namespaces (NodeVisits namespaces (.element name attributes children))
      (.error (.unknownTag name.render) : Except CompileError α) :=
  ⟨[], ⟨name, attributes, children⟩, ⟨nodeVisits_element.2 (.inl ⟨rfl, rfl⟩), h,
    fun path _ _ _ => .parent path⟩, rfl⟩

theorem entered (hknown : ¬ IsUnknown namespaces name) (hentered : IsEntered namespaces name)
    (h : Answers namespaces (VisitsAmong namespaces children) r) :
    Answers namespaces (NodeVisits namespaces (.element name attributes children)) r := by
  cases r with
  | ok a =>
    intro path x hx
    rcases nodeVisits_element.1 hx with ⟨-, rfl⟩ | ⟨-, hx⟩
    · exact hknown
    · exact h path x hx
  | error e =>
    obtain ⟨path, x, hfirst, rfl⟩ := h
    refine ⟨path, x, ⟨nodeVisits_element.2 (.inr ⟨hentered, hfirst.visited⟩), hfirst.unknown, ?_⟩,
      rfl⟩
    intro path' y hy hunknown
    rcases nodeVisits_element.1 hy with ⟨-, rfl⟩ | ⟨-, hy⟩
    · exact absurd hunknown hknown
    · exact hfirst.first path' y hy hunknown

theorem cons_error {e : CompileError}
    (h : Answers namespaces (NodeVisits namespaces n) (.error e : Except CompileError α)) :
    Answers namespaces (VisitsAmong namespaces (n :: nodes))
      (.error e : Except CompileError β) := by
  obtain ⟨path, x, hfirst, rfl⟩ := h
  refine ⟨0 :: path, x,
    ⟨visitsAmong_cons.2 (.inl ⟨path, rfl, hfirst.visited⟩), hfirst.unknown, ?_⟩, rfl⟩
  intro path' y hy hunknown
  rcases visitsAmong_cons.1 hy with ⟨rest, rfl, hbelow⟩ | ⟨i, rest, rfl, -⟩
  · exact .inside 0 (hfirst.first rest y hbelow hunknown)
  · exact .sibling (Nat.succ_pos i) path rest

theorem cons_ok {a : β}
    (h : Answers namespaces (NodeVisits namespaces n) (.ok a : Except CompileError β))
    (hrest : Answers namespaces (VisitsAmong namespaces nodes) r) :
    Answers namespaces (VisitsAmong namespaces (n :: nodes)) r := by
  cases r with
  | ok b =>
    intro path x hx
    rcases visitsAmong_cons.1 hx with ⟨rest, rfl, hbelow⟩ | ⟨i, rest, rfl, hbelow⟩
    · exact h rest x hbelow
    · exact hrest (i :: rest) x hbelow
  | error e =>
    obtain ⟨path, x, hfirst, rfl⟩ := hrest
    have hvisited := hfirst.visited
    obtain ⟨i, rest, -, rfl, -⟩ := hvisited
    refine ⟨(i + 1) :: rest, x, ⟨visitsAmong_cons.2 (.inr ⟨i, rest, rfl, hfirst.visited⟩),
      hfirst.unknown, ?_⟩, rfl⟩
    intro path' y hy hunknown
    rcases visitsAmong_cons.1 hy with ⟨rest', rfl, hbelow⟩ | ⟨j, rest', rfl, hbelow⟩
    · exact absurd hunknown (h rest' y hbelow)
    · cases hfirst.first (j :: rest') y hbelow hunknown with
      | sibling hlt => exact .sibling (Nat.succ_lt_succ hlt) rest rest'
      | inside _ hlater => exact .inside (i + 1) hlater

end Answers

/-! ## Code and errors -/

mutual

/-- What comes of a node is told by the elements that are looked at in it. -/
theorem answers_nodeTokens (n : Node) :
    Answers namespaces (NodeVisits namespaces n) (nodeTokens namespaces uri n) := by
  cases n with
  | text content =>
    intro path x hx
    exact absurd hx not_nodeVisits_text
  | element name attributes children =>
    have hchildren := answers_nodesTokens children
    rw [nodeTokens]
    cases hr : roleOf namespaces name with
    | error e =>
      obtain ⟨hunknown, rfl⟩ := roleOf_eq_error_iff.1 hr
      exact .unknown hunknown
    | ok role =>
      have hknown : ¬ IsUnknown namespaces name := fun h => by
        rw [h.roleOf_eq] at hr
        cases hr
      cases role with
      | markup =>
        have hentered := isEntered_iff.2 (.inl hr)
        simp only
        split
        · rename_i hempty
          rw [List.isEmpty_iff.1 hempty]
          exact .entered hknown hentered fun _ _ hx => absurd hx not_visitsAmong_nil
        · exact .entered hknown hentered (hchildren.map _)
      | script => exact .leaf hknown (by simp [isEntered_iff, hr]) _
      | group => exact .entered hknown (isEntered_iff.2 (.inr (.inl hr))) hchildren
      | childContent => exact .leaf hknown (by simp [isEntered_iff, hr]) _
      | invocation q url =>
        exact .entered hknown (isEntered_iff.2 (.inr (.inr ⟨q, url, hr⟩))) (hchildren.map _)

/-- What comes of some nodes is told by the elements that are looked at among them. -/
theorem answers_nodesTokens (nodes : List Node) :
    Answers namespaces (VisitsAmong namespaces nodes) (nodesTokens namespaces uri nodes) := by
  cases nodes with
  | nil =>
    intro path x hx
    exact absurd hx not_visitsAmong_nil
  | cons n nodes =>
    have hn := answers_nodeTokens n
    rw [nodesTokens]
    cases ht : nodeTokens namespaces uri n with
    | error e =>
      rw [ht] at hn
      exact .cons_error hn
    | ok ts =>
      rw [ht] at hn
      exact .cons_ok hn ((answers_nodesTokens nodes).map _)

end

/-- A view has no code if and only if an element that is looked at has a name that means nothing.
    The error then names the first such element in the order of the document. -/
theorem generate_error_iff (root : Element) (namespaces : NamespaceTable) (uri : String) :
    ((∃ e, generate root namespaces uri = .error e)
        ↔ ∃ path x, Visits namespaces root path x ∧ IsUnknown namespaces x.name)
      ∧ ∀ e, generate root namespaces uri = .error e
        ↔ ∃ path x, IsFirstUnknown namespaces (Visits namespaces root) path x
          ∧ e = .unknownTag x.name.render := by
  have h : Answers namespaces (Visits namespaces root) (generate root namespaces uri) := by
    rw [generate_eq, ← nodeVisits_toNode]
    exact (answers_nodeTokens root.toNode).map emit
  cases hr : generate root namespaces uri with
  | ok code =>
    rw [hr] at h
    constructor
    · refine iff_of_false (by rintro ⟨e, he⟩; cases he) ?_
      rintro ⟨path, x, hx, hunknown⟩
      exact h path x hx hunknown
    · intro e
      refine iff_of_false (by intro he; cases he) ?_
      rintro ⟨path, x, hfirst, -⟩
      exact h path x hfirst.visited hfirst.unknown
  | error e =>
    rw [hr] at h
    obtain ⟨path, x, hfirst, rfl⟩ := h
    refine ⟨iff_of_true ⟨_, rfl⟩ ⟨path, x, hfirst.visited, hfirst.unknown⟩, fun e => ⟨?_, ?_⟩⟩
    · intro he
      cases he
      exact ⟨path, x, hfirst, rfl⟩
    · rintro ⟨path', y, hfirst', rfl⟩
      obtain rfl : path = path' :=
        (hfirst.first path' y hfirst'.visited hfirst'.unknown).antisymm
          (hfirst'.first path x hfirst.visited hfirst.unknown)
      rw [hfirst.visited.unique hfirst'.visited]

end ScriptedViews.Code

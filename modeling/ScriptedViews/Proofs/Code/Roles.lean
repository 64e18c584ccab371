import ScriptedViews.Code.Generate

set_option autoImplicit false

/-! # What an element can be

The name of an element and the table of namespaces decide together what the element is. Here the
kinds of names are told apart one by one: those that mean nothing, those whose children are code of
their own, and the directives. -/

namespace ScriptedViews.Code

open Vocabulary (sameName scriptTag viewTag processChildNodesTag)

/-! ## Kinds of names -/

variable (namespaces : NamespaceTable) (name : QName)

/-- Whether the prefix of a name is in the table, with this namespace. -/
def HasNamespace (ns : Namespace) : Prop :=
  ∃ q, name.qualifier = some q ∧ namespaces.get? q = some ns

/-- Whether a name is the one of a directive: its prefix means the template namespace, and its local
    name is `tag` but for the case of ASCII letters. -/
def IsDirective (tag : String) : Prop :=
  ∃ ns, HasNamespace namespaces name ns ∧ ns.isTemplate = true
    ∧ sameName name.localName tag = true

/-- Whether a name means nothing. -/
inductive IsUnknown : Prop where
  /-- Its prefix is not in the table. -/
  | undeclared {q : String} (hq : name.qualifier = some q) (hnone : namespaces.get? q = none)
  /-- Its prefix means the template namespace, and there is no such directive. -/
  | directive {ns : Namespace} (hns : HasNamespace namespaces name ns)
      (htemplate : ns.isTemplate = true) (hscript : sameName name.localName scriptTag = false)
      (hview : sameName name.localName viewTag = false)
      (hplace : sameName name.localName processChildNodesTag = false)
  /-- Its prefix means another namespace, whose views are nowhere. -/
  | unlocated {ns : Namespace} (hns : HasNamespace namespaces name ns)
      (hother : ns.isTemplate = false) (hurl : ns.url = none)

/-- Whether the children of an element with this name are code of their own: it is unprefixed, it
    groups them, or it calls a view with them. -/
inductive IsEntered : Prop where
  | markup (hq : name.qualifier = none)
  | group (hview : IsDirective namespaces name viewTag)
  | invocation {ns : Namespace} {url : String} (hns : HasNamespace namespaces name ns)
      (hother : ns.isTemplate = false) (hurl : ns.url = some url)

/-! ## Roles -/

/-- The roles that the kinds of names have. -/
inductive HasRole : Except CompileError Role → Prop where
  | markup (hq : name.qualifier = none) : HasRole (.ok .markup)
  | script (h : IsDirective namespaces name scriptTag) : HasRole (.ok .script)
  | group (h : IsDirective namespaces name viewTag) : HasRole (.ok .group)
  | childContent (h : IsDirective namespaces name processChildNodesTag) :
      HasRole (.ok .childContent)
  | invocation {q url : String} {ns : Namespace} (hq : name.qualifier = some q)
      (hns : namespaces.get? q = some ns) (hother : ns.isTemplate = false)
      (hurl : ns.url = some url) : HasRole (.ok (.invocation q url))
  | unknown (h : IsUnknown namespaces name) : HasRole (.error (.unknownTag name.render))

theorem hasRole_roleOf : HasRole namespaces name (roleOf namespaces name) := by
  unfold roleOf
  split
  · next hq => exact .markup hq
  · next q hq =>
    split
    · next hns => exact .unknown (.undeclared hq hns)
    · next ns hns =>
      have hname : HasNamespace namespaces name ns := ⟨q, hq, hns⟩
      split
      · next htemplate =>
        split
        · next hscript => exact .script ⟨ns, hname, htemplate, hscript⟩
        · next hscript =>
          split
          · next hview => exact .group ⟨ns, hname, htemplate, hview⟩
          · next hview =>
            split
            · next hplace => exact .childContent ⟨ns, hname, htemplate, hplace⟩
            · next hplace =>
              exact .unknown (.directive hname htemplate (Bool.eq_false_iff.2 hscript)
                (Bool.eq_false_iff.2 hview) (Bool.eq_false_iff.2 hplace))
      · next hother =>
        have hother : ns.isTemplate = false := Bool.eq_false_iff.2 hother
        split
        · next url hurl => exact .invocation hq hns hother hurl
        · next hurl => exact .unknown (.unlocated hname hother hurl)

variable {namespaces name}

theorem IsUnknown.roleOf_eq (h : IsUnknown namespaces name) :
    roleOf namespaces name = .error (.unknownTag name.render) := by
  cases h with
  | undeclared hq hnone => simp [roleOf, hq, hnone]
  | directive hns htemplate hscript hview hplace =>
    obtain ⟨q, hq, hns⟩ := hns
    simp [roleOf, hq, hns, htemplate, hscript, hview, hplace]
  | unlocated hns hother hurl =>
    obtain ⟨q, hq, hns⟩ := hns
    simp [roleOf, hq, hns, hother, hurl]

/-- The names without a role are those that mean nothing, and the error shows the name. -/
theorem roleOf_eq_error_iff {e : CompileError} : roleOf namespaces name = .error e
    ↔ IsUnknown namespaces name ∧ e = .unknownTag name.render := by
  constructor
  · intro he
    have hrole := hasRole_roleOf namespaces name
    rw [he] at hrole
    cases hrole with
    | unknown h => exact ⟨h, rfl⟩
  · rintro ⟨h, rfl⟩
    exact h.roleOf_eq

/-- A local name is the name of one directive at most. -/
theorem not_script_of_view {s : String} (h : sameName s viewTag = true) :
    sameName s scriptTag = false := by
  have hs : Vocabulary.lowerAscii s = Vocabulary.lowerAscii viewTag := eq_of_beq h
  rw [sameName, hs]
  decide

theorem IsDirective.roleOf_eq_group (h : IsDirective namespaces name viewTag) :
    roleOf namespaces name = .ok .group := by
  obtain ⟨ns, ⟨q, hq, hns⟩, htemplate, hview⟩ := h
  simp [roleOf, hq, hns, htemplate, hview, not_script_of_view hview]

theorem IsDirective.roleOf_eq_script (h : IsDirective namespaces name scriptTag) :
    roleOf namespaces name = .ok .script := by
  obtain ⟨ns, ⟨q, hq, hns⟩, htemplate, hscript⟩ := h
  simp [roleOf, hq, hns, htemplate, hscript]

/-- The elements that are entered are markup, groups and calls. -/
theorem isEntered_iff : IsEntered namespaces name ↔ roleOf namespaces name = .ok .markup
    ∨ roleOf namespaces name = .ok .group
    ∨ ∃ q url, roleOf namespaces name = .ok (.invocation q url) := by
  constructor
  · intro h
    cases h with
    | markup hq => exact .inl (by simp [roleOf, hq])
    | group hview => exact .inr (.inl hview.roleOf_eq_group)
    | @invocation ns url hns hother hurl =>
      obtain ⟨q, hq, hns⟩ := hns
      exact .inr (.inr ⟨q, url, by simp [roleOf, hq, hns, hother, hurl]⟩)
  · have hrole := hasRole_roleOf namespaces name
    rintro (h | h | ⟨q, url, h⟩)
    all_goals rw [h] at hrole
    · cases hrole with
      | markup hq => exact .markup hq
    · cases hrole with
      | group hview => exact .group hview
    · cases hrole with
      | invocation hq hns hother hurl => exact .invocation ⟨q, hq, hns⟩ hother hurl

end ScriptedViews.Code

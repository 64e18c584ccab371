import ScriptedViews.Tree.QName

set_option autoImplicit false

/-! # Written names

A name is taken apart at its first colon. Taking it apart and putting it together again gives it
back, as long as its qualifier can stand before a colon. -/

namespace ScriptedViews

/-- Whether a text can be the qualifier of a name: it is not empty, and it has no colon. -/
def IsQualifier (q : String) : Prop :=
  q ≠ "" ∧ ':' ∉ q.toList

instance (q : String) : Decidable (IsQualifier q) :=
  inferInstanceAs (Decidable (_ ∧ _))

namespace QName

theorem splitColon_append {a : List Char} (h : ':' ∉ a) (b : List Char) :
    splitColon (a ++ ':' :: b) = some (a, b) := by
  induction a with
  | nil => rfl
  | cons c a ih =>
    simp only [List.mem_cons, not_or] at h
    have hc : ¬ c = ':' := fun heq => h.1 heq.symm
    rw [List.cons_append, splitColon, if_neg hc, ih h.2]
    rfl

theorem splitColon_of_not_mem {cs : List Char} (h : ':' ∉ cs) : splitColon cs = none := by
  induction cs with
  | nil => rfl
  | cons c cs ih =>
    simp only [List.mem_cons, not_or] at h
    have hc : ¬ c = ':' := fun heq => h.1 heq.symm
    rw [splitColon, if_neg hc, ih h.2]
    rfl

/-- What stands before the first colon has none. -/
theorem not_mem_of_splitColon {cs a b : List Char} (h : splitColon cs = some (a, b)) : ':' ∉ a := by
  induction cs generalizing a with
  | nil => cases h
  | cons c cs ih =>
    rw [splitColon] at h
    by_cases hc : c = ':'
    · rw [if_pos hc] at h
      cases h
      exact List.not_mem_nil
    · rw [if_neg hc, Option.map_eq_some_iff] at h
      obtain ⟨p, hp, heq⟩ := h
      cases heq
      rw [List.mem_cons, not_or]
      exact ⟨Ne.symm hc, ih hp⟩

theorem ofParts_some (q l : String) :
    ofParts (some q) l = ⟨if q = "" then none else some q, l⟩ := by
  by_cases hq : q = "" <;> simp [ofParts, Option.filter_some, hq]

theorem parse_render {q : String} (hq : IsQualifier q) (l : String) :
    parse (QName.render ⟨some q, l⟩) = ⟨some q, l⟩ := by
  have hsplit : splitColon (q ++ ":" ++ l).toList = some (q.toList, l.toList) := by
    rw [String.toList_append, String.toList_append, List.append_assoc]
    exact splitColon_append hq.2 l.toList
  simp only [parse, render, hsplit, String.ofList_toList, ofParts_some, if_neg hq.1]

end QName

end ScriptedViews

import ScriptedViews.Namespace
import ScriptedViews.Proofs.Tree.QName

set_option autoImplicit false

/-! # Renaming qualifiers

The qualifiers of a view may be called something else. The table of its namespaces then has the new
qualifiers in the places of the old ones, and the same in them: what a namespace is found by is its
target, and a qualifier is only ever asked whether it is another one, or a name for declarations. -/

namespace ScriptedViews

open Vocabulary (lowerAscii sameName xmlnsPrefix)

/-- Other qualifiers for all qualifiers, one for each. Two of them are the same but for the case of
    ASCII letters if and only if the old ones are, and what declares namespaces stays. -/
structure Renaming where
  rename : {q : String // IsQualifier q} → {q : String // IsQualifier q}
  injective : Function.Injective rename
  sameName_rename : ∀ p q, sameName (rename p).1 (rename q).1 = sameName p.1 q.1
  rename_xmlns : ∀ q, sameName q.1 xmlnsPrefix = true → rename q = q

/-! ## Names but for case -/

theorem toLower_eq_colon_iff (c : Char) : c.toLower = ':' ↔ c = ':' := by
  constructor
  · intro h
    unfold Char.toLower at h
    split at h
    · next hupper =>
      -- a capital written small is a letter, and the colon is none
      have hval : c.val + ('a'.val - 'A'.val) = ':'.val := congrArg Char.val h
      have hlow : 65 ≤ c.val.toNat := UInt32.le_iff_toNat_le.1 hupper.1
      have hhigh : c.val.toNat ≤ 90 := UInt32.le_iff_toNat_le.1 hupper.2
      have hnat := congrArg UInt32.toNat hval
      rw [UInt32.toNat_add] at hnat
      change (c.val.toNat + 32) % 2 ^ 32 = 58 at hnat
      omega
    · exact h
  · rintro rfl
    rfl

/-- What can be a qualifier can be one in other case too. -/
theorem isQualifier_of_sameName {p q : String} (h : sameName p q = true) (hp : IsQualifier p) :
    IsQualifier q := by
  have hlower : p.toList.map Char.toLower = q.toList.map Char.toLower :=
    String.ofList_injective (eq_of_beq h)
  constructor
  · rintro rfl
    have hnil : p.toList = [] := by simpa using hlower
    exact hp.1 (String.toList_eq_nil_iff.1 hnil)
  · intro hcolon
    have hmem : ':' ∈ p.toList.map Char.toLower :=
      hlower ▸ List.mem_map.2 ⟨':', hcolon, rfl⟩
    obtain ⟨c, hc, heq⟩ := List.mem_map.1 hmem
    rw [toLower_eq_colon_iff] at heq
    exact hp.2 (heq ▸ hc)

theorem sameName_comm (p q : String) : sameName p q = sameName q p :=
  Bool.beq_comm

namespace Renaming

variable (r : Renaming)

/-! ## One qualifier -/

/-- The other name of a qualifier. A text that cannot be a qualifier stays as it is. -/
def qualifier (q : String) : String :=
  if h : IsQualifier q then (r.rename ⟨q, h⟩).1 else q

variable {p q : String}

theorem qualifier_of_pos (h : IsQualifier q) : r.qualifier q = (r.rename ⟨q, h⟩).1 :=
  dif_pos h

theorem qualifier_of_neg (h : ¬ IsQualifier q) : r.qualifier q = q :=
  dif_neg h

@[simp]
theorem isQualifier_qualifier : IsQualifier (r.qualifier q) ↔ IsQualifier q := by
  by_cases h : IsQualifier q
  · rw [r.qualifier_of_pos h]
    exact iff_of_true (r.rename ⟨q, h⟩).2 h
  · rw [r.qualifier_of_neg h]

theorem qualifier_injective : Function.Injective r.qualifier := by
  intro p q h
  have hiff : IsQualifier p ↔ IsQualifier q := by
    rw [← r.isQualifier_qualifier, h, r.isQualifier_qualifier]
  by_cases hp : IsQualifier p
  · rw [r.qualifier_of_pos hp, r.qualifier_of_pos (hiff.1 hp)] at h
    exact congrArg Subtype.val (r.injective (Subtype.ext h))
  · rwa [r.qualifier_of_neg hp, r.qualifier_of_neg fun hq => hp (hiff.2 hq)] at h

@[simp]
theorem sameName_qualifier : sameName (r.qualifier p) (r.qualifier q) = sameName p q := by
  by_cases hp : IsQualifier p
  · by_cases hq : IsQualifier q
    · rw [r.qualifier_of_pos hp, r.qualifier_of_pos hq, r.sameName_rename]
    · have hold : sameName p q = false :=
        Bool.eq_false_iff.2 fun h => hq (isQualifier_of_sameName h hp)
      rw [hold]
      exact Bool.eq_false_iff.2 fun h => hq (r.isQualifier_qualifier.1
        (isQualifier_of_sameName h (r.isQualifier_qualifier.2 hp)))
  · by_cases hq : IsQualifier q
    · have hold : sameName q p = false :=
        Bool.eq_false_iff.2 fun h => hp (isQualifier_of_sameName h hq)
      rw [sameName_comm p q, hold, sameName_comm]
      exact Bool.eq_false_iff.2 fun h => hp (r.isQualifier_qualifier.1
        (isQualifier_of_sameName h (r.isQualifier_qualifier.2 hq)))
    · rw [r.qualifier_of_neg hp, r.qualifier_of_neg hq]

/-- What declares namespaces keeps its name. -/
theorem qualifier_of_xmlns (h : sameName q xmlnsPrefix = true) : r.qualifier q = q := by
  by_cases hq : IsQualifier q
  · rw [r.qualifier_of_pos hq, r.rename_xmlns ⟨q, hq⟩ h]
  · exact r.qualifier_of_neg hq

theorem qualifier_xmlns : r.qualifier xmlnsPrefix = xmlnsPrefix :=
  r.qualifier_of_xmlns (by decide)

@[simp]
theorem sameName_qualifier_xmlns :
    sameName (r.qualifier q) xmlnsPrefix = sameName q xmlnsPrefix := by
  have h := r.sameName_qualifier (p := q) (q := xmlnsPrefix)
  rwa [r.qualifier_xmlns] at h

/-! ## Attributes of a root -/

/-- A written name with its qualifier renamed, and what it declares if it declares a namespace. -/
def written (name : String) : String :=
  match QName.splitColon name.toList with
  | none => name
  | some (before, after) =>
    if sameName (String.ofList before) xmlnsPrefix then
      String.ofList before ++ ":" ++ r.qualifier (String.ofList after)
    else r.qualifier (String.ofList before) ++ ":" ++ String.ofList after

/-- Attributes of a root with their qualifiers and those that they declare renamed. -/
def attributes (as : List (String × String)) : List (String × String) :=
  as.map fun a => (r.written a.1, a.2)

/-- The table with its qualifiers renamed. -/
def table (t : NamespaceTable) : NamespaceTable :=
  t.map fun e => (r.qualifier e.1, e.2)

theorem attributes_cons (a : String × String) (as : List (String × String)) :
    r.attributes (a :: as) = (r.written a.1, a.2) :: r.attributes as :=
  rfl

theorem table_cons (e : String × Namespace) (t : NamespaceTable) :
    r.table (e :: t) = (r.qualifier e.1, e.2) :: r.table t :=
  rfl

theorem colon_not_mem_qualifier (h : ':' ∉ q.toList) : ':' ∉ (r.qualifier q).toList := by
  by_cases hq : IsQualifier q
  · exact (r.isQualifier_qualifier.2 hq).2
  · rwa [r.qualifier_of_neg hq]

/-! ## The table -/

theorem beq_qualifier : (r.qualifier p == r.qualifier q) = (p == q) :=
  Bool.eq_iff_iff.2 ⟨fun h => beq_iff_eq.2 (r.qualifier_injective (eq_of_beq h)),
    fun h => by rw [eq_of_beq h, beq_self_eq_true]⟩

theorem get?_table (t : NamespaceTable) (q : String) :
    (r.table t).get? (r.qualifier q) = t.get? q := by
  induction t with
  | nil => rfl
  | cons e t ih =>
    simp only [OrderedMap.get?] at ih ⊢
    rw [r.table_cons, List.lookup_cons, List.lookup_cons, r.beq_qualifier, ih]

theorem modify_table (f : Namespace → Namespace) (q : String) (t : NamespaceTable) :
    OrderedMap.modify (r.qualifier q) f (r.table t) = r.table (OrderedMap.modify q f t) := by
  induction t with
  | nil => rfl
  | cons e t ih =>
    rw [r.table_cons, OrderedMap.modify, OrderedMap.modify, r.beq_qualifier, ih]
    split <;> rfl

/-- An attribute is recorded in the renamed table as it is in the table. -/
theorem record_table (t : NamespaceTable) (name value : String) :
    (r.table t).record (r.written name) value = r.table (t.record name value) := by
  unfold NamespaceTable.record written
  cases h : QName.splitColon name.toList with
  | none => simp only [h]
  | some p =>
    obtain ⟨before, after⟩ := p
    have hbefore : ':' ∉ before := QName.not_mem_of_splitColon h
    by_cases hx : sameName (String.ofList before) xmlnsPrefix = true
    · have hsplit : QName.splitColon
          (String.ofList before ++ ":" ++ r.qualifier (String.ofList after)).toList
            = some (before, (r.qualifier (String.ofList after)).toList) := by
        rw [String.toList_append, String.toList_append, List.append_assoc, String.toList_ofList]
        exact QName.splitColon_append hbefore _
      simp only [hx, if_true, hsplit, String.ofList_toList, modify_table]
    · have hcolon : ':' ∉ (r.qualifier (String.ofList before)).toList :=
        r.colon_not_mem_qualifier (by rwa [String.toList_ofList])
      have hsplit : QName.splitColon
          (r.qualifier (String.ofList before) ++ ":" ++ String.ofList after).toList
            = some ((r.qualifier (String.ofList before)).toList, after) := by
        rw [String.toList_append, String.toList_append, List.append_assoc]
        simpa using QName.splitColon_append hcolon after
      simp only [hx, Bool.false_eq_true, if_false, hsplit, String.ofList_toList,
        sameName_qualifier_xmlns, modify_table]

theorem foldl_record_attributes (as : List (String × String)) (t : NamespaceTable) :
    (r.attributes as).foldl (fun t a => NamespaceTable.record t a.1 a.2) (r.table t)
      = r.table (as.foldl (fun t a => NamespaceTable.record t a.1 a.2) t) := by
  induction as generalizing t with
  | nil => rfl
  | cons a as ih => rw [r.attributes_cons, List.foldl_cons, List.foldl_cons, record_table, ih]

/-! ## The schema locations -/

theorem schemaLocations_table (t : NamespaceTable) :
    (r.table t).schemaLocations = t.schemaLocations := by
  have hfind : (r.table t).findByTarget? Vocabulary.xsiNamespace
      = t.findByTarget? Vocabulary.xsiNamespace := by
    unfold NamespaceTable.findByTarget? table
    rw [List.find?_map, Option.map_map]
    rfl
  unfold NamespaceTable.schemaLocations
  rw [hfind]

theorem setUrl_table (target url : String) (t : NamespaceTable) :
    NamespaceTable.setUrl target url (r.table t)
      = r.table (NamespaceTable.setUrl target url t) := by
  induction t with
  | nil => rfl
  | cons e t ih =>
    rw [r.table_cons, NamespaceTable.setUrl, NamespaceTable.setUrl, ih]
    split <;> rfl

theorem applyLocations_table (words : List String) (t : NamespaceTable) :
    (r.table t).applyLocations words = r.table (t.applyLocations words) := by
  induction t, words using NamespaceTable.applyLocations.induct with
  | case1 t target url rest ih =>
    rw [NamespaceTable.applyLocations, NamespaceTable.applyLocations, setUrl_table, ih]
  | case2 t words hwords =>
    rw [NamespaceTable.applyLocations, NamespaceTable.applyLocations]
    all_goals exact hwords

/-- The table of the renamed attributes is the renamed table of the attributes. -/
theorem resolve_attributes (as : List (String × String)) :
    NamespaceTable.resolve (r.attributes as) = (NamespaceTable.resolve as).map r.table := by
  have hrecord : (r.attributes as).foldl (fun t a => NamespaceTable.record t a.1 a.2) []
      = r.table (as.foldl (fun t a => NamespaceTable.record t a.1 a.2) []) :=
    r.foldl_record_attributes as []
  unfold NamespaceTable.resolve
  rw [hrecord]
  generalize as.foldl (fun t a => NamespaceTable.record t a.1 a.2) [] = t
  simp only [schemaLocations_table, applyLocations_table]
  split
  · rfl
  · simp only [Except.map, table, List.map_map]
    rfl

/-! ## A letter in front -/

theorem sameName_cons (p q : String) : sameName ("a" ++ p) ("a" ++ q) = sameName p q := by
  have hlower (s : String) :
      lowerAscii ("a" ++ s) = String.ofList ('a' :: s.toList.map Char.toLower) := by
    rw [lowerAscii, String.toList_append, List.map_append]
    rfl
  unfold sameName
  rw [hlower, hlower, Bool.eq_iff_iff, beq_iff_eq, beq_iff_eq]
  unfold lowerAscii
  rw [String.ofList_inj, String.ofList_inj, List.cons_inj_right]

/-- What has a letter in front is no name for declarations. -/
theorem sameName_cons_xmlns (q : String) : sameName ("a" ++ q) xmlnsPrefix = false := by
  refine Bool.eq_false_iff.2 fun h => ?_
  have hlower : ("a" ++ q).toList.map Char.toLower = xmlnsPrefix.toList.map Char.toLower :=
    String.ofList_injective (eq_of_beq h)
  rw [String.toList_append, List.map_append] at hlower
  exact absurd (List.cons.inj hlower).1 (by decide)

theorem sameName_of_xmlns {p : String} (hp : sameName p xmlnsPrefix = true) (q : String) :
    sameName p q = sameName q xmlnsPrefix := by
  rw [sameName, eq_of_beq hp]
  exact sameName_comm xmlnsPrefix q

theorem isQualifier_cons {q : String} (h : IsQualifier q) : IsQualifier ("a" ++ q) := by
  refine ⟨fun heq => ?_, ?_⟩
  · have hnil := congrArg String.toList heq
    rw [String.toList_append] at hnil
    cases hnil
  · rw [String.toList_append]
    simp [h.2]

/-- A text with a letter in front, unless it is a name for declarations. -/
def lengthen (q : String) : String :=
  if sameName q xmlnsPrefix then q else "a" ++ q

theorem sameName_lengthen (p q : String) : sameName (lengthen p) (lengthen q) = sameName p q := by
  unfold lengthen
  by_cases hp : sameName p xmlnsPrefix = true
  · by_cases hq : sameName q xmlnsPrefix = true
    · rw [if_pos hp, if_pos hq]
    · rw [if_pos hp, if_neg hq, sameName_of_xmlns hp, sameName_of_xmlns hp, sameName_cons_xmlns,
        Bool.eq_false_iff.2 hq]
  · by_cases hq : sameName q xmlnsPrefix = true
    · rw [if_neg hp, if_pos hq, sameName_comm, sameName_of_xmlns hq, sameName_cons_xmlns,
        sameName_comm, sameName_of_xmlns hq, Bool.eq_false_iff.2 hp]
    · rw [if_neg hp, if_neg hq, sameName_cons]

theorem lengthen_injective : Function.Injective lengthen := by
  intro p q h
  unfold lengthen at h
  by_cases hp : sameName p xmlnsPrefix = true
  · by_cases hq : sameName q xmlnsPrefix = true
    · rwa [if_pos hp, if_pos hq] at h
    · rw [if_pos hp, if_neg hq] at h
      rw [h, sameName_cons_xmlns] at hp
      cases hp
  · by_cases hq : sameName q xmlnsPrefix = true
    · rw [if_neg hp, if_pos hq] at h
      rw [← h, sameName_cons_xmlns] at hq
      cases hq
    · rw [if_neg hp, if_neg hq] at h
      have hlist := congrArg String.toList h
      rw [String.toList_append, String.toList_append, List.append_cancel_left_eq] at hlist
      exact String.toList_inj.1 hlist

theorem isQualifier_lengthen {q : String} (h : IsQualifier q) : IsQualifier (lengthen q) := by
  unfold lengthen
  split
  · exact h
  · exact isQualifier_cons h

/-- Each qualifier with a letter in front, but for those that declare namespaces. -/
def lengthened : Renaming where
  rename q := ⟨lengthen q.1, isQualifier_lengthen q.2⟩
  injective _ _ h := Subtype.ext (lengthen_injective (congrArg Subtype.val h))
  sameName_rename p q := sameName_lengthen p.1 q.1
  rename_xmlns _ h := Subtype.ext (if_pos h)

end Renaming

end ScriptedViews

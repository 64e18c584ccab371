import ScriptedViews.Proofs.Document.Namespaces

set_option autoImplicit false

/-! # The attributes that a view declares

A view declares the attributes that are written with the first qualifier, in order of first
appearance, that means the template namespace, each with the value that is given last. An attribute
that is written with another qualifier of the template namespace is declared only if the first one
has an attribute of its name too. -/

namespace ScriptedViews.Mention

/-- The first qualifier that means the template namespace. -/
def declaring (ms : List Mention) : Option String :=
  (qualifiers ms).find? (means ms Vocabulary.templateNamespace)

/-- Whether an attribute of this name and value is written with a qualifier that means the template
    namespace. -/
def IsDeclared (ms : List Mention) (name value : String) : Prop :=
  ∃ q, means ms Vocabulary.templateNamespace q = true ∧ .uses q name value ∈ ms

/-- The attributes of the template namespace are those of the qualifier that declares. -/
theorem templateAttributes_of_resolve {attributes : List (String × String)} {table : NamespaceTable}
    (h : NamespaceTable.resolve attributes = .ok table) :
    table.templateAttributes
      = ((declaring (all attributes)).map (attributesOf (all attributes))).getD [] := by
  rw [resolve_eq_mentions] at h
  dsimp only at h
  split at h
  · cases h
  · cases h
    have hfind (ms : List Mention) :
        ((qualifiers ms).map fun q => (q, namespaceOf ms q)).find? (fun e => e.2.isTemplate)
          = (declaring ms).map fun q => (q, namespaceOf ms q) := by
      rw [List.find?_map]
      rfl
    rw [NamespaceTable.templateAttributes, hfind]
    cases declaring (all attributes) <;> rfl

/-! ## Values that are given -/

theorem mem_filterMap_use? {ms : List Mention} {q name value : String} :
    (name, value) ∈ ms.filterMap (use? q) ↔ .uses q name value ∈ ms := by
  rw [List.mem_filterMap]
  constructor
  · rintro ⟨m, hm, huse⟩
    cases m with
    | declares p target => cases huse
    | uses p n v =>
      rw [use?] at huse
      split at huse
      · rename_i hp
        cases huse
        rwa [← hp]
      · cases huse
  · intro hm
    exact ⟨_, hm, by simp [use?]⟩

/-- The value that counts is one that is given. -/
theorem uses_of_valueOf {ms : List Mention} {q name value : String}
    (h : valueOf ms q name = some value) : .uses q name value ∈ ms := by
  have hmem := List.mem_of_getLast? h
  rw [List.mem_map] at hmem
  obtain ⟨⟨n, v⟩, he, rfl⟩ := hmem
  rw [List.mem_filter, decide_eq_true_eq] at he
  obtain ⟨he, rfl⟩ := he
  exact mem_filterMap_use?.1 he

/-- A name has a value if some is given. -/
theorem exists_valueOf_iff {ms : List Mention} {q name : String} :
    (∃ value, valueOf ms q name = some value) ↔ ∃ value, .uses q name value ∈ ms := by
  rw [← Option.isSome_iff_exists, valueOf_isSome, List.mem_map]
  constructor
  · rintro ⟨⟨n, v⟩, he, rfl⟩
    exact ⟨v, mem_filterMap_use?.1 he⟩
  · rintro ⟨value, hm⟩
    exact ⟨(name, value), mem_filterMap_use?.2 hm, rfl⟩

theorem nodup_attributesOf (ms : List Mention) (q : String) :
    ((attributesOf ms q).map Prod.fst).Nodup := by
  rw [attributesOf_eq_map, List.map_map]
  have hkeys : (Prod.fst ∘ fun name => (name, (valueOf ms q name).getD default)) = id := rfl
  rw [hkeys, List.map_id]
  exact OrderedMap.nodup_eraseDups _

/-- No attribute is declared twice. -/
theorem nodup_templateAttributes {attributes : List (String × String)} {table : NamespaceTable}
    (h : NamespaceTable.resolve attributes = .ok table) :
    (table.templateAttributes.map Prod.fst).Nodup := by
  rw [templateAttributes_of_resolve h]
  cases declaring (all attributes) with
  | none => exact .nil
  | some q => exact nodup_attributesOf _ q

theorem mem_attributesOf_iff {ms : List Mention} {q name value : String} :
    (name, value) ∈ attributesOf ms q ↔ valueOf ms q name = some value := by
  rw [attributesOf, List.mem_filterMap]
  constructor
  · rintro ⟨n, -, hn⟩
    obtain ⟨v, hv, heq⟩ := Option.map_eq_some_iff.1 hn
    cases heq
    exact hv
  · intro hv
    have hname := (valueOf_isSome ms q name).1 (by rw [hv]; rfl)
    exact ⟨name, List.mem_eraseDups.2 hname, by rw [hv]; rfl⟩

/-! ## What is declared -/

/-- A view declares the attributes that are written with the first qualifier of the template
    namespace, and no others: each of them is given there. All that are given to qualifiers of the
    template namespace are declared just if each of them has a namesake that is written with the
    first. -/
theorem templateAttributes_resolve {attributes : List (String × String)} {table : NamespaceTable}
    (h : NamespaceTable.resolve attributes = .ok table) :
    let ms := all attributes
    table.templateAttributes = ((declaring ms).map (attributesOf ms)).getD []
      ∧ (table.templateAttributes.map Prod.fst).Nodup
      ∧ (∀ name value, (name, value) ∈ table.templateAttributes → IsDeclared ms name value)
      ∧ ((∀ name value, IsDeclared ms name value → ∃ v, (name, v) ∈ table.templateAttributes)
        ↔ ∀ name value, IsDeclared ms name value →
          ∃ q v, declaring ms = some q ∧ .uses q name v ∈ ms) := by
  intro ms
  have htable : table.templateAttributes = ((declaring ms).map (attributesOf ms)).getD [] :=
    templateAttributes_of_resolve h
  refine ⟨htable, nodup_templateAttributes h, ?_⟩
  rw [htable]
  cases hdeclaring : declaring ms with
  | none => simp
  | some q =>
    have hmeans : means ms Vocabulary.templateNamespace q = true := List.find?_some hdeclaring
    constructor
    · intro name value hmem
      exact ⟨q, hmeans, uses_of_valueOf (mem_attributesOf_iff.1 hmem)⟩
    · refine forall₃_congr fun name value _ => ?_
      simp [mem_attributesOf_iff, exists_valueOf_iff]

/-- The attributes of a root with two qualifiers of the template namespace, the second one in use
    before either is declared. -/
def twoTemplates : List (String × String) :=
  [("b:size", "10"), ("xmlns:a", "xview"), ("xmlns:b", "XView"), ("a:title", "T"), ("b:size", "12"),
    ("title", "U")]

theorem templateAttributes_resolve_two :
    ∃ table, NamespaceTable.resolve twoTemplates = .ok table
      ∧ table.templateAttributes = [("size", "12")]
      ∧ IsDeclared (all twoTemplates) "size" "12" := by
  obtain ⟨table, htable⟩ : ∃ table, NamespaceTable.resolve twoTemplates = .ok table := ⟨_, rfl⟩
  obtain ⟨heq, -, hgiven, -⟩ := templateAttributes_resolve htable
  have hsize : table.templateAttributes = [("size", "12")] := by
    rw [heq]
    decide
  exact ⟨table, htable, hsize, hgiven "size" "12" (by simp [hsize])⟩

/-- The title is given to a qualifier of the template namespace, and is not declared. -/
theorem templateAttributes_two_missing :
    IsDeclared (all twoTemplates) "title" "T"
      ∧ ∃ table, NamespaceTable.resolve twoTemplates = .ok table
        ∧ ∀ value, ("title", value) ∉ table.templateAttributes := by
  have hgiven : all twoTemplates = [.uses "b" "size" "10", .declares "a" "xview",
      .declares "b" "XView", .uses "a" "title" "T", .uses "b" "size" "12"] := rfl
  have hsize (table : NamespaceTable) (h : NamespaceTable.resolve twoTemplates = .ok table) :
      table.templateAttributes = [("size", "12")] := by
    cases h
    rfl
  obtain ⟨table, htable⟩ : ∃ table, NamespaceTable.resolve twoTemplates = .ok table := ⟨_, rfl⟩
  refine ⟨⟨"a", by decide, by simp [hgiven]⟩, table, htable, fun value hmem => ?_⟩
  simp [hsize table htable] at hmem

end ScriptedViews.Mention

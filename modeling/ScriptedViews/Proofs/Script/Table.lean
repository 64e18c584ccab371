import ScriptedViews.Script.Table

set_option autoImplicit false

/-! # Fields of a table

Giving a text key a value changes what that key gives and nothing else. An entry that has been set
to nil may be taken out on the way, so this rests on no two entries having the same key. -/

namespace ScriptedViews.Script.Table

/-- Whether no two entries have the same key. -/
def AreDistinct (entries : List (Value × Value)) : Prop :=
  entries.Pairwise fun a b => a.1.same b.1 = false

theorem same_text_iff {k : Value} {n : Bytes} : k.same (.text n) = true ↔ k = .text n := by
  cases k <;> simp [Value.same]

theorem same_text_ne {n m : Bytes} (hne : n ≠ m) : (Value.text n).same (.text m) = false :=
  Bool.eq_false_iff.2 fun h => hne (Value.text.inj (same_text_iff.1 h))

theorem isNil_iff {v : Value} : v.isNil = true ↔ v = .nil := by
  cases v <;> simp [Value.isNil]

theorem isNil_eq_false_iff {v : Value} : v.isNil = false ↔ v ≠ .nil := by
  cases v <;> simp [Value.isNil]

theorem lookup_nil (key : Value) : lookup key [] = .nil :=
  rfl

theorem lookup_cons (key : Value) (e : Value × Value) (es : List (Value × Value)) :
    lookup key (e :: es) = if e.1.same key then e.2 else lookup key es :=
  rfl

theorem replace_nil (key v : Value) : replace key v [] = none :=
  rfl

theorem replace_cons (key v : Value) (e : Value × Value) (es : List (Value × Value)) :
    replace key v (e :: es)
      = if e.1.same key then some ((e.1, v) :: es) else (replace key v es).map (e :: ·) :=
  rfl

/-! ## A key that has a place -/

theorem lookup_replace_self {n : Bytes} {v : Value} {es es' : List (Value × Value)}
    (h : replace (.text n) v es = some es') : lookup (.text n) es' = v := by
  induction es generalizing es' with
  | nil => simp [replace_nil] at h
  | cons e es ih =>
    obtain ⟨k, u⟩ := e
    rw [replace_cons] at h
    by_cases hk : k.same (.text n) = true
    · simp only [hk, if_true, Option.some.injEq] at h
      rw [← h, lookup_cons, if_pos hk]
    · simp only [hk, Bool.false_eq_true, if_false] at h
      obtain ⟨es'', hes, heq⟩ := Option.map_eq_some_iff.1 h
      rw [← heq, lookup_cons, if_neg hk]
      exact ih hes

theorem lookup_replace_ne {n m : Bytes} (hne : m ≠ n) {v : Value} {es es' : List (Value × Value)}
    (h : replace (.text n) v es = some es') : lookup (.text m) es' = lookup (.text m) es := by
  induction es generalizing es' with
  | nil => simp [replace_nil] at h
  | cons e es ih =>
    obtain ⟨k, u⟩ := e
    rw [replace_cons] at h
    by_cases hk : k.same (.text n) = true
    · simp only [hk, if_true, Option.some.injEq] at h
      have hm : k.same (.text m) = false := by
        rw [same_text_iff.1 hk]
        exact same_text_ne hne.symm
      rw [← h, lookup_cons, lookup_cons, hm]
      rfl
    · simp only [hk, Bool.false_eq_true, if_false] at h
      obtain ⟨es'', hes, heq⟩ := Option.map_eq_some_iff.1 h
      rw [← heq, lookup_cons, lookup_cons, ih hes]

theorem map_fst_replace {key v : Value} {es es' : List (Value × Value)}
    (h : replace key v es = some es') : es'.map (·.1) = es.map (·.1) := by
  induction es generalizing es' with
  | nil => simp [replace_nil] at h
  | cons e es ih =>
    obtain ⟨k, u⟩ := e
    rw [replace_cons] at h
    by_cases hk : k.same key = true
    · simp only [hk, if_true, Option.some.injEq] at h
      rw [← h]
      rfl
    · simp only [hk, Bool.false_eq_true, if_false] at h
      obtain ⟨es'', hes, heq⟩ := Option.map_eq_some_iff.1 h
      rw [← heq, List.map_cons, List.map_cons, ih hes]

/-! ## A key that has none -/

theorem same_of_replace_none {key v : Value} {es : List (Value × Value)}
    (h : replace key v es = none) : ∀ e ∈ es, e.1.same key = false := by
  induction es with
  | nil => simp
  | cons e es ih =>
    obtain ⟨k, u⟩ := e
    rw [replace_cons] at h
    by_cases hk : k.same key = true
    · simp [hk] at h
    · simp only [hk, Bool.false_eq_true, if_false, Option.map_eq_none_iff] at h
      intro e he
      rcases List.mem_cons.1 he with rfl | he
      · simpa using hk
      · exact ih h e he

theorem lookup_of_same_false {key : Value} {es : List (Value × Value)}
    (h : ∀ e ∈ es, e.1.same key = false) : lookup key es = .nil := by
  induction es with
  | nil => rfl
  | cons e es ih =>
    rw [lookup_cons, h e List.mem_cons_self]
    exact ih fun f hf => h f (List.mem_cons_of_mem e hf)

theorem lookup_append_singleton {key k v : Value} {es : List (Value × Value)}
    (h : ∀ e ∈ es, e.1.same key = false) :
    lookup key (es ++ [(k, v)]) = if k.same key then v else .nil := by
  induction es with
  | nil => rfl
  | cons e es ih =>
    rw [List.cons_append, lookup_cons, h e List.mem_cons_self]
    exact ih fun f hf => h f (List.mem_cons_of_mem e hf)

theorem lookup_append_of_same_false {key k v : Value} (es : List (Value × Value))
    (hk : k.same key = false) : lookup key (es ++ [(k, v)]) = lookup key es := by
  induction es with
  | nil => simp [lookup_cons, lookup_nil, hk]
  | cons e es ih => rw [List.cons_append, lookup_cons, lookup_cons, ih]

/-- Marks of places may be taken out. -/
theorem lookup_filter {n : Bytes} {es : List (Value × Value)} (h : AreDistinct es) :
    lookup (.text n) (es.filter fun e => !e.2.isNil) = lookup (.text n) es := by
  induction es with
  | nil => rfl
  | cons e es ih =>
    obtain ⟨k, u⟩ := e
    have hes := ih (List.Pairwise.of_cons h)
    rw [List.filter_cons]
    by_cases hk : k.same (.text n) = true
    · have hrest : ∀ e ∈ es, e.1.same (.text n) = false := by
        intro e he
        have := List.rel_of_pairwise_cons h he
        cases hsame : e.1.same (.text n) with
        | false => rfl
        | true =>
          rw [same_text_iff.1 hk, same_text_iff.1 hsame] at this
          rw [same_text_iff.2 rfl] at this
          cases this
      by_cases hu : u.isNil = true
      · simp only [hu, Bool.not_true, Bool.false_eq_true, if_false, hes]
        rw [lookup_cons, if_pos hk, isNil_iff.1 hu, lookup_of_same_false hrest]
      · simp only [hu, Bool.not_false, if_true]
        rw [lookup_cons, lookup_cons, if_pos hk, if_pos hk]
    · by_cases hu : u.isNil = true
      · simp only [hu, Bool.not_true, Bool.false_eq_true, if_false, hes]
        rw [lookup_cons, if_neg hk]
      · simp only [hu, Bool.not_false, if_true]
        rw [lookup_cons, lookup_cons, if_neg hk, if_neg hk, hes]

/-! ## Setting a field -/

theorem areDistinct_setEntry {t : Table} (h : AreDistinct t.entries) (key v : Value) :
    AreDistinct (t.setEntry key v).entries := by
  unfold setEntry
  cases hr : replace key v t.entries with
  | some es =>
    have hkeys : (t.entries.map (·.1)).Pairwise fun a b => a.same b = false :=
      List.pairwise_map.2 h
    rw [← map_fst_replace hr] at hkeys
    exact List.pairwise_map.1 hkeys
  | none =>
    simp only
    split
    · exact h
    · refine List.pairwise_append.2 ⟨h.filter _, List.pairwise_singleton _ _, ?_⟩
      intro a ha b hb
      rw [List.mem_singleton.1 hb]
      exact same_of_replace_none hr a (List.mem_filter.1 ha).1

theorem areDistinct_setText {t : Table} (h : AreDistinct t.entries) (n : Bytes) (v : Value) :
    AreDistinct (t.setText n v).entries :=
  areDistinct_setEntry h (.text n) v

theorem getText_setText_self {t : Table} (n : Bytes) (v : Value) :
    (t.setText n v).getText n = v := by
  unfold getText setText setEntry
  cases hr : replace (.text n) v t.entries with
  | some es => exact lookup_replace_self hr
  | none =>
    simp only
    split
    · next hnil => rw [lookup_of_same_false (same_of_replace_none hr), isNil_iff.1 hnil]
    · have hfilter : ∀ e ∈ t.entries.filter fun e => !e.2.isNil, e.1.same (.text n) = false :=
        fun e he => same_of_replace_none hr e (List.mem_filter.1 he).1
      rw [lookup_append_singleton hfilter, if_pos (same_text_iff.2 rfl)]

theorem getText_setText_ne {t : Table} (h : AreDistinct t.entries) {n m : Bytes} (hne : m ≠ n)
    (v : Value) : (t.setText n v).getText m = t.getText m := by
  unfold getText setText setEntry
  cases hr : replace (.text n) v t.entries with
  | some es => exact lookup_replace_ne hne hr
  | none =>
    simp only
    split
    · rfl
    · rw [lookup_append_of_same_false _ (same_text_ne hne.symm), lookup_filter h]

theorem metatable_setText (t : Table) (n : Bytes) (v : Value) :
    (t.setText n v).metatable = t.metatable := by
  unfold setText setEntry
  split
  · rfl
  · split <;> rfl

theorem items_setText (t : Table) (n : Bytes) (v : Value) : (t.setText n v).items = t.items := by
  unfold setText setEntry
  split
  · rfl
  · split <;> rfl

/-! ## What is in a table -/

theorem mem_iff_lookup {n : Bytes} {v : Value} (hv : v ≠ .nil) {es : List (Value × Value)}
    (h : AreDistinct es) : (.text n, v) ∈ es ↔ lookup (.text n) es = v := by
  induction es with
  | nil => simp [lookup_nil, hv.symm]
  | cons e es ih =>
    obtain ⟨k, u⟩ := e
    rw [lookup_cons, List.mem_cons]
    by_cases hk : k.same (.text n) = true
    · have hrest : (.text n, v) ∉ es := fun hmem => by
        have := List.rel_of_pairwise_cons h hmem
        rw [hk] at this
        cases this
      rw [if_pos hk, same_text_iff.1 hk]
      simp [hrest, eq_comm]
    · have hne : (.text n, v) ≠ (k, u) := fun heq =>
        hk ((Prod.mk.inj heq).1 ▸ same_text_iff.2 rfl)
      rw [if_neg hk, ← ih (List.Pairwise.of_cons h)]
      simp [hne]

section Contents

variable {t : Table} {n : Bytes} {v : Value}

theorem number_of_mem_itemPairs {vs : List Value} {i : Nat} {e : Value × Value}
    (he : e ∈ itemPairs i vs) : ∃ k, e.1 = .number k := by
  induction vs generalizing i with
  | nil => cases he
  | cons v vs ih =>
    rcases List.mem_cons.1 he with rfl | he
    · exact ⟨_, rfl⟩
    · exact ih he

/-- A text with a value is in a table if that is what the text gives. -/
theorem text_mem_toList_iff (hd : AreDistinct t.entries) :
    (.text n, v) ∈ t.toList ↔ t.getText n = v ∧ v ≠ .nil := by
  have hitems : (.text n, v) ∉ itemPairs 0 t.items.toList := fun hmem => by
    obtain ⟨k, hk⟩ := number_of_mem_itemPairs hmem
    cases hk
  rw [toList, List.mem_filter, List.mem_append, Bool.not_eq_true', isNil_eq_false_iff]
  constructor
  · rintro ⟨hmem, hv⟩
    exact ⟨(mem_iff_lookup hv hd).1 (hmem.resolve_left hitems), hv⟩
  · rintro ⟨hget, hv⟩
    exact ⟨.inr ((mem_iff_lookup hv hd).2 hget), hv⟩

/-- A table without anything in it gives nil. -/
theorem getText_of_isEmpty (hd : AreDistinct t.entries) (he : t.isEmpty = true) :
    t.getText n = .nil := by
  refine Classical.byContradiction fun hne => ?_
  have hmem := (text_mem_toList_iff hd).2 ⟨rfl, hne⟩
  rw [List.isEmpty_iff.1 he] at hmem
  cases hmem

/-- A table without keys other than texts is told by its entries. -/
theorem toList_of_keys (hkeys : ∀ e ∈ t.toList, ∃ n, e.1 = .text n) :
    t.toList = t.entries.filter fun e => !e.2.isNil := by
  have hitems : (itemPairs 0 t.items.toList).filter (fun e => !e.2.isNil) = [] := by
    refine List.filter_eq_nil_iff.2 fun e he hv => ?_
    obtain ⟨n, hn⟩ := hkeys e (List.mem_filter.2 ⟨List.mem_append_left _ he, hv⟩)
    obtain ⟨k, hk⟩ := number_of_mem_itemPairs he
    cases hn.symm.trans hk
  rw [toList, List.filter_append, hitems, List.nil_append]

theorem lookup_toList (hd : AreDistinct t.entries) (hkeys : ∀ e ∈ t.toList, ∃ n, e.1 = .text n)
    (n : Bytes) : lookup (.text n) t.toList = t.getText n := by
  rw [toList_of_keys hkeys, lookup_filter hd, getText]

end Contents

/-! ## Tables of texts -/

/-- Whether all keys of a table are texts, and it does what tables do. -/
structure IsRecord (t : Table) : Prop where
  items : t.items = #[]
  distinct : AreDistinct t.entries
  keys : ∀ e ∈ t.entries, ∃ n, e.1 = .text n
  metatable : t.metatable = none

theorem isRecord_empty : IsRecord {} :=
  ⟨rfl, List.Pairwise.nil, by simp, rfl⟩

theorem IsRecord.setText {t : Table} (h : IsRecord t) (n : Bytes) (v : Value) :
    IsRecord (t.setText n v) where
  items := (items_setText t n v).trans h.items
  distinct := areDistinct_setText h.distinct n v
  metatable := (metatable_setText t n v).trans h.metatable
  keys := by
    unfold Table.setText setEntry
    cases hr : replace (.text n) v t.entries with
    | some es =>
      intro e he
      have hkey : e.1 ∈ t.entries.map (·.1) := map_fst_replace hr ▸ List.mem_map_of_mem he
      obtain ⟨e', he', heq⟩ := List.mem_map.1 hkey
      exact heq ▸ h.keys e' he'
    | none =>
      simp only
      split
      · exact h.keys
      · intro e he
        rcases List.mem_append.1 he with he | he
        · exact h.keys e (List.mem_filter.1 he).1
        · exact ⟨n, by rw [List.mem_singleton.1 he]⟩

/-- What is in a table of texts is what its keys give. -/
theorem IsRecord.mem_toList_iff {t : Table} (h : IsRecord t) {k v : Value} :
    (k, v) ∈ t.toList ↔ ∃ n, k = .text n ∧ t.getText n = v ∧ v ≠ .nil := by
  constructor
  · intro hmem
    have hentry : (k, v) ∈ t.entries := by
      have hmem := (List.mem_filter.1 hmem).1
      rwa [h.items] at hmem
    obtain ⟨n, rfl⟩ : ∃ n, k = .text n := h.keys _ hentry
    exact ⟨n, rfl, (text_mem_toList_iff h.distinct).1 hmem⟩
  · rintro ⟨n, rfl, hv⟩
    exact (text_mem_toList_iff h.distinct).2 hv

end ScriptedViews.Script.Table

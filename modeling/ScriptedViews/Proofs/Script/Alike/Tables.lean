import ScriptedViews.Proofs.Script.Alike.Values

set_option autoImplicit false

/-! # Tables that are alike

Whatever is read from tables that are alike is alike, and writing keeps them so. Keys are found by
comparison, so this needs that different places stand for different places. -/

namespace ScriptedViews.Script

variable {R : Matching} {t t' : Table} {key key' v v' : Value}

namespace EntriesAlike

variable {es es' : List (Value × Value)}

theorem lookup (hf : R.Faithful) (hk : key.Alike R key') (h : EntriesAlike R es es') :
    (Table.lookup key es).Alike R (Table.lookup key' es') := by
  induction h with
  | nil => exact .nil
  | @cons e e' es es' he _ ih =>
    rw [Table.lookup, Table.lookup, he.1.same_eq hf hk]
    split
    · exact he.2
    · exact ih

theorem replace (hf : R.Faithful) (hk : key.Alike R key') (hv : v.Alike R v')
    (h : EntriesAlike R es es') :
    Option.Rel (EntriesAlike R) (Table.replace key v es) (Table.replace key' v' es') := by
  induction h with
  | nil => exact .none
  | @cons e e' es es' he h ih =>
    rw [Table.replace, Table.replace, he.1.same_eq hf hk]
    split
    · exact .some (.cons ⟨he.1, hv⟩ h)
    · cases hr : Table.replace key v es <;> cases hr' : Table.replace key' v' es' <;>
        rw [hr, hr'] at ih <;> cases ih
      · exact .none
      · rename_i hes
        exact .some (.cons he hes)

/-- Entries that are picked out by the same test are alike. -/
theorem filter {p p' : Value × Value → Bool} (hp : ∀ e e', EntryAlike R e e' → p e = p' e')
    (h : EntriesAlike R es es') : EntriesAlike R (es.filter p) (es'.filter p') := by
  induction h with
  | nil => exact .nil
  | @cons e e' es es' he _ ih =>
    rw [List.filter_cons, List.filter_cons, hp e e' he]
    split
    · exact .cons he ih
    · exact ih

theorem filter_set (h : EntriesAlike R es es') :
    EntriesAlike R (es.filter fun e => !e.2.isNil) (es'.filter fun e => !e.2.isNil) :=
  h.filter fun _ _ he => by rw [he.2.isNil_eq]

theorem isEmpty_eq (h : EntriesAlike R es es') : es.isEmpty = es'.isEmpty := by
  cases h <;> rfl

theorem firstEntry (h : EntriesAlike R es es') :
    Option.Rel (EntryAlike R) (Table.firstEntry es) (Table.firstEntry es') := by
  induction h with
  | nil => exact .none
  | @cons e e' es es' he _ ih =>
    rw [Table.firstEntry, Table.firstEntry, he.2.isNil_eq]
    split
    · exact ih
    · exact .some he

theorem entriesAfter (hf : R.Faithful) (hk : key.Alike R key') (h : EntriesAlike R es es') :
    Option.Rel (EntriesAlike R) (Table.entriesAfter key es) (Table.entriesAfter key' es') := by
  induction h with
  | nil => exact .none
  | @cons e e' es es' he h ih =>
    rw [Table.entriesAfter, Table.entriesAfter, he.1.same_eq hf hk]
    split
    · exact .some h
    · exact ih

theorem itemPairs {vs ws : List Value} (h : ValuesAlike R vs ws) (i : Nat) :
    EntriesAlike R (Table.itemPairs i vs) (Table.itemPairs i ws) := by
  induction h generalizing i with
  | nil => exact .nil
  | cons hv _ ih => exact .cons ⟨.number _, hv⟩ (ih (i + 1))

end EntriesAlike

namespace ValuesAlike

variable {vs ws : Array Value}

theorem array_getD (h : ValuesAlike R vs.toList ws.toList) (i : Nat) :
    (vs.getD i .nil).Alike R (ws.getD i .nil) := by
  simpa only [Array.getD_eq_getD_getElem?, List.getD_eq_getElem?_getD, Array.getElem?_toList]
    using h.getD i

theorem size_eq (h : ValuesAlike R vs.toList ws.toList) : vs.size = ws.size :=
  h.length_eq

theorem push (h : ValuesAlike R vs.toList ws.toList) (hv : v.Alike R v') :
    ValuesAlike R (vs.push v).toList (ws.push v').toList := by
  simpa only [Array.toList_push] using h.append (.single hv)

theorem set {vs ws : List Value} (h : ValuesAlike R vs ws) (i : Nat) (hv : v.Alike R v') :
    ValuesAlike R (vs.set i v) (ws.set i v') := by
  induction h generalizing i with
  | nil => exact .nil
  | cons hw h ih =>
    cases i with
    | zero => exact .cons hv h
    | succ i => exact .cons hw (ih i)

theorem setIfInBounds (h : ValuesAlike R vs.toList ws.toList) (i : Nat) (hv : v.Alike R v') :
    ValuesAlike R (vs.setIfInBounds i v).toList (ws.setIfInBounds i v').toList := by
  simpa only [Array.toList_setIfInBounds] using set h i hv

end ValuesAlike

namespace Table.Alike

/-! ## Reading -/

theorem itemIndex?_eq (h : t.Alike R t') (n : Int64) : t.itemIndex? n = t'.itemIndex? n := by
  simp only [itemIndex?, h.items.size_eq]

theorem getNormal (hf : R.Faithful) (h : t.Alike R t') (hk : key.Alike R key') :
    (t.getNormal key).Alike R (t'.getNormal key') := by
  have hlookup := h.entries.lookup hf hk
  cases hk with
  | number n =>
    cases n with
    | int n =>
      simp only [Table.getNormal, h.itemIndex?_eq n]
      split
      · exact h.items.array_getD _
      · exact hlookup
    | float x => exact hlookup
  | _ => exact hlookup

theorem get (hf : R.Faithful) (h : t.Alike R t') (hk : key.Alike R key') :
    (t.get key).Alike R (t'.get key') :=
  h.getNormal hf hk.normalKey

theorem getText (hf : R.Faithful) (h : t.Alike R t') (key : Bytes) :
    (t.getText key).Alike R (t'.getText key) :=
  h.entries.lookup hf (.text key)

/-! ## Writing -/

theorem setEntry (hf : R.Faithful) (h : t.Alike R t') (hk : key.Alike R key')
    (hv : v.Alike R v') : (t.setEntry key v).Alike R (t'.setEntry key' v') := by
  have hr := h.entries.replace hf hk hv
  unfold Table.setEntry
  cases hr' : Table.replace key v t.entries <;> cases hr'' : Table.replace key' v' t'.entries <;>
    rw [hr', hr''] at hr <;> cases hr
  · simp only [hv.isNil_eq]
    split
    · exact h
    · exact ⟨h.items, List.rel_append h.entries.filter_set (.cons ⟨hk, hv⟩ .nil), h.metatable⟩
  · rename_i hes
    exact ⟨h.items, hes, h.metatable⟩

theorem absorb (hf : R.Faithful) (fuel : Nat) (h : t.Alike R t') :
    (Table.absorb fuel t).Alike R (Table.absorb fuel t') := by
  induction fuel generalizing t t' with
  | zero => exact h
  | succ fuel ih =>
    have hlookup := h.entries.lookup hf (.ofNat (t.items.size + 1))
    simp only [Table.absorb, ← h.items.size_eq, hlookup.isNil_eq]
    split
    · exact h
    · refine ih ⟨h.items.push hlookup, h.entries.filter fun e e' he => ?_, h.metatable⟩
      rw [he.1.same_eq hf (.ofNat _)]

theorem push (hf : R.Faithful) (h : t.Alike R t') (hv : v.Alike R v') :
    (t.push v).Alike R (t'.push v') := by
  have hp : Table.Alike R { t with items := t.items.push v }
      { t' with items := t'.items.push v' } := ⟨h.items.push hv, h.entries, h.metatable⟩
  simp only [Table.push, h.entries.isEmpty_eq, h.entries.length_eq]
  split
  · exact hp
  · exact hp.absorb hf _

theorem setNormal (hf : R.Faithful) (h : t.Alike R t') (hk : key.Alike R key')
    (hv : v.Alike R v') : (t.setNormal key v).Alike R (t'.setNormal key' v') := by
  have hset := h.setEntry hf hk hv
  cases hk with
  | number n =>
    cases n with
    | int n =>
      simp only [Table.setNormal, h.itemIndex?_eq n, h.items.size_eq, hv.isNil_eq]
      split
      · exact ⟨h.items.setIfInBounds _ hv, h.entries, h.metatable⟩
      · split
        · split
          · exact h
          · exact h.push hf hv
        · exact hset
    | float x => exact hset
  | _ => exact hset

theorem set (hf : R.Faithful) (h : t.Alike R t') (hk : key.Alike R key') (hv : v.Alike R v') :
    (t.set key v).Alike R (t'.set key' v') :=
  h.setNormal hf hk.normalKey hv

theorem setText (hf : R.Faithful) (h : t.Alike R t') (key : Bytes) (hv : v.Alike R v') :
    (t.setText key v).Alike R (t'.setText key v') :=
  h.setEntry hf (.text key) hv

theorem setItems (hf : R.Faithful) {vs ws : List Value} (hvs : ValuesAlike R vs ws) (start : Nat)
    (h : t.Alike R t') :
    (Table.setItems start vs t).Alike R (Table.setItems start ws t') := by
  induction hvs generalizing start t t' with
  | nil => exact h
  | @cons v w vs ws hv _ ih =>
    simp only [Table.setItems, h.items.size_eq]
    split
    · exact ih _ ⟨h.items.setIfInBounds _ hv, h.entries, h.metatable⟩
    · exact ih _ (h.push hf hv)

theorem ofList {vs ws : List Value} (h : ValuesAlike R vs ws) :
    (Table.ofList vs).Alike R (Table.ofList ws) :=
  ⟨h, .nil, .none⟩

theorem clear (h : t.Alike R t') : t.clear.Alike R t'.clear :=
  ⟨.nil, .nil, h.metatable⟩

/-! ## Walking -/

theorem toList (h : t.Alike R t') : EntriesAlike R t.toList t'.toList :=
  EntriesAlike.filter_set (List.rel_append (EntriesAlike.itemPairs h.items 0) h.entries)

theorem nextItem (h : t.Alike R t') (fuel i : Nat) :
    Option.Rel (EntryAlike R) (t.nextItem fuel i) (t'.nextItem fuel i) := by
  induction fuel generalizing i with
  | zero => exact h.entries.firstEntry
  | succ fuel ih =>
    have hget := h.items.array_getD i
    simp only [Array.getD_eq_getD_getElem?] at hget
    have hnone : t.items[i]? = none ↔ t'.items[i]? = none := by
      simp only [Array.getElem?_eq_none_iff, h.items.size_eq]
    unfold Table.nextItem
    cases hi : t.items[i]? with
    | none =>
      rw [hnone.1 hi]
      exact h.entries.firstEntry
    | some v =>
      cases hi' : t'.items[i]? with
      | none => simp [hnone.2 hi'] at hi
      | some v' =>
        simp only [hi, hi', Option.getD_some] at hget
        simp only [hget.isNil_eq]
        split
        · exact ih (i + 1)
        · exact .some ⟨.number _, hget⟩

/-- What a walk comes to after a key is alike, or the key has no place in either table. -/
theorem next (hf : R.Faithful) (h : t.Alike R t') (hk : key.Alike R key') :
    Option.Rel (Option.Rel (EntryAlike R)) (t.next key) (t'.next key') := by
  have hafter : ∀ {k k' : Value}, k.Alike R k' →
      Option.Rel (Option.Rel (EntryAlike R)) ((entriesAfter k t.entries).map firstEntry)
        ((entriesAfter k' t'.entries).map firstEntry) := by
    intro k k' hk
    have hrest := h.entries.entriesAfter hf hk
    cases he : entriesAfter k t.entries <;> cases he' : entriesAfter k' t'.entries <;>
      rw [he, he'] at hrest <;> cases hrest
    · exact .none
    · rename_i hes
      exact .some hes.firstEntry
  have hn := hk.normalKey
  unfold Table.next
  generalize key.normalKey = k at hn ⊢
  generalize key'.normalKey = k' at hn ⊢
  cases hn with
  | nil =>
    simp only [h.items.size_eq]
    exact .some (h.nextItem _ _)
  | number n =>
    cases n with
    | int n =>
      simp only [h.itemIndex?_eq n, h.items.size_eq]
      split
      · exact .some (h.nextItem _ _)
      · exact hafter (.number _)
    | float x => exact hafter (.number _)
  | table hr => exact hafter (.table hr)
  | function hr => exact hafter (.function hr)
  | object hr => exact hafter (.object hr)
  | bool b => exact hafter (.bool b)
  | text bytes => exact hafter (.text bytes)
  | builtin b => exact hafter (.builtin b)
  | method name => exact hafter (.method name)

/-! ## Length -/

theorem searchBorder_eq (h : t.Alike R t') (fuel low high : Nat) :
    t.searchBorder fuel low high = t'.searchBorder fuel low high := by
  induction fuel generalizing low high with
  | zero => rfl
  | succ fuel ih =>
    simp only [searchBorder, (h.items.array_getD _).isNil_eq, ih]

theorem length_eq (h : t.Alike R t') : t.length = t'.length := by
  simp only [length, h.items.size_eq, (h.items.array_getD _).isNil_eq, h.searchBorder_eq]

end Table.Alike

end ScriptedViews.Script

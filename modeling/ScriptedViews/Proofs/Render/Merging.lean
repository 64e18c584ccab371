import ScriptedViews.Proofs.Render.Underway
import ScriptedViews.Proofs.Render.Variables

set_option autoImplicit false

/-! # The variables of a call

A view that is called has the variables that it declares and no others. What each of them is told by
the attributes of the call and the variables of the caller: what the call gives counts, even where it
is blank and leaves the default; what it leaves out may come from the caller. -/

namespace ScriptedViews

open Script (Bytes Value utf8)
open Script.Table (AreDistinct lookup same_text_iff)
open Text (utf8_injective)

/-! ## Variables as a list -/

/-- Whether the values that some variables have for a name are those with a property. -/
def Says (scope : List (String × Value)) (name : String) (p : Value → Prop) : Prop :=
  ∀ u, (name, u) ∈ scope ↔ p u

/-- Whether a table has a value under a key that reads as a name. -/
def Script.Table.Reads (t : Script.Table) (name : String) (v : Value) : Prop :=
  v ≠ .nil ∧ ∃ bytes, t.getText bytes = v ∧ Text.decodeLossy ⟨bytes.toArray⟩ = name

/-- Whether a name is read off no key of a table but its own bytes. -/
def Script.Table.ReadsAsItself (t : Script.Table) (name : String) : Prop :=
  ∀ bytes, t.getText bytes ≠ .nil → Text.decodeLossy ⟨bytes.toArray⟩ = name → bytes = utf8 name

/-- Nothing but its own bytes reads as a name that has no replacement character in it. -/
theorem Script.Table.readsAsItself_of_not_mem (t : Script.Table) {name : String}
    (h : '\ufffd' ∉ name.toList) : t.ReadsAsItself name :=
  fun _ _ hread => Text.eq_utf8_of_decodeLossy hread h

theorem Script.Table.ReadsAsItself.reads_iff {t : Script.Table} {name : String}
    (h : t.ReadsAsItself name) {v : Value} :
    t.Reads name v ↔ v = t.getText (utf8 name) ∧ v ≠ .nil := by
  constructor
  · rintro ⟨hv, bytes, rfl, hread⟩
    exact ⟨by rw [h bytes hv hread], hv⟩
  · rintro ⟨rfl, hv⟩
    exact ⟨hv, _, rfl, Text.decodeLossy_utf8 name⟩

section Variables

variable {h : BridgeHeap} {context : Nat} {name : String} {p : Value → Prop}
  {scope : List (String × Value)}

/-- The variables of a context say what is read off its table. -/
theorem says_contextEntries (hd : h.IsDistinct) :
    Says (h.contextEntries context) name ((h.table context).Reads name) := by
  intro u
  rw [Script.Heap.contextEntries, List.mem_filterMap]
  constructor
  · rintro ⟨⟨k, u'⟩, he, heq⟩
    cases k with
    | text bytes =>
      simp only [Option.some.injEq, Prod.mk.injEq] at heq
      obtain ⟨hread, rfl⟩ := heq
      obtain ⟨hget, hne⟩ := (Script.Table.text_mem_toList_iff (hd context)).1 he
      exact ⟨hne, bytes, hget, hread⟩
    | _ => cases heq
  · rintro ⟨hne, bytes, hget, hread⟩
    exact ⟨_, (Script.Table.text_mem_toList_iff (hd context)).2 ⟨hget, hne⟩, by simp only [hread]⟩

/-- What counts of what is given and what there is. -/
def merged (given : Value) (own : Value → Prop) (u : Value) : Prop :=
  if given.isNil then own u else u = given

/-- A variable that is put behind the others and in the place of those of its name is the only one of
    its name. -/
theorem says_replaced (other : String) (hs : name ≠ other → Says scope name p) (u : Value) :
    Says (scope.filter (fun e => e.1 != other) ++ [(other, u)]) name
      (if name = other then (· = u) else p) := by
  intro u'
  rw [List.mem_append, List.mem_filter, List.mem_singleton, Prod.mk.injEq, bne_iff_ne]
  split
  · next heq => simp [heq]
  · next hne => simp [hne, hs hne u']

/-- Attributes whose names are texts are added, and count, whatever variables there were with the
    name. -/
theorem exists_addAttributes {given : List (Value × Value)} (hd : AreDistinct given)
    (hkeys : ∀ e ∈ given, ∃ n, e.1 = .ofString n) (hvalues : ∀ e ∈ given, e.2 ≠ .nil)
    (scope : List (String × Value)) : ∃ scope', Bridge.addAttributes scope given = some scope'
      ∧ ∀ name p, (lookup (.text (utf8 name)) given = .nil → Says scope name p) →
        Says scope' name (merged (lookup (.text (utf8 name)) given) p) := by
  induction given generalizing scope with
  | nil => exact ⟨scope, rfl, fun name p hs => hs rfl⟩
  | cons e given ih =>
    obtain ⟨k, u⟩ := e
    obtain ⟨n, rfl⟩ : ∃ n, k = .ofString n := hkeys _ List.mem_cons_self
    have hu : u ≠ .nil := hvalues _ List.mem_cons_self
    obtain ⟨scope', hadd, htold⟩ := ih (List.Pairwise.of_cons hd)
      (fun e he => hkeys e (List.mem_cons_of_mem _ he))
      (fun e he => hvalues e (List.mem_cons_of_mem _ he))
      (scope.filter (fun e => e.1 != n) ++ [(n, u)])
    have hname : Bridge.attributeName? (.ofString n) = some n := by
      simp only [Bridge.attributeName?, Value.ofString, Value.toText?, Text.decodeUtf8_utf8]
      rfl
    refine ⟨scope', by rw [Bridge.addAttributes, hname]; exact hadd, fun name p hs => ?_⟩
    rw [lookup] at hs ⊢
    by_cases heq : name = n
    · subst heq
      have hnone : lookup (.text (utf8 name)) given = .nil :=
        Script.Table.lookup_of_same_false fun e he => by
          have hfirst := List.rel_of_pairwise_cons hd he
          rw [Bool.eq_false_iff] at hfirst ⊢
          exact fun hsame => hfirst (by rw [same_text_iff.1 hsame]; exact same_text_iff.2 rfl)
      have hrest := htold name _ fun _ =>
        says_replaced (p := p) name (fun hne => absurd rfl hne) u
      rw [hnone, if_pos rfl] at hrest
      have hsome : u.isNil = false := Script.Table.isNil_eq_false_iff.2 hu
      intro u'
      rw [if_pos (same_text_iff (k := .ofString name).2 rfl), merged, hsome]
      exact hrest u'
    · have hother : ¬ (Value.ofString n).same (.text (utf8 name)) = true := fun hsame =>
        heq (utf8_injective (Value.text.inj (same_text_iff.1 hsame))).symm
      rw [if_neg hother] at hs ⊢
      have hrest := htold name p fun hnone => by
        have := says_replaced n (fun _ => hs hnone) u
        rwa [if_neg heq] at this
      exact hrest

end Variables

/-! ## Variables in a context -/

namespace Render

/-- The value that a declared attribute of a view gets, from what the call gives for it and what the
    caller has under its name. -/
def valueFor (default : String) (given own : Value) : Value :=
  match given with
  | .nil => if overridesDefault own then own else .ofString default
  | given => if overridesDefault given then given else .ofString default

/-- Whether a value is one of some that takes the place of a default, or the default if none does. -/
def IsChosen (default : String) (p : Value → Prop) (v : Value) : Prop :=
  (p v ∧ overridesDefault v = true)
    ∨ (∀ u, p u → overridesDefault u = false) ∧ v = .ofString default

/-- What is given is chosen, or else what the caller has, if no other key of it reads like the
    name. -/
theorem IsChosen.eq_valueFor {default name : String} {given v : Value} {own : Script.Table}
    (hname : given = .nil → own.ReadsAsItself name)
    (h : IsChosen default (merged given (own.Reads name)) v) :
    v = valueFor default given (own.getText (utf8 name)) := by
  have hif (given : Value) (h : IsChosen default (· = given) v) :
      v = if overridesDefault given then given else .ofString default := by
    obtain ⟨rfl, hoverrides⟩ | ⟨hnone, rfl⟩ := h
    · rw [if_pos hoverrides]
    · rw [hnone given rfl]
      rfl
  by_cases hnil : given = .nil
  · subst hnil
    refine hif _ ?_
    obtain ⟨hp, hoverrides⟩ | ⟨hnone, hv⟩ := h
    · exact .inl ⟨((hname rfl).reads_iff.1 hp).1, hoverrides⟩
    · refine .inr ⟨?_, hv⟩
      rintro u rfl
      by_cases hne : own.getText (utf8 name) = .nil
      · rw [hne]
        rfl
      · exact hnone _ ((hname rfl).reads_iff.2 ⟨rfl, hne⟩)
  · have hmerged : merged given (own.Reads name) = (· = given) := by
      funext u
      rw [merged, Script.Table.isNil_eq_false_iff.2 hnil]
      rfl
    rw [hmerged] at h
    rw [hif given h]
    cases given with
    | nil => exact absurd rfl hnil
    | _ => rfl

variable {h : BridgeHeap} {context : Nat} {declared : OrderedMap String String}

/-- What holds while variables of declared names are given holds when all are. -/
theorem bind_induction {P : BridgeHeap → Prop} (hstart : P h)
    (hset : ∀ h name v, declared.contains name = true → P h → P (h.contextSet context name v))
    (attributes : List (String × Value)) :
    P (bindAttributes (bindDefaults h context declared) context declared attributes) := by
  refine List.foldlRecOn attributes _ ?_ fun h hP e _ => ?_
  · refine List.foldlRecOn declared _ hstart fun h hP e he => ?_
    exact hset h e.1 _ (List.any_eq_true.2 ⟨e, he, beq_self_eq_true e.1⟩) hP
  · split
    · next hdeclared => exact hset h e.1 e.2 (Bool.and_eq_true_iff.1 hdeclared).1 hP
    · exact hP

/-- Whether a heap has the table of a context, without double entries. -/
structure HasContext (context : Nat) (h : BridgeHeap) : Prop where
  lt : context < h.tables.size
  distinct : AreDistinct (h.table context).entries

theorem HasContext.contextSet (hc : HasContext context h) (name : String) (v : Value) :
    HasContext context (h.contextSet context name v) where
  lt := by
    rw [Script.Heap.contextSet, Script.Heap.modifyTable, Array.size_modify]
    exact hc.lt
  distinct := by
    rw [Expansion.table_contextSet hc.lt]
    exact Script.Table.areDistinct_setText hc.distinct _ _

theorem HasContext.getText_contextSet (hc : HasContext context h) (name : String) (v : Value)
    (key : Bytes) : ((h.contextSet context name v).table context).getText key
      = if key = utf8 name then v else (h.table context).getText key := by
  rw [Expansion.table_contextSet hc.lt]
  split
  · next heq => rw [heq, Script.Table.getText_setText_self]
  · next hne => exact Script.Table.getText_setText_ne hc.distinct hne v

/-- The name of a declared attribute has its default. -/
theorem getText_bindDefaults (hc : HasContext context h)
    (hnodup : (declared.map Prod.fst).Nodup) (name : String) :
    ((bindDefaults h context declared).table context).getText (utf8 name)
      = match declared.get? name with
        | some default => .ofString default
        | none => (h.table context).getText (utf8 name) := by
  unfold bindDefaults
  induction declared generalizing h with
  | nil => rfl
  | cons e declared ih =>
    obtain ⟨k, default⟩ := e
    obtain ⟨hk, hnodup⟩ := List.nodup_cons.1 hnodup
    rw [List.foldl_cons, ih (hc.contextSet _ _) hnodup, hc.getText_contextSet, OrderedMap.get?,
      OrderedMap.get?, List.lookup_cons]
    by_cases heq : name = k
    · subst heq
      have hnone : declared.lookup name = none :=
        List.lookup_eq_none_iff.2 fun p hp => by
          rw [bne_iff_ne]
          rintro rfl
          exact hk (List.mem_map.2 ⟨p, hp, rfl⟩)
      rw [hnone, if_pos rfl, beq_self_eq_true]
    · have hkey : utf8 name ≠ utf8 k := fun hsame => heq (utf8_injective hsame)
      rw [if_neg hkey, beq_eq_false_iff_ne.2 heq]

/-- The last value that some attributes have for a name, of those that take the place of a
    default. -/
def lastGiven? (name : String) (attributes : List (String × Value)) : Option Value :=
  (attributes.filter fun e => e.1 == name && overridesDefault e.2).getLast?.map Prod.snd

theorem lastGiven?_nil (name : String) : lastGiven? name [] = none :=
  rfl

theorem lastGiven?_cons (name : String) (e : String × Value) (attributes : List (String × Value)) :
    lastGiven? name (e :: attributes)
      = (lastGiven? name attributes).or
          (if e.1 == name && overridesDefault e.2 then some e.2 else none) := by
  unfold lastGiven?
  rw [List.filter_cons]
  split
  · rw [List.getLast?_cons]
    cases (attributes.filter fun e => e.1 == name && overridesDefault e.2).getLast? <;> rfl
  · rw [Option.or_none]

theorem mem_of_lastGiven? {name : String} {attributes : List (String × Value)} {v : Value}
    (h : lastGiven? name attributes = some v) :
    (name, v) ∈ attributes ∧ overridesDefault v = true := by
  obtain ⟨⟨k, u⟩, hlast, rfl⟩ := Option.map_eq_some_iff.1 h
  obtain ⟨hmem, hboth⟩ := List.mem_filter.1 (List.mem_of_getLast? hlast)
  obtain ⟨hk, hu⟩ := Bool.and_eq_true_iff.1 hboth
  exact ⟨beq_iff_eq.1 hk ▸ hmem, hu⟩

theorem lastGiven?_eq_none {name : String} {attributes : List (String × Value)} :
    lastGiven? name attributes = none
      ↔ ∀ u, (name, u) ∈ attributes → overridesDefault u = false := by
  rw [lastGiven?, Option.map_eq_none_iff, List.getLast?_eq_none_iff, List.filter_eq_nil_iff]
  simp only [Bool.and_eq_true, beq_iff_eq, not_and, Bool.not_eq_true, Prod.forall]
  exact ⟨fun h u hu => h name u hu rfl, fun h k u hu hk => h u (hk ▸ hu)⟩

/-- The name of a declared attribute has the last value that there is for it of those that take the
    place of a default, if there are any. -/
theorem getText_bindAttributes_eq (hc : HasContext context h) {name : String}
    (hname : declared.contains name = true) (attributes : List (String × Value)) :
    ((bindAttributes h context declared attributes).table context).getText (utf8 name)
      = (lastGiven? name attributes).getD ((h.table context).getText (utf8 name)) := by
  unfold bindAttributes
  induction attributes generalizing h with
  | nil => rfl
  | cons e attributes ih =>
    obtain ⟨k, u⟩ := e
    rw [List.foldl_cons, lastGiven?_cons]
    obtain ⟨h', heq, hc', hget⟩ : ∃ h', (if declared.contains k && overridesDefault u then
        h.contextSet context k u else h) = h' ∧ HasContext context h'
          ∧ (h'.table context).getText (utf8 name)
            = if k == name && overridesDefault u then u
              else (h.table context).getText (utf8 name) := by
      by_cases hk : k = name
      · subst hk
        rw [hname, Bool.true_and, beq_self_eq_true, Bool.true_and]
        split
        · exact ⟨_, rfl, hc.contextSet k u, by rw [hc.getText_contextSet, if_pos rfl]⟩
        · exact ⟨h, rfl, hc, rfl⟩
      · have hne : utf8 name ≠ utf8 k := fun hsame => hk (utf8_injective hsame).symm
        rw [beq_eq_false_iff_ne.2 hk, Bool.false_and]
        split
        · exact ⟨_, rfl, hc.contextSet k u, by rw [hc.getText_contextSet, if_neg hne]; rfl⟩
        · exact ⟨h, rfl, hc, rfl⟩
    rw [heq, ih hc', hget]
    cases lastGiven? name attributes with
    | some v => rfl
    | none => split <;> rfl

/-- The name of a declared attribute has a value that there is for it, if there is one that takes the
    place of the default. -/
theorem getText_bindAttributes (hc : HasContext context h) {name : String}
    (hname : declared.contains name = true) (attributes : List (String × Value)) :
    let v := ((bindAttributes h context declared attributes).table context).getText (utf8 name)
    ((name, v) ∈ attributes ∧ overridesDefault v = true)
      ∨ (∀ u, (name, u) ∈ attributes → overridesDefault u = false)
        ∧ v = (h.table context).getText (utf8 name) := by
  intro v
  have hv : v = _ := getText_bindAttributes_eq hc hname attributes
  cases hlast : lastGiven? name attributes with
  | some u =>
    rw [hlast, Option.getD_some] at hv
    exact .inl (hv ▸ mem_of_lastGiven? hlast)
  | none =>
    rw [hlast, Option.getD_none] at hv
    exact .inr ⟨lastGiven?_eq_none.1 hlast, hv⟩

/-- Whether a name is one that the engine itself gives a value. -/
def IsReserved (name : String) : Prop :=
  name = Vocabulary.bridgeBinding ∨ name = Vocabulary.childContentBinding

instance : DecidablePred IsReserved := fun _ => inferInstanceAs (Decidable (_ ∨ _))

variable {attributes : List (String × Value)} {children : Option String} {b : Bridge}

/-- What holds while a context is given variables and objects are made holds when it has all. -/
theorem bindVariables_induction {P : BridgeHeap → Prop} (hstart : P h)
    (hset : ∀ h name v, P h → P (h.contextSet context name v))
    (hobject : ∀ h o, P h → P (h.newObject o).2) :
    P (bindVariables h context declared attributes children b) :=
  hset _ _ _ (hobject _ _ (hset _ _ _
    (bind_induction hstart (fun h name v _ hP => hset h name v hP) attributes)))

/-- Giving a context its variables touches no other table. -/
theorem table_bindVariables_ne {other : Nat} (hne : other ≠ context) :
    (bindVariables h context declared attributes children b).table other = h.table other := by
  have hset (h : BridgeHeap) (name : String) (v : Value) :
      (h.contextSet context name v).table other = h.table other :=
    Script.Heap.table_modifyTable_ne hne.symm _
  have hbind : (bindAttributes (bindDefaults h context declared) context declared attributes).table
      other = h.table other :=
    bind_induction (P := fun h' => h'.table other = h.table other) rfl
      (fun h' name v _ hP => (hset h' name v).trans hP) attributes
  exact (hset _ _ _).trans ((hset _ _ _).trans hbind)

theorem hasContext_bind (hc : HasContext context h) :
    HasContext context
      (bindAttributes (bindDefaults h context declared) context declared attributes) :=
  bind_induction hc (fun _ _ _ _ hc => hc.contextSet _ _) attributes

/-- The bridge and the content stand beside what is declared. -/
theorem getText_bindVariables (hc : HasContext context h) {key : Bytes}
    (hkey : ∀ name, IsReserved name → key ≠ utf8 name) :
    ((bindVariables h context declared attributes children b).table context).getText key
      = ((bindAttributes (bindDefaults h context declared) context declared
          attributes).table context).getText key := by
  have hbound : HasContext context
      (bindAttributes (bindDefaults h context declared) context declared attributes) :=
    hasContext_bind hc
  have hcontent := hbound.contextSet Vocabulary.childContentBinding (Expansion.contentValue children)
  have hobject : HasContext context (((bindAttributes (bindDefaults h context declared) context
      declared attributes).contextSet context Vocabulary.childContentBinding
        (Expansion.contentValue children)).newObject (.host b)).2 := ⟨hcontent.lt, hcontent.distinct⟩
  refine (hobject.getText_contextSet _ _ key).trans ?_
  rw [if_neg (hkey _ (.inl rfl))]
  refine (hbound.getText_contextSet _ _ key).trans ?_
  rw [if_neg (hkey _ (.inr rfl))]

/-- What is declared has a value that there is for it, or else its default. -/
theorem getText_bindVariables_declared (hc : HasContext context h)
    (hnodup : (declared.map Prod.fst).Nodup) {name default : String} {p : Value → Prop}
    (hname : declared.get? name = some default) (hreserved : ¬ IsReserved name)
    (hs : Says attributes name p) :
    IsChosen default p
      (((bindVariables h context declared attributes children b).table context).getText
        (utf8 name)) := by
  have hdeclared : declared.contains name = true := by
    obtain ⟨l₁, l₂, hl, -⟩ := List.lookup_eq_some_iff.1 hname
    rw [OrderedMap.contains, hl]
    simp
  have hdefaults : HasContext context (bindDefaults h context declared) := by
    refine List.foldlRecOn declared _ hc fun h hc e _ => hc.contextSet _ _
  rw [getText_bindVariables hc fun other hother hsame =>
    hreserved (by rwa [utf8_injective hsame])]
  obtain ⟨hmem, hv⟩ | ⟨hall, hv⟩ := getText_bindAttributes hdefaults hdeclared attributes
  · exact .inl ⟨(hs _).1 hmem, hv⟩
  · rw [getText_bindDefaults hc hnodup, hname] at hv
    exact .inr ⟨fun u hu => hall u ((hs u).2 hu), hv⟩

/-- What is not declared has no value. -/
theorem getText_bindVariables_other (hc : HasContext context h) {key : Bytes}
    (hempty : (h.table context).getText key = .nil)
    (hkey : ∀ name, declared.contains name = true ∨ IsReserved name → key ≠ utf8 name) :
    ((bindVariables h context declared attributes children b).table context).getText key
      = .nil := by
  rw [getText_bindVariables hc fun name hname => hkey name (.inr hname)]
  refine (bind_induction (P := fun h => HasContext context h
    ∧ (h.table context).getText key = .nil) ⟨hc, hempty⟩ (fun h name v hname hP => ?_)
      attributes).2
  refine ⟨hP.1.contextSet _ _, ?_⟩
  rw [hP.1.getText_contextSet, if_neg (hkey name (.inl hname))]
  exact hP.2

end Render

end ScriptedViews

import Mathlib.Data.List.Induction
import Mathlib.Data.List.Nodup
import ScriptedViews.Namespace

set_option autoImplicit false

/-! # What the namespaces of a view are

The table of namespaces is built attribute by attribute and changed by the schema locations pair by
pair. Here each part of it is told from the attributes of the root as a whole: a qualifier means what
its last declaration says, an attribute written with it has the value given last, and its views are
where the last pair for its target says, if it is the first qualifier with that target. -/

namespace ScriptedViews

open Vocabulary (sameName)

/-! ## Maps that are built entry by entry -/

namespace OrderedMap

variable {κ ν α : Type} [BEq κ] [LawfulBEq κ]

theorem eraseDups_concat (l : List κ) (k : κ) :
    (l ++ [k]).eraseDups = if k ∈ l then l.eraseDups else l.eraseDups ++ [k] := by
  rw [List.eraseDups_append]
  by_cases hk : k ∈ l
  · rw [if_pos hk, List.removeAll, List.filter_cons, List.filter_nil]
    simp [hk]
  · rw [if_neg hk, List.removeAll, List.filter_cons, List.filter_nil]
    simp [hk, List.eraseDups_cons]

theorem nodup_eraseDups (l : List κ) : l.eraseDups.Nodup := by
  induction l using List.reverseRecOn with
  | nil => exact .nil
  | append_singleton l k ih =>
    rw [eraseDups_concat]
    split
    · exact ih
    · rename_i hk
      refine List.nodup_append.2 ⟨ih, List.nodup_singleton k, fun a ha b hb heq => hk ?_⟩
      rw [← List.mem_singleton.1 hb, ← heq]
      exact List.mem_eraseDups.1 ha

/-- The entry of a key that is there is changed in its place. -/
theorem modify_of_mem [Inhabited ν] {ks : List κ} {k : κ} (hk : k ∈ ks) (hks : ks.Nodup)
    (f : ν → ν) (g g' : κ → ν) (hself : g' k = f (g k)) (hne : ∀ q, q ≠ k → g' q = g q) :
    modify k f (ks.map fun q => (q, g q)) = ks.map fun q => (q, g' q) := by
  induction ks with
  | nil => cases hk
  | cons p ks ih =>
    obtain ⟨hp, hks⟩ := List.nodup_cons.1 hks
    rw [List.map_cons, List.map_cons, modify]
    by_cases heq : p = k
    · subst heq
      have hrest : (ks.map fun q => (q, g q)) = ks.map fun q => (q, g' q) :=
        List.map_congr_left fun q hq => by rw [hne q fun h => hp (h ▸ hq)]
      rw [if_pos (beq_self_eq_true p), hself, hrest]
    · rw [if_neg (by simpa using heq), hne p heq, ih ((List.mem_cons.1 hk).resolve_left (Ne.symm heq)) hks]

/-- The entry of a key that is not there comes behind all others. -/
theorem modify_of_not_mem [Inhabited ν] {ks : List κ} {k : κ} (hk : k ∉ ks) (f : ν → ν)
    (g g' : κ → ν) (hself : g' k = f default) (hne : ∀ q, q ≠ k → g' q = g q) :
    modify k f (ks.map fun q => (q, g q)) = (ks ++ [k]).map fun q => (q, g' q) := by
  induction ks with
  | nil => simp [modify, hself]
  | cons p ks ih =>
    have hp : p ≠ k := fun h => hk (h ▸ List.mem_cons_self)
    rw [List.map_cons, List.cons_append, List.map_cons, modify, if_neg (by simpa using hp), hne p hp,
      ih fun h => hk (List.mem_cons_of_mem p h)]

/-- A map that changes keep changing has its keys in order of first appearance, and what a key has
    is told by the changes to it alone. -/
theorem foldl_modify [Inhabited ν] (key : α → κ) (change : α → ν → ν) (l : List α) :
    l.foldl (fun m a => modify (key a) (change a) m) []
      = (l.map key).eraseDups.map fun k =>
          (k, (l.filter fun a => key a == k).foldl (fun v a => change a v) default) := by
  induction l using List.reverseRecOn with
  | nil => rfl
  | append_singleton l a ih =>
    have hself : ((l ++ [a]).filter fun b => key b == key a).foldl (fun v b => change b v) default
        = change a ((l.filter fun b => key b == key a).foldl (fun v b => change b v) default) := by
      simp [List.filter_append, List.foldl_append]
    have hne (q : κ) (hq : q ≠ key a) : ((l ++ [a]).filter fun b => key b == q).foldl
        (fun v b => change b v) default
          = (l.filter fun b => key b == q).foldl (fun v b => change b v) default := by
      simp [List.filter_append, Ne.symm hq]
    rw [List.foldl_append, ih, List.map_append, List.map_singleton, eraseDups_concat]
    by_cases hmem : key a ∈ l.map key
    · rw [if_pos hmem]
      exact modify_of_mem (List.mem_eraseDups.2 hmem) (nodup_eraseDups _) _ _ _ hself hne
    · rw [if_neg hmem]
      refine modify_of_not_mem (fun h => hmem (List.mem_eraseDups.1 h)) _ _ _ ?_ hne
      have hnone : (l.filter fun b => key b == key a) = [] := by
        refine List.filter_eq_nil_iff.2 fun b hb heq => hmem ?_
        rw [← eq_of_beq heq]
        exact List.mem_map_of_mem hb
      rw [hself, hnone]
      rfl

omit [LawfulBEq κ] in
theorem insert_eq_modify [Inhabited ν] (m : OrderedMap κ ν) (k : κ) (v : ν) :
    insert m k v = modify k (fun _ => v) m := by
  induction m with
  | nil => rfl
  | cons e m ih =>
    obtain ⟨q, u⟩ := e
    rw [insert, modify, ih]

/-- A map of assignments has each key with the value given last. -/
theorem foldl_insert [Inhabited ν] (l : List (κ × ν)) :
    l.foldl (fun m e => insert m e.1 e.2) []
      = (l.map Prod.fst).eraseDups.map fun k =>
          (k, (((l.filter fun e => e.1 == k).map Prod.snd).getLast?).getD default) := by
  have hlast (l : List (κ × ν)) (v : ν) :
      l.foldl (fun _ e => e.2) v = ((l.map Prod.snd).getLast?).getD v := by
    induction l using List.reverseRecOn with
    | nil => rfl
    | append_singleton l e _ => simp
  simp only [insert_eq_modify, foldl_modify, hlast]

end OrderedMap

/-! ## What the attributes of the root say -/

/-- What an attribute of the root says of a qualifier. -/
inductive Mention where
  /-- The qualifier means `target`. -/
  | declares (qualifier target : String)
  /-- The qualifier has an attribute of this name and value. -/
  | uses (qualifier name value : String)

namespace Mention

/-- What an attribute says, given by its written name and its value: nothing without a colon. -/
def of? (name value : String) : Option Mention :=
  (QName.splitColon name.toList).map fun p =>
    if sameName (String.ofList p.1) Vocabulary.xmlnsPrefix then .declares (String.ofList p.2) value
    else .uses (String.ofList p.1) (String.ofList p.2) value

/-- What the attributes of a root say, in order. -/
def all (attributes : List (String × String)) : List Mention :=
  attributes.filterMap fun a => of? a.1 a.2

/-- The qualifier that is mentioned. -/
def qualifier : Mention → String
  | .declares q _ => q
  | .uses q _ _ => q

/-- What a qualifier is declared to mean. -/
def target? (q : String) : Mention → Option String
  | .declares p target => if p = q then some target else none
  | .uses _ _ _ => none

/-- The name and value of an attribute that is written with a qualifier. -/
def use? (q : String) : Mention → Option (String × String)
  | .declares _ _ => none
  | .uses p name value => if p = q then some (name, value) else none

/-- The qualifiers in order of first appearance. -/
def qualifiers (ms : List Mention) : List String :=
  (ms.map qualifier).eraseDups

/-- What a qualifier means: what it is last declared to mean. -/
def targetOf (ms : List Mention) (q : String) : Option String :=
  (ms.filterMap (target? q)).getLast?

/-- The value that is last given to an attribute written with a qualifier. -/
def valueOf (ms : List Mention) (q name : String) : Option String :=
  (((ms.filterMap (use? q)).filter fun e => e.1 = name).map Prod.snd).getLast?

/-- The attributes that are written with a qualifier, in order of first appearance. -/
def attributesOf (ms : List Mention) (q : String) : List (String × String) :=
  ((ms.filterMap (use? q)).map Prod.fst).eraseDups.filterMap fun name =>
    (valueOf ms q name).map fun value => (name, value)

/-- Whether a qualifier means a target, but for the case of ASCII letters. -/
def means (ms : List Mention) (target q : String) : Bool :=
  (targetOf ms q).any (sameName · target)

/-- The words of the schema locations: those that the first qualifier has that means the namespace of
    schema instances. -/
def locationWords (ms : List Mention) : List String :=
  match ((qualifiers ms).find? (means ms Vocabulary.xsiNamespace)).bind
      fun q => valueOf ms q Vocabulary.schemaLocation with
  | some locations => (Text.words locations.toList).map String.ofList
  | none => []

/-- The words as pairs of a target and a URL. -/
def pairs : List String → List (String × String)
  | target :: url :: rest => (target, url) :: pairs rest
  | _ => []

/-- Where the views of a qualifier are: where the last pair for its target says, if no qualifier
    before it has that target; else where the target points. -/
def urlOf (ms : List Mention) (q : String) : Option String :=
  (targetOf ms q).map fun target =>
    if (qualifiers ms).find? (means ms target) = some q then
      ((((pairs (locationWords ms)).filter fun l => sameName target l.1).map
        Prod.snd).getLast?).getD target
    else target

/-- What is known of a qualifier. -/
def namespaceOf (ms : List Mention) (q : String) : Namespace :=
  { target := targetOf ms q, url := urlOf ms q, attributes := attributesOf ms q }

/-! ## The table before the schema locations -/

/-- What a mention makes of what is known of its qualifier. -/
def change : Mention → Namespace → Namespace
  | .declares _ target, n => { n with target := some target }
  | .uses _ name value, n => { n with attributes := n.attributes.insert name value }

theorem record_eq (table : NamespaceTable) (name value : String) :
    table.record name value = match of? name value with
      | none => table
      | some m => OrderedMap.modify m.qualifier m.change table := by
  unfold NamespaceTable.record of?
  cases QName.splitColon name.toList with
  | none => rfl
  | some p =>
    simp only [Option.map_some]
    by_cases hp : sameName (String.ofList p.1) Vocabulary.xmlnsPrefix = true
    · simp only [hp, if_true]
      rfl
    · simp only [hp, if_false, Bool.false_eq_true]
      rfl

theorem foldl_record (attributes : List (String × String)) (table : NamespaceTable) :
    attributes.foldl (fun t a => NamespaceTable.record t a.1 a.2) table
      = (all attributes).foldl (fun t m => OrderedMap.modify m.qualifier m.change t) table := by
  induction attributes generalizing table with
  | nil => rfl
  | cons a attributes ih =>
    rw [List.foldl_cons, ih, record_eq]
    simp only [all, List.filterMap_cons]
    cases of? a.1 a.2 <;> rfl

/-- What the mentions of a qualifier come to. -/
theorem foldl_change (ms : List Mention) (q : String) :
    (ms.filter fun m => m.qualifier == q).foldl (fun n m => m.change n) default
      = { target := targetOf ms q
          url := none
          attributes := (ms.filterMap (use? q)).foldl (fun m e => OrderedMap.insert m e.1 e.2) [] } := by
  induction ms using List.reverseRecOn with
  | nil => rfl
  | append_singleton ms m ih =>
    rw [List.filter_append, List.foldl_append, ih, List.filter_cons, List.filter_nil]
    simp only [targetOf, List.filterMap_append, List.foldl_append, List.filterMap_cons,
      List.filterMap_nil]
    cases m with
    | declares p target =>
      by_cases hp : p = q <;> simp [hp, target?, use?, qualifier, change]
    | uses p name value =>
      by_cases hp : p = q <;> simp [hp, target?, use?, qualifier, change]

/-- A value is given to exactly the names that are used. -/
theorem valueOf_isSome (ms : List Mention) (q name : String) :
    (valueOf ms q name).isSome ↔ name ∈ (ms.filterMap (use? q)).map Prod.fst := by
  rw [valueOf, List.getLast?_isSome, ne_eq, List.map_eq_nil_iff, List.filter_eq_nil_iff]
  simp

theorem attributesOf_eq_map (ms : List Mention) (q : String) :
    attributesOf ms q = ((ms.filterMap (use? q)).map Prod.fst).eraseDups.map fun name =>
      (name, (valueOf ms q name).getD default) := by
  rw [attributesOf, ← List.filterMap_eq_map (f := fun name => (name, (valueOf ms q name).getD default))]
  refine List.filterMap_congr fun name hname => ?_
  obtain ⟨value, hvalue⟩ :=
    Option.isSome_iff_exists.1 ((valueOf_isSome ms q name).2 (List.mem_eraseDups.1 hname))
  simp [hvalue]

theorem foldl_insert_use (ms : List Mention) (q : String) :
    (ms.filterMap (use? q)).foldl (fun m e => OrderedMap.insert m e.1 e.2) []
      = attributesOf ms q := by
  rw [OrderedMap.foldl_insert, attributesOf_eq_map]
  simp only [valueOf, beq_eq_decide]

/-- The attribute of a name is the one with the value last given. -/
theorem lookup_attributesOf (ms : List Mention) (q name : String) :
    (attributesOf ms q).lookup name = valueOf ms q name := by
  have hlookup (names : List String) (v : String → Option String) :
      (names.filterMap fun n => (v n).map fun value => (n, value)).lookup name
        = if name ∈ names then v name else none := by
    induction names with
    | nil => rfl
    | cons n names ih =>
      rw [List.filterMap_cons]
      cases hv : v n with
      | none =>
        by_cases hn : name = n
        · subst hn
          simpa [hv] using ih
        · simpa [hn] using ih
      | some value =>
        by_cases hn : name = n
        · subst hn
          simp [hv]
        · simpa [List.lookup_cons, hn, beq_eq_false_iff_ne.2 hn] using ih
  rw [attributesOf, hlookup]
  split
  · rfl
  · rename_i hname
    rw [List.mem_eraseDups, ← valueOf_isSome, Option.not_isSome_iff_eq_none] at hname
    exact hname.symm

/-- What is known of a qualifier before the schema locations. -/
def recorded (ms : List Mention) (q : String) : Namespace :=
  { target := targetOf ms q, attributes := attributesOf ms q }

theorem foldl_record_eq (attributes : List (String × String)) :
    attributes.foldl (fun t a => NamespaceTable.record t a.1 a.2) []
      = (qualifiers (all attributes)).map fun q => (q, recorded (all attributes) q) := by
  rw [foldl_record, OrderedMap.foldl_modify]
  simp only [foldl_change, foldl_insert_use]
  rfl

/-! ## The schema locations -/

theorem schemaLocations_eq (ms : List Mention) :
    NamespaceTable.schemaLocations ((qualifiers ms).map fun q => (q, recorded ms q))
      = locationWords ms := by
  have hfind : ((NamespaceTable.findByTarget? ((qualifiers ms).map fun q => (q, recorded ms q))
      Vocabulary.xsiNamespace).bind (·.attributes.get? Vocabulary.schemaLocation))
        = ((qualifiers ms).find? (means ms Vocabulary.xsiNamespace)).bind
            fun q => valueOf ms q Vocabulary.schemaLocation := by
    rw [NamespaceTable.findByTarget?, List.find?_map, Option.map_map, Option.bind_map]
    refine Option.bind_congr fun q _ => ?_
    exact lookup_attributesOf ms q Vocabulary.schemaLocation
  exact congrArg (fun o : Option String => match o with
    | some locations => (Text.words locations.toList).map String.ofList
    | none => []) hfind

theorem applyLocations_eq (words : List String) (table : NamespaceTable) :
    table.applyLocations words
      = (pairs words).foldl (fun t l => NamespaceTable.setUrl l.1 l.2 t) table := by
  induction words using pairs.induct generalizing table with
  | case1 target url rest ih => exact ih (table.setUrl target url)
  | case2 words hwords =>
    rw [NamespaceTable.applyLocations, pairs]
    · rfl
    · exact hwords
    · exact hwords

/-- A pair gives its URL to the first qualifier that has its target. -/
theorem setUrl_map {qs : List String} (hqs : qs.Nodup) (known : String → Namespace)
    (target url : String) :
    NamespaceTable.setUrl target url (qs.map fun q => (q, known q)) = qs.map fun q =>
      (q, if qs.find? (fun p => (known p).hasTarget target) = some q
        then { known q with url := some url } else known q) := by
  induction qs with
  | nil => rfl
  | cons p qs ih =>
    obtain ⟨hp, hqs⟩ := List.nodup_cons.1 hqs
    simp only [List.map_cons, NamespaceTable.setUrl]
    by_cases hit : (known p).hasTarget target = true
    · have hrest : ∀ q ∈ qs, p ≠ q := fun q hq heq => hp (heq ▸ hq)
      have hfind : (p :: qs).find? (fun r => (known r).hasTarget target) = some p :=
        List.find?_cons_of_pos hit
      rw [if_pos hit, hfind, if_pos rfl]
      refine congrArg _ (List.map_congr_left fun q hq => ?_)
      rw [if_neg fun h => hrest q hq (Option.some.inj h)]
    · have hnot : qs.find? (fun r => (known r).hasTarget target) ≠ some p :=
        fun h => hp (List.mem_of_find?_eq_some h)
      have hfind : (p :: qs).find? (fun r => (known r).hasTarget target)
          = qs.find? fun r => (known r).hasTarget target := List.find?_cons_of_neg hit
      rw [if_neg hit, hfind, if_neg hnot, ih hqs]

/-- The last pair that a qualifier is the first to have the target of says where it is. -/
theorem foldl_setUrl {qs : List String} (hqs : qs.Nodup) (known : String → Namespace)
    (locations : List (String × String)) :
    locations.foldl (fun t l => NamespaceTable.setUrl l.1 l.2 t) (qs.map fun q => (q, known q))
      = qs.map fun q => (q, { known q with
          url := ((locations.filter fun l =>
            qs.find? (fun p => (known p).hasTarget l.1) = some q).map Prod.snd).getLast?
              <|> (known q).url }) := by
  induction locations using List.reverseRecOn with
  | nil => simp
  | append_singleton locations l ih =>
    rw [List.foldl_append, ih, List.foldl_cons, List.foldl_nil, setUrl_map hqs]
    refine List.map_congr_left fun q _ => ?_
    have hsame : (fun p => Namespace.hasTarget { known p with
        url := ((locations.filter fun l =>
          qs.find? (fun p => (known p).hasTarget l.1) = some p).map Prod.snd).getLast?
            <|> (known p).url } l.1) = fun p => (known p).hasTarget l.1 := rfl
    rw [hsame]
    by_cases hit : qs.find? (fun p => (known p).hasTarget l.1) = some q
    · simp [hit, List.filter_append]
    · simp [hit, List.filter_append]

/-- A qualifier is the first with the target of a pair if that is its own target and it is the first
    that has it. -/
theorem find?_means (ms : List Mention) (q target place : String) (ht : targetOf ms q = some target) :
    (qualifiers ms).find? (means ms place) = some q
      ↔ sameName target place = true ∧ (qualifiers ms).find? (means ms target) = some q := by
  have hself : means ms place q = sameName target place := by rw [means, ht]; rfl
  by_cases hsame : sameName target place = true
  · have hmeans : means ms place = means ms target := by
      funext p
      simp only [means, sameName, eq_of_beq hsame]
    simp [hsame, hmeans]
  · refine iff_of_false (fun h => hsame ?_) fun h => hsame h.1
    rw [← hself]
    exact List.find?_some h

theorem urlOf_eq (ms : List Mention) (q : String) :
    urlOf ms q = ((((pairs (locationWords ms)).filter fun l =>
      (qualifiers ms).find? (means ms l.1) = some q).map Prod.snd).getLast? <|> targetOf ms q) := by
  cases ht : targetOf ms q with
  | none =>
    have hno (place : String) : (qualifiers ms).find? (means ms place) ≠ some q := fun h => by
      have := List.find?_some h
      simp [means, ht] at this
    simp [urlOf, ht, hno]
  | some target =>
    have hhit (l : String × String) : decide ((qualifiers ms).find? (means ms l.1) = some q)
        = decide (sameName target l.1 = true ∧ (qualifiers ms).find? (means ms target) = some q) :=
      decide_eq_decide.2 (find?_means ms q target l.1 ht)
    simp only [hhit, urlOf, ht, Option.map_some]
    by_cases hfirst : (qualifiers ms).find? (means ms target) = some q
    · simp only [hfirst, if_true, and_true, Bool.decide_eq_true]
      cases (((pairs (locationWords ms)).filter fun l => sameName target l.1).map
        Prod.snd).getLast? <;> rfl
    · simp only [hfirst, if_false, and_false, decide_false, List.filter_false]
      rfl

/-- What the attributes of a root make of its qualifiers: an odd number of words in the schema
    locations is an error; else each qualifier that is declared or used has its place where it first
    appears, the target of its last declaration, the last value of each attribute that is written with
    it, and the URL that `urlOf` tells. -/
theorem resolve_eq_mentions (attributes : List (String × String)) :
    NamespaceTable.resolve attributes =
      let ms := all attributes
      let words := locationWords ms
      if words.length % 2 = 1 then .error (.oddSchemaLocation words.length)
      else .ok ((qualifiers ms).map fun q => (q, namespaceOf ms q)) := by
  have hlocated (ms : List Mention) : (NamespaceTable.applyLocations
      ((qualifiers ms).map fun q => (q, recorded ms q)) (locationWords ms)).map
        (fun e => (e.1, NamespaceTable.defaultUrl e.2))
          = (qualifiers ms).map fun q => (q, namespaceOf ms q) := by
    have hnodup : (qualifiers ms).Nodup := OrderedMap.nodup_eraseDups _
    rw [applyLocations_eq, foldl_setUrl hnodup, List.map_map]
    refine List.map_congr_left fun q _ => ?_
    rw [namespaceOf, urlOf_eq]
    simp only [Function.comp_apply, NamespaceTable.defaultUrl, recorded, Option.orElse_eq_orElse,
      Option.orElse_eq_or, Option.or_none]
    rfl
  rw [NamespaceTable.resolve, foldl_record_eq, schemaLocations_eq]
  simp only [hlocated]

end Mention

end ScriptedViews

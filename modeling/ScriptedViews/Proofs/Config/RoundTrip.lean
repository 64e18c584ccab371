import Mathlib.Data.List.Perm.Basic
import ScriptedViews.Config
import ScriptedViews.Proofs.Json.Writing

set_option autoImplicit false

/-! # Settings files

Settings are written as an object with all of them and read back from it. Of any object, what
stands under the name of a setting is what the setting becomes, and nothing else in it counts. -/

namespace ScriptedViews

namespace Json

theorem toString_injective : Function.Injective fun n : Nat => Json.number (toString n) := by
  intro n m h
  have hvalue := congrArg nat? h
  simpa only [nat?_toString, Option.some.injEq] using hvalue

/-- A later entry counts before the first one. -/
theorem get?_obj_cons (key : String) (v : Json) (es : List (String × Json)) (name : String) :
    (obj ((key, v) :: es)).get? name
      = ((obj es).get? name).or (if key = name then some v else none) := by
  simp only [get?, List.reverse_cons, List.find?_append, List.find?_singleton, beq_iff_eq]
  cases es.reverse.find? fun e => e.1 == name with
  | some e => rfl
  | none =>
    by_cases hname : key = name
    · simp [hname]
    · simp [hname]

theorem mem_of_get?_obj {es : List (String × Json)} {name : String} {v : Json}
    (h : (obj es).get? name = some v) : (name, v) ∈ es := by
  obtain ⟨⟨key, v'⟩, hfind, rfl⟩ := Option.map_eq_some_iff.1 h
  have hkey := List.find?_some hfind
  rw [beq_iff_eq] at hkey
  subst hkey
  exact List.mem_reverse.1 (List.mem_of_find?_eq_some hfind)

theorem get?_obj_eq_none {es : List (String × Json)} {name : String} :
    (obj es).get? name = none ↔ name ∉ es.map Prod.fst := by
  simp only [get?, Option.map_eq_none_iff, List.find?_eq_none, List.mem_reverse, beq_iff_eq,
    List.mem_map, not_exists, not_and]

end Json

namespace Config

/-! ## What an object says of settings -/

/-- The types that settings have. -/
inductive SettingType where
  | text
  | count
  | truth

/-- Whether a value is of a type: a text, a number that is written as a count below the limit, or a
    truth value. -/
inductive SettingType.Holds : SettingType → Json → Prop where
  | text (s : String) : Holds .text (.str s)
  | count {n : Nat} (hn : n < countLimit) : Holds .count (.number (toString n))
  | truth (b : Bool) : Holds .truth (.bool b)

/-- The settings with their types. -/
def settingTypes : List (String × SettingType) :=
  [("language", .text), ("contextPoolCapacity", .count), ("compile", .truth),
    ("cacheViews", .truth), ("validateSchema", .truth), ("maxNestingDepth", .count)]

/-- Whether a name is the name of a setting. -/
def IsSetting (name : String) : Prop :=
  name ∈ settingTypes.map Prod.fst

instance (name : String) : Decidable (IsSetting name) :=
  inferInstanceAs (Decidable (name ∈ settingTypes.map Prod.fst))

/-- Whether an object gives each setting once at most, and with a value of its type. -/
structure IsReadable (es : List (String × Json)) : Prop where
  distinct : ((es.map Prod.fst).filter IsSetting).Nodup
  typed : ∀ name type v, (name, type) ∈ settingTypes → (name, v) ∈ es → type.Holds v

/-- Whether a setting is what an object gives it, or its default if the object does not give it. -/
def IsGiven {α : Type} (es : List (String × Json)) (name : String) (write : α → Json)
    (default value : α) : Prop :=
  (name, write value) ∈ es ∨ name ∉ es.map Prod.fst ∧ value = default

/-- Whether all settings are what an object gives them or their defaults. -/
structure Follows (c : Config) (es : List (String × Json)) : Prop where
  language : IsGiven es "language" .str ({} : Config).language c.language
  contextPoolCapacity : IsGiven es "contextPoolCapacity" (fun n => .number (toString n))
    ({} : Config).contextPoolCapacity c.contextPoolCapacity
  compile : IsGiven es "compile" .bool ({} : Config).compile c.compile
  cacheViews : IsGiven es "cacheViews" .bool ({} : Config).cacheViews c.cacheViews
  validateSchema : IsGiven es "validateSchema" .bool ({} : Config).validateSchema c.validateSchema
  maxNestingDepth : IsGiven es "maxNestingDepth" (fun n => .number (toString n))
    ({} : Config).maxNestingDepth c.maxNestingDepth

/-- Whether the counts are below the limit. -/
def IsSized (c : Config) : Prop :=
  c.contextPoolCapacity < countLimit ∧ c.maxNestingDepth < countLimit

theorem IsReadable.of_cons {e : String × Json} {es : List (String × Json)}
    (h : IsReadable (e :: es)) : IsReadable es where
  distinct := by
    have hdistinct := h.distinct
    rw [List.map_cons, List.filter_cons] at hdistinct
    split at hdistinct
    · exact hdistinct.of_cons
    · exact hdistinct
  typed := fun name type v hname hv => h.typed name type v hname (List.mem_cons_of_mem e hv)

theorem IsReadable.not_mem {name : String} {v : Json} {es : List (String × Json)}
    (h : IsReadable ((name, v) :: es)) (hname : IsSetting name) : name ∉ es.map Prod.fst := by
  have hdistinct := h.distinct
  rw [List.map_cons, List.filter_cons_of_pos (by simpa using hname)] at hdistinct
  intro hmem
  exact (List.nodup_cons.1 hdistinct).1 (List.mem_filter.2 ⟨hmem, by simpa using hname⟩)

/-- Of what an object gives once, the name tells the value. -/
theorem IsReadable.get?_eq_some_iff {es : List (String × Json)} (h : IsReadable es) {name : String}
    (hname : IsSetting name) {v : Json} : (Json.obj es).get? name = some v ↔ (name, v) ∈ es := by
  constructor
  · exact Json.mem_of_get?_obj
  · intro hmem
    induction es with
    | nil => exact absurd hmem List.not_mem_nil
    | cons e es ih =>
      obtain ⟨key, v'⟩ := e
      rw [Json.get?_obj_cons]
      rcases List.mem_cons.1 hmem with heq | hmem
      · cases heq
        rw [Json.get?_obj_eq_none.2 (h.not_mem hname), if_pos rfl]
        rfl
      · rw [ih h.of_cons hmem]
        rfl

/-- The settings tell what an object gives apart from their order and from what else it holds. -/
theorem IsReadable.perm {es es' : List (String × Json)} (h : IsReadable es)
    (hperm : (es.filter fun e => IsSetting e.1).Perm (es'.filter fun e => IsSetting e.1)) :
    IsReadable es' where
  distinct := by
    have hdistinct := h.distinct
    simp only [List.filter_map, Function.comp_def] at hdistinct ⊢
    exact (hperm.map Prod.fst).nodup_iff.1 hdistinct
  typed := by
    intro name type v hname hv
    have hsetting : IsSetting name := List.mem_map_of_mem hname
    have hmem := hperm.mem_iff.2 (List.mem_filter.2 ⟨hv, decide_eq_true hsetting⟩)
    exact h.typed name type v hname (List.mem_filter.1 hmem).1

/-! ## One setting -/

theorem lookup_fields_of_not_isSetting {name : String} (hname : ¬ IsSetting name) :
    fields.lookup name = none := by
  have hnames : fields.map Prod.fst = settingTypes.map Prod.fst := rfl
  rw [List.lookup_eq_none_iff]
  intro f hf
  rw [bne_iff_ne]
  rintro rfl
  rw [IsSetting, ← hnames] at hname
  exact hname (List.mem_map_of_mem hf)

theorem count?_toString {n : Nat} (hn : n < countLimit) :
    count? (.number (toString n)) = some n := by
  rw [count?, Json.nat?_toString, Option.filter_some, if_pos (decide_eq_true hn)]

/-- A value of a setting's type becomes the setting, and all others stay. -/
theorem exists_set {name : String} {type : SettingType} {v : Json}
    (hname : (name, type) ∈ settingTypes) (hv : type.Holds v) (c : Config) :
    ∃ set, fields.lookup name = some set ∧ ∃ c', set c v = some c'
      ∧ ∀ n, c'.toJson.get? n = if name = n then some v else c.toJson.get? n := by
  simp only [settingTypes, List.mem_cons, Prod.mk.injEq, List.not_mem_nil, or_false] at hname
  rcases hname with ⟨rfl, rfl⟩ | ⟨rfl, rfl⟩ | ⟨rfl, rfl⟩ | ⟨rfl, rfl⟩ | ⟨rfl, rfl⟩ | ⟨rfl, rfl⟩
  all_goals
    cases hv
    -- only a count can be refused for its value
    first
      | refine ⟨_, rfl, _, rfl, fun n => ?_⟩
      | refine ⟨_, rfl, _, congrArg (Option.map _) (count?_toString ‹_›), fun n => ?_⟩
    split
    · rename_i hn
      subst hn
      rfl
    · rename_i hn
      simp [toJson, Json.get?_obj_cons, hn]

/-- Settings that are written alike are the same. -/
theorem eq_of_get?_toJson {c c' : Config}
    (h : ∀ name, IsSetting name → c.toJson.get? name = c'.toJson.get? name) : c = c' := by
  have hlanguage := Json.str.inj (Option.some.inj (h "language" (by decide)))
  have hcapacity := Json.toString_injective (Option.some.inj (h "contextPoolCapacity" (by decide)))
  have hcompile := Json.bool.inj (Option.some.inj (h "compile" (by decide)))
  have hcache := Json.bool.inj (Option.some.inj (h "cacheViews" (by decide)))
  have hvalidate := Json.bool.inj (Option.some.inj (h "validateSchema" (by decide)))
  have hdepth := Json.toString_injective (Option.some.inj (h "maxNestingDepth" (by decide)))
  cases c
  cases c'
  simp_all

/-! ## All settings -/

/-- What is left of an object says what becomes of the settings read so far. -/
theorem ofEntries_eq {es : List (String × Json)} (h : IsReadable es) {seen : List String}
    (hseen : ∀ name ∈ seen, name ∉ es.map Prod.fst) (c : Config) :
    ∃ c', ofEntries seen c es = some c'
      ∧ ∀ name, IsSetting name →
          c'.toJson.get? name = ((Json.obj es).get? name).or (c.toJson.get? name) := by
  induction es generalizing seen c with
  | nil => exact ⟨c, rfl, fun name _ => rfl⟩
  | cons e es ih =>
    obtain ⟨key, v⟩ := e
    simp only [List.map_cons, List.mem_cons, not_or] at hseen
    by_cases hkey : IsSetting key
    · obtain ⟨⟨name, type⟩, htype, rfl⟩ := List.mem_map.1 hkey
      obtain ⟨set, hset, c₁, hc₁, hput⟩ :=
        exists_set htype (h.typed name type v htype List.mem_cons_self) c
      have hseen' : ∀ n ∈ name :: seen, n ∉ es.map Prod.fst := by
        intro n hn
        rcases List.mem_cons.1 hn with rfl | hn
        · exact h.not_mem hkey
        · exact (hseen n hn).2
      have hfresh : name ∉ seen := fun hmem => (hseen name hmem).1 rfl
      obtain ⟨c', hrun, hall⟩ := ih h.of_cons hseen' c₁
      refine ⟨c', by simp [ofEntries, hset, hfresh, hc₁, hrun], fun n hn => ?_⟩
      rw [hall n hn, hput, Json.get?_obj_cons, Option.or_assoc]
      split <;> rfl
    · obtain ⟨c', hrun, hall⟩ := ih h.of_cons (fun n hn => (hseen n hn).2) c
      refine ⟨c', by simp [ofEntries, lookup_fields_of_not_isSetting hkey, hrun], fun n hn => ?_⟩
      have hne : key ≠ n := by
        rintro rfl
        exact hkey hn
      rw [hall n hn, Json.get?_obj_cons, if_neg hne, Option.or_none]

/-- What an object says of a setting, if it is written as the setting or as its default. -/
theorem isGiven_of_get? {α : Type} {es : List (String × Json)} {name : String} {write : α → Json}
    {default value : α} (hwrite : Function.Injective write)
    (h : some (write value) = ((Json.obj es).get? name).or (some (write default))) :
    IsGiven es name write default value := by
  cases hget : (Json.obj es).get? name with
  | some v =>
    rw [hget] at h
    cases h
    exact .inl (Json.mem_of_get?_obj hget)
  | none =>
    rw [hget] at h
    exact .inr ⟨Json.get?_obj_eq_none.1 hget, hwrite (Option.some.inj h)⟩

theorem follows_of_get? {c : Config} {es : List (String × Json)}
    (h : ∀ name, IsSetting name →
      c.toJson.get? name = ((Json.obj es).get? name).or (({} : Config).toJson.get? name)) :
    Follows c es where
  language := isGiven_of_get? (fun _ _ => Json.str.inj) (h "language" (by decide))
  contextPoolCapacity :=
    isGiven_of_get? Json.toString_injective (h "contextPoolCapacity" (by decide))
  compile := isGiven_of_get? (fun _ _ => Json.bool.inj) (h "compile" (by decide))
  cacheViews := isGiven_of_get? (fun _ _ => Json.bool.inj) (h "cacheViews" (by decide))
  validateSchema := isGiven_of_get? (fun _ _ => Json.bool.inj) (h "validateSchema" (by decide))
  maxNestingDepth := isGiven_of_get? Json.toString_injective (h "maxNestingDepth" (by decide))

theorem parse?_eq {text : String} {j : Json} (h : Json.IsText text j) : parse? text = ofJson? j := by
  rw [parse?, Json.parse?_eq_some_iff.2 h]
  rfl

theorem exists_parse? {text : String} {es : List (String × Json)}
    (htext : Json.IsText text (.obj es)) (h : IsReadable es) :
    ∃ c, parse? text = some c ∧ Follows c es := by
  obtain ⟨c, hrun, hall⟩ := ofEntries_eq h (fun _ hname => absurd hname List.not_mem_nil) {}
  rw [parse?_eq htext]
  exact ⟨c, hrun, follows_of_get? hall⟩

/-- Neither the order of the settings nor what else an object holds counts. -/
theorem ofJson?_perm {es es' : List (String × Json)} (h : IsReadable es)
    (hperm : (es.filter fun e => IsSetting e.1).Perm (es'.filter fun e => IsSetting e.1)) :
    ofJson? (.obj es') = ofJson? (.obj es) := by
  have h' := h.perm hperm
  obtain ⟨c, hrun, hall⟩ := ofEntries_eq h (fun _ hname => absurd hname List.not_mem_nil) {}
  obtain ⟨c', hrun', hall'⟩ := ofEntries_eq h' (fun _ hname => absurd hname List.not_mem_nil) {}
  have heq : c' = c := by
    refine eq_of_get?_toJson fun name hname => ?_
    have hget : (Json.obj es').get? name = (Json.obj es).get? name := by
      ext v
      have hmem := hperm.mem_iff (a := (name, v))
      simp only [List.mem_filter, hname, decide_true, and_true] at hmem
      rw [h'.get?_eq_some_iff hname, h.get?_eq_some_iff hname, hmem]
    rw [hall' name hname, hall name hname, hget]
  rw [ofJson?, ofJson?, hrun, hrun', heq]

/-! ## Settings as they are written -/

theorem IsSized.isReadable {c : Config} (hc : c.IsSized) {es : List (String × Json)}
    (hes : c.toJson = .obj es) : IsReadable es := by
  cases hes
  constructor
  · change ((settingTypes.map Prod.fst).filter IsSetting).Nodup
    decide
  · intro name type v hname hv
    simp only [settingTypes, List.mem_cons, Prod.mk.injEq, List.not_mem_nil, or_false] at hname hv
    rcases hname with ⟨rfl, rfl⟩ | ⟨rfl, rfl⟩ | ⟨rfl, rfl⟩ | ⟨rfl, rfl⟩ | ⟨rfl, rfl⟩ | ⟨rfl, rfl⟩
    all_goals
      simp at hv
      subst hv
    exacts [.text _, .count hc.1, .truth _, .truth _, .truth _, .count hc.2]

theorem isWritable_toJson (c : Config) : c.toJson.IsWritable := by
  refine .obj fun e he => ?_
  simp only [List.mem_cons, List.not_mem_nil, or_false] at he
  rcases he with rfl | rfl | rfl | rfl | rfl | rfl
  exacts [.str _, .number (Json.isNumber_toString _), .bool _, .bool _, .bool _,
    .number (Json.isNumber_toString _)]

theorem IsSized.ofJson?_toJson {c : Config} (hc : c.IsSized) : ofJson? c.toJson = some c := by
  obtain ⟨es, hes⟩ : ∃ es, c.toJson = .obj es := ⟨_, rfl⟩
  obtain ⟨c', hrun, hall⟩ :=
    ofEntries_eq (hc.isReadable hes) (fun _ hname => absurd hname List.not_mem_nil) {}
  have heq : c' = c := by
    refine eq_of_get?_toJson fun name hname => ?_
    have hgiven : name ∈ es.map Prod.fst := by
      cases hes
      exact hname
    rw [hall name hname, hes]
    cases hget : (Json.obj es).get? name with
    | some v => rfl
    | none => exact absurd hgiven (Json.get?_obj_eq_none.1 hget)
  rw [hes, ofJson?, hrun, heq]

theorem IsSized.parse?_render {c : Config} (hc : c.IsSized) : parse? c.render = some c := by
  rw [parse?, render, (isWritable_toJson c).parse?_render, Option.bind_some, hc.ofJson?_toJson]

/-! ## Settings that are read -/

theorem lt_of_count? {v : Json} {n : Nat} (h : count? v = some n) : n < countLimit := by
  have hn := (Option.filter_eq_some_iff.1 h).2
  exact of_decide_eq_true hn

theorem IsSized.set {c c' : Config} {f : String × (Config → Json → Option Config)} {v : Json}
    (hc : c.IsSized) (hf : f ∈ fields) (h : f.2 c v = some c') : c'.IsSized := by
  simp only [fields, List.mem_cons, List.not_mem_nil, or_false] at hf
  rcases hf with rfl | rfl | rfl | rfl | rfl | rfl
  all_goals obtain ⟨x, hx, rfl⟩ := Option.map_eq_some_iff.1 h
  exacts [hc, ⟨lt_of_count? hx, hc.2⟩, hc, hc, hc, ⟨hc.1, lt_of_count? hx⟩]

theorem IsSized.ofEntries {es : List (String × Json)} {seen : List String} {c c' : Config}
    (hc : c.IsSized) (h : ofEntries seen c es = some c') : c'.IsSized := by
  induction es generalizing seen c with
  | nil =>
    cases h
    exact hc
  | cons e es ih =>
    rw [Config.ofEntries] at h
    split at h
    · exact ih hc h
    · rename_i set hset
      split at h
      · cases h
      · split at h
        · cases h
        · rename_i c₁ hc₁
          obtain ⟨before, after, hfields, -⟩ := List.lookup_eq_some_iff.1 hset
          have hmem : (e.1, set) ∈ fields := by
            rw [hfields]
            exact List.mem_append_right before List.mem_cons_self
          exact ih (hc.set hmem hc₁) h

theorem IsSized.ofItems {vs : List Json} {fs : List (String × (Config → Json → Option Config))}
    {c c' : Config} (hc : c.IsSized) (hfs : ∀ f ∈ fs, f ∈ fields) (h : ofItems c fs vs = some c') :
    c'.IsSized := by
  induction vs generalizing fs c with
  | nil =>
    rw [Config.ofItems] at h
    cases h
    exact hc
  | cons v vs ih =>
    cases fs with
    | nil => cases h
    | cons f fs =>
      rw [Config.ofItems] at h
      split at h
      · cases h
      · rename_i c₁ hc₁
        exact ih (hc.set (hfs f List.mem_cons_self) hc₁)
          (fun g hg => hfs g (List.mem_cons_of_mem f hg)) h

theorem isSized_default : ({} : Config).IsSized :=
  ⟨by decide, by decide⟩

theorem isSized_of_parse? {text : String} {c : Config} (h : parse? text = some c) : c.IsSized := by
  obtain ⟨j, -, hj⟩ := Option.bind_eq_some_iff.1 h
  unfold ofJson? at hj
  split at hj
  · exact isSized_default.ofEntries hj
  · exact isSized_default.ofItems (fun f hf => hf) hj
  · cases hj

/-! ## Both ways -/

/-- Settings are read as they were written, and settings that were read are written as what reads
    the same. An object that gives each setting once at most and with its type is read, each
    setting is what it gives or the default, and nothing but what it gives to settings counts. -/
theorem settings_round_trip :
    (∀ c : Config, c.IsSized → parse? c.render = some c)
    ∧ (∀ (text : String) (c : Config), parse? text = some c → parse? c.render = some c)
    ∧ (∀ (text : String) (es : List (String × Json)), Json.IsText text (.obj es) → IsReadable es →
      ∃ c, parse? text = some c ∧ Follows c es)
    ∧ ∀ (text text' : String) (es es' : List (String × Json)), Json.IsText text (.obj es) →
      Json.IsText text' (.obj es') → IsReadable es →
      (es.filter fun e => IsSetting e.1).Perm (es'.filter fun e => IsSetting e.1) →
      parse? text' = parse? text := by
  refine ⟨fun c hc => hc.parse?_render, fun text c h => (isSized_of_parse? h).parse?_render,
    fun text es htext h => exists_parse? htext h, ?_⟩
  intro text text' es es' htext htext' h hperm
  rw [parse?_eq htext', parse?_eq htext, ofJson?_perm h hperm]

/-- Settings with a language that needs escapes and with the largest count. -/
def escaped : Config :=
  { language := "a\"\\\n\x01é", contextPoolCapacity := 0xffffffffffffffff, maxNestingDepth := 0 }

/-- What an object holds that gives two settings and something else. -/
def mixedEntries : List (String × Json) :=
  [("x", .arr [.number "1", .obj [("compile", .null)]]), ("compile", .bool false),
    ("contextPoolCapacity", .number (toString 8))]

def mixedText : String :=
  "\x7b \"x\": [1, \x7b\"compile\": null\x7d], \"compile\": false, \"contextPoolCapacity\": 8 \x7d"

/-- The same two settings the other way round, and something else again. -/
def reorderedEntries : List (String × Json) :=
  [("contextPoolCapacity", .number (toString 8)), ("compile", .bool false), ("y", .unpaired)]

def reorderedText : String :=
  "\x7b\"contextPoolCapacity\":8,\"compile\":false,\"y\":\"\\ud800\"\x7d"

theorem isText_mixedText : Json.IsText mixedText (.obj mixedEntries) := by
  have hread : Json.parse? mixedText = some (.obj mixedEntries) := by
    rw [show mixedText = String.ofList _ from rfl, Json.parse?_ofList]
    rfl
  exact Json.parse?_eq_some_iff.1 hread

theorem isText_reorderedText : Json.IsText reorderedText (.obj reorderedEntries) := by
  have hread : Json.parse? reorderedText = some (.obj reorderedEntries) := by
    rw [show reorderedText = String.ofList _ from rfl, Json.parse?_ofList]
    rfl
  exact Json.parse?_eq_some_iff.1 hread

theorem isReadable_mixedEntries : IsReadable mixedEntries where
  distinct := by decide
  typed := by
    intro name type v hname hv
    simp only [settingTypes, mixedEntries, List.mem_cons, Prod.mk.injEq, List.not_mem_nil,
      or_false] at hname hv
    rcases hv with ⟨rfl, rfl⟩ | ⟨rfl, rfl⟩ | ⟨rfl, rfl⟩
    · simp at hname
    · simp at hname
      subst hname
      exact .truth false
    · simp at hname
      subst hname
      exact .count (by decide)

theorem settings_round_trip_mixed :
    parse? escaped.render = some escaped
    ∧ (∃ c, parse? mixedText = some c ∧ Follows c mixedEntries)
    ∧ parse? reorderedText = parse? mixedText
    ∧ ∃ c, parse? mixedText = some c ∧ parse? c.render = some c := by
  have hescaped : escaped.IsSized := ⟨by decide, by decide⟩
  have hperm : (mixedEntries.filter fun e => IsSetting e.1).Perm
      (reorderedEntries.filter fun e => IsSetting e.1) := List.Perm.swap _ _ _
  obtain ⟨hwritten, hagain, hgiven, hsame⟩ := settings_round_trip
  obtain ⟨c, hc, hfollows⟩ := hgiven mixedText mixedEntries isText_mixedText isReadable_mixedEntries
  exact ⟨hwritten escaped hescaped, ⟨c, hc, hfollows⟩,
    hsame mixedText reorderedText mixedEntries reorderedEntries isText_mixedText
      isText_reorderedText isReadable_mixedEntries hperm,
    ⟨c, hc, hagain mixedText c hc⟩⟩

end Config

end ScriptedViews

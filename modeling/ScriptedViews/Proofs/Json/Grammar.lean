import Mathlib.Data.List.DropRight
import ScriptedViews.Proofs.Json.Tokens

set_option autoImplicit false

/-! # The grammar of JSON texts

Which texts spell which values, told without a reader and without its bound on nesting. The reader
reads a text as a value just if the text spells it. -/

namespace ScriptedViews.Json

/-! ## White space -/

/-- Whether all characters are white space. -/
def AreSpaces (cs : List Char) : Prop :=
  ∀ c ∈ cs, isSpace c = true

theorem skipSpace_append {a : List Char} (ha : AreSpaces a) (cs : List Char) :
    skipSpace (a ++ cs) = skipSpace cs :=
  List.dropWhile_append_of_pos ha

theorem skipSpace_cons {c : Char} (hc : isSpace c = false) (cs : List Char) :
    skipSpace (c :: cs) = c :: cs := by
  simp [skipSpace, hc]

theorem skipSpace_skipSpace (cs : List Char) : skipSpace (skipSpace cs) = skipSpace cs :=
  List.dropWhile_idempotent _ _

/-- What is skipped is white space. -/
theorem exists_skipSpace (cs : List Char) : ∃ a, AreSpaces a ∧ cs = a ++ skipSpace cs :=
  ⟨cs.takeWhile isSpace, fun _ hc => List.mem_takeWhile_imp hc,
    List.takeWhile_append_dropWhile.symm⟩

theorem value?_skipSpace (fuel : Nat) (cs : List Char) :
    value? fuel (skipSpace cs) = value? fuel cs := by
  cases fuel with
  | zero => simp [value?]
  | succ fuel => rw [value?, value?, skipSpace_skipSpace]

theorem items?_skipSpace (fuel : Nat) (cs : List Char) :
    items? fuel (skipSpace cs) = items? fuel cs := by
  cases fuel with
  | zero => simp [items?]
  | succ fuel => rw [items?, items?, value?_skipSpace]

theorem entries?_skipSpace (fuel : Nat) (cs : List Char) :
    entries? fuel (skipSpace cs) = entries? fuel cs := by
  cases fuel with
  | zero => simp [entries?]
  | succ fuel => rw [entries?, entries?, skipSpace_skipSpace]

theorem endsNumber_append {a rest : List Char} (ha : AreSpaces a) (hrest : EndsNumber rest) :
    EndsNumber (a ++ rest) := by
  cases a with
  | nil => exact hrest
  | cons c a =>
    have hspace := ha c List.mem_cons_self
    intro d hd
    rw [List.cons_append, List.head?_cons, Option.some.injEq] at hd
    subst hd
    simp only [isSpace, Bool.or_eq_true, beq_iff_eq] at hspace
    rcases hspace with ((rfl | rfl) | rfl) | rfl <;> decide

/-- The marks between values end numbers. -/
theorem endsNumber_mark {mark : Char} (hmark : mark ∈ [',', ']', '\x7d']) (rest : List Char) :
    EndsNumber (mark :: rest) := by
  intro c hc
  rw [List.head?_cons, Option.some.injEq] at hc
  subst hc
  simp only [List.mem_cons, List.not_mem_nil, or_false] at hmark
  rcases hmark with rfl | rfl | rfl <;> decide

/-! ## The grammar -/

/-- The value of a string: none if it is no text. -/
def ofText : Option String → Json
  | some s => .str s
  | none => .unpaired

/-- What a part of a JSON text can be: a value, alone or with white space around it, a list of them
    with commas between them, and an entry of an object or a list of such. -/
inductive Phrase where
  | value (v : Json)
  | element (v : Json)
  | elements (vs : List Json)
  | member (key : Option String) (v : Json)
  | members (es : List (Option String × Json))

/-- How the parts of a JSON text are written. -/
inductive Spells : Phrase → List Char → Prop where
  | null : Spells (.value .null) ['n', 'u', 'l', 'l']
  | yes : Spells (.value (.bool true)) ['t', 'r', 'u', 'e']
  | no : Spells (.value (.bool false)) ['f', 'a', 'l', 's', 'e']
  | number {cs : List Char} (hcs : IsNumber cs) : Spells (.value (.number (String.ofList cs))) cs
  | string {s : Option String} {cs : List Char} (hcs : SpellsString s cs) :
      Spells (.value (ofText s)) ('"' :: (cs ++ ['"']))
  | emptyList {a : List Char} (ha : AreSpaces a) : Spells (.value (.arr [])) ('[' :: (a ++ [']']))
  | list {vs : List Json} {cs : List Char} (hvs : Spells (.elements vs) cs) :
      Spells (.value (.arr vs)) ('[' :: (cs ++ [']']))
  | emptyObject {a : List Char} (ha : AreSpaces a) :
      Spells (.value (.obj [])) ('\x7b' :: (a ++ ['\x7d']))
  | object {es : List (Option String × Json)} {cs : List Char} (hes : Spells (.members es) cs) :
      Spells (.value (objectOf es)) ('\x7b' :: (cs ++ ['\x7d']))
  | element {v : Json} {a cs b : List Char} (ha : AreSpaces a) (hv : Spells (.value v) cs)
      (hb : AreSpaces b) : Spells (.element v) (a ++ cs ++ b)
  | lastElement {v : Json} {cs : List Char} (hv : Spells (.element v) cs) :
      Spells (.elements [v]) cs
  | elements {v : Json} {vs : List Json} {cs ds : List Char} (hv : Spells (.element v) cs)
      (hvs : Spells (.elements vs) ds) : Spells (.elements (v :: vs)) (cs ++ ',' :: ds)
  | member {key : Option String} {v : Json} {a ks b cs : List Char} (ha : AreSpaces a)
      (hkey : SpellsString key ks) (hb : AreSpaces b) (hv : Spells (.element v) cs) :
      Spells (.member key v) (a ++ '"' :: (ks ++ '"' :: (b ++ ':' :: cs)))
  | lastMember {key : Option String} {v : Json} {cs : List Char} (he : Spells (.member key v) cs) :
      Spells (.members [(key, v)]) cs
  | members {key : Option String} {v : Json} {es : List (Option String × Json)} {cs ds : List Char}
      (he : Spells (.member key v) cs) (hes : Spells (.members es) ds) :
      Spells (.members ((key, v) :: es)) (cs ++ ',' :: ds)

/-- Whether a text is the JSON text of a value. -/
def IsText (text : String) (v : Json) : Prop :=
  Spells (.element v) text.toList

/-! ## What is spelled is read -/

/-- What begins like no other value is a number. -/
theorem value?_number {c : Char} (hc : c ∉ ['n', 't', 'f', '"', '[', '\x7b']) (hspace : isSpace c = false)
    (fuel : Nat) (cs : List Char) :
    value? (fuel + 1) (c :: cs)
      = (number? (c :: cs)).map fun r => (.number (String.ofList r.1), r.2) := by
  simp only [List.mem_cons, List.not_mem_nil, or_false, not_or] at hc
  rw [value?, skipSpace_cons hspace]
  split <;> simp_all

theorem IsNumber.exists_cons {cs : List Char} (h : IsNumber cs) :
    ∃ c more, cs = c :: more ∧ c ∉ ['n', 't', 'f', '"', '[', '\x7b'] ∧ isSpace c = false := by
  have hdigit {d : Char} (hd : d.isDigit = true) :
      d ∉ ['n', 't', 'f', '"', '[', '\x7b'] ∧ isSpace d = false := by
    constructor
    · intro hmem
      simp only [List.mem_cons, List.not_mem_nil, or_false] at hmem
      rcases hmem with rfl | rfl | rfl | rfl | rfl | rfl <;> cases hd
    · rw [← Bool.not_eq_true]
      intro hspace
      simp only [isSpace, Bool.or_eq_true, beq_iff_eq] at hspace
      rcases hspace with ((rfl | rfl) | rfl) | rfl <;> cases hd
  cases h with
  | parts hsign hwhole _ _ =>
    rcases hsign with rfl | rfl
    · cases hwhole with
      | zero => exact ⟨'0', _, rfl, hdigit rfl⟩
      | digits hd _ _ => exact ⟨_, _, rfl, hdigit hd⟩
    · exact ⟨'-', _, rfl, by decide, by decide⟩

/-- Nothing that begins with a closing bracket is a list of items. -/
theorem items?_of_bracket {fuel : Nat} {cs rest : List Char} (h : skipSpace cs = ']' :: rest) :
    items? fuel cs = none := by
  have hvalue (fuel : Nat) : value? fuel cs = none := by
    cases fuel with
    | zero => simp [value?]
    | succ fuel => simp [value?, h, number?, intPart?, digits?, takeDigits]
  cases fuel with
  | zero => simp [items?]
  | succ fuel => simp [items?, hvalue]

/-- Nothing that begins with a closing brace is a list of entries. -/
theorem entries?_of_brace {fuel : Nat} {cs rest : List Char} (h : skipSpace cs = '\x7d' :: rest) :
    entries? fuel cs = none := by
  cases fuel with
  | zero => simp [entries?]
  | succ fuel => simp [entries?, h]

theorem value?_string (fuel : Nat) (cs : List Char) :
    value? (fuel + 1) ('"' :: cs) = (stringBody? cs).map fun r => (ofText r.1, r.2) := by
  rw [value?, skipSpace_cons (by decide)]
  rfl

theorem value?_list {fuel : Nat} {cs rest : List Char} {vs : List Json}
    (h : items? fuel cs = some (vs, rest)) : value? (fuel + 1) ('[' :: cs) = some (.arr vs, rest) := by
  simp only [value?, skipSpace_cons (show isSpace '[' = false by decide)]
  split
  · rename_i heq
    rw [items?_of_bracket heq] at h
    cases h
  · rw [items?_skipSpace, h]
    rfl

theorem value?_object {fuel : Nat} {cs rest : List Char} {es : List (Option String × Json)}
    (h : entries? fuel cs = some (es, rest)) :
    value? (fuel + 1) ('\x7b' :: cs) = some (objectOf es, rest) := by
  simp only [value?, skipSpace_cons (show isSpace '\x7b' = false by decide)]
  split
  · rename_i heq
    rw [entries?_of_brace heq] at h
    cases h
  · rw [entries?_skipSpace, h]
    rfl

/-- Whether a part of a text is read as what it is, whatever stands around it. -/
def Phrase.Reads : Phrase → List Char → Prop
  | .value v, cs => ∀ fuel rest, 2 * cs.length ≤ fuel → EndsNumber rest →
    value? fuel (cs ++ rest) = some (v, rest)
  | .element v, cs => ∀ fuel rest, 2 * cs.length ≤ fuel → EndsNumber rest →
    ∃ more, value? fuel (cs ++ rest) = some (v, more) ∧ skipSpace more = skipSpace rest
  | .elements vs, cs => ∀ fuel rest, 2 * cs.length + 1 ≤ fuel →
    items? fuel (cs ++ ']' :: rest) = some (vs, rest)
  | .member key v, cs => ∀ fuel rest, 2 * cs.length ≤ fuel → EndsNumber rest →
    ∃ body after place more, skipSpace (cs ++ rest) = '"' :: body
      ∧ stringBody? body = some (key, after) ∧ skipSpace after = ':' :: place
      ∧ value? fuel place = some (v, more) ∧ skipSpace more = skipSpace rest
  | .members es, cs => ∀ fuel rest, 2 * cs.length + 1 ≤ fuel →
    entries? fuel (cs ++ '\x7d' :: rest) = some (es, rest)

theorem Spells.reads {p : Phrase} {cs : List Char} (h : Spells p cs) : p.Reads cs := by
  induction h with
  | null | yes | no =>
    intro fuel rest hfuel _
    obtain ⟨fuel, rfl⟩ := Nat.exists_eq_add_one_of_ne_zero (Nat.ne_zero_of_lt hfuel)
    simp [value?, skipSpace_cons (show isSpace 'n' = false by decide),
      skipSpace_cons (show isSpace 't' = false by decide),
      skipSpace_cons (show isSpace 'f' = false by decide), dropWord?]
  | number hcs =>
    intro fuel rest hfuel hrest
    obtain ⟨c, cs, rfl, hc, hspace⟩ := hcs.exists_cons
    obtain ⟨fuel, rfl⟩ := Nat.exists_eq_add_one_of_ne_zero (Nat.ne_zero_of_lt hfuel)
    have hread := number?_append hcs hrest
    rw [List.cons_append] at hread ⊢
    rw [value?_number hc hspace, hread]
    rfl
  | @string s cs hcs =>
    intro fuel rest hfuel _
    obtain ⟨fuel, rfl⟩ := Nat.exists_eq_add_one_of_ne_zero (Nat.ne_zero_of_lt hfuel)
    have hread := stringBody?_append hcs rest
    simp only [List.cons_append, List.append_assoc, List.nil_append]
    rw [value?_string, hread]
    rfl
  | emptyList ha =>
    intro fuel rest hfuel _
    obtain ⟨fuel, rfl⟩ := Nat.exists_eq_add_one_of_ne_zero (Nat.ne_zero_of_lt hfuel)
    simp [value?, skipSpace_cons (show isSpace '[' = false by decide), skipSpace_append ha,
      skipSpace_cons (show isSpace ']' = false by decide)]
  | @list vs cs _ ih =>
    intro fuel rest hfuel _
    obtain ⟨fuel, rfl⟩ := Nat.exists_eq_add_one_of_ne_zero (Nat.ne_zero_of_lt hfuel)
    simp only [List.length_cons, List.length_append] at hfuel
    simp only [List.cons_append, List.append_assoc, List.nil_append]
    exact value?_list (ih fuel rest (by omega))
  | emptyObject ha =>
    intro fuel rest hfuel _
    obtain ⟨fuel, rfl⟩ := Nat.exists_eq_add_one_of_ne_zero (Nat.ne_zero_of_lt hfuel)
    simp [value?, skipSpace_cons (show isSpace '\x7b' = false by decide), skipSpace_append ha,
      skipSpace_cons (show isSpace '\x7d' = false by decide)]
  | @object es cs _ ih =>
    intro fuel rest hfuel _
    obtain ⟨fuel, rfl⟩ := Nat.exists_eq_add_one_of_ne_zero (Nat.ne_zero_of_lt hfuel)
    simp only [List.length_cons, List.length_append] at hfuel
    simp only [List.cons_append, List.append_assoc, List.nil_append]
    exact value?_object (ih fuel rest (by omega))
  | element ha _ hb ih =>
    intro fuel rest hfuel hrest
    simp only [List.length_append] at hfuel
    refine ⟨_, ?_, skipSpace_append hb rest⟩
    rw [← value?_skipSpace, List.append_assoc, List.append_assoc, skipSpace_append ha,
      value?_skipSpace]
    exact ih fuel _ (by omega) (endsNumber_append hb hrest)
  | lastElement _ ih =>
    intro fuel rest hfuel
    obtain ⟨fuel, rfl⟩ := Nat.exists_eq_add_one_of_ne_zero (Nat.ne_zero_of_lt hfuel)
    obtain ⟨more, hvalue, hmore⟩ := ih fuel (']' :: rest) (by omega) (endsNumber_mark (by simp) rest)
    rw [skipSpace_cons (by decide)] at hmore
    simp [items?, hvalue, hmore]
  | @elements v vs cs ds _ _ ih ihs =>
    intro fuel rest hfuel
    obtain ⟨fuel, rfl⟩ := Nat.exists_eq_add_one_of_ne_zero (Nat.ne_zero_of_lt hfuel)
    simp only [List.length_append, List.length_cons] at hfuel
    obtain ⟨more, hvalue, hmore⟩ :=
      ih fuel (',' :: (ds ++ ']' :: rest)) (by omega) (endsNumber_mark (by simp) _)
    rw [skipSpace_cons (by decide)] at hmore
    simp [items?, hvalue, hmore, ihs fuel rest (by omega)]
  | @member key v a ks b cs ha hkey hb _ ih =>
    intro fuel rest hfuel hrest
    simp only [List.length_append, List.length_cons] at hfuel
    obtain ⟨more, hvalue, hmore⟩ := ih fuel rest (by omega) hrest
    refine ⟨ks ++ '"' :: (b ++ ':' :: (cs ++ rest)), b ++ ':' :: (cs ++ rest), cs ++ rest, more, ?_,
      stringBody?_append hkey _, ?_, hvalue, hmore⟩
    · rw [List.append_assoc, skipSpace_append ha, List.cons_append, skipSpace_cons (by decide)]
      simp
    · rw [skipSpace_append hb, skipSpace_cons (by decide)]
  | lastMember _ ih =>
    intro fuel rest hfuel
    obtain ⟨fuel, rfl⟩ := Nat.exists_eq_add_one_of_ne_zero (Nat.ne_zero_of_lt hfuel)
    obtain ⟨body, after, place, more, hbody, hkey, hplace, hvalue, hmore⟩ :=
      ih fuel ('\x7d' :: rest) (by omega) (endsNumber_mark (by simp) rest)
    rw [skipSpace_cons (by decide)] at hmore
    simp [entries?, hbody, hkey, hplace, hvalue, hmore]
  | @members key v es cs ds _ _ ih ihs =>
    intro fuel rest hfuel
    obtain ⟨fuel, rfl⟩ := Nat.exists_eq_add_one_of_ne_zero (Nat.ne_zero_of_lt hfuel)
    simp only [List.length_append, List.length_cons] at hfuel
    obtain ⟨body, after, place, more, hbody, hkey, hplace, hvalue, hmore⟩ :=
      ih fuel (',' :: (ds ++ '\x7d' :: rest)) (by omega) (endsNumber_mark (by simp) _)
    rw [skipSpace_cons (by decide)] at hmore
    simp [entries?, hbody, hkey, hplace, hvalue, hmore, ihs fuel rest (by omega)]

/-! ## What is read is spelled -/

theorem append_of_dropWord? {word cs rest : List Char} (h : dropWord? word cs = some rest) :
    cs = word ++ rest := by
  induction word generalizing cs with
  | nil =>
    rw [dropWord?] at h
    exact Option.some.inj h
  | cons w word ih =>
    cases cs with
    | nil => cases h
    | cons c cs =>
      rw [dropWord?] at h
      split at h
      · rename_i hc
        rw [hc, ih h]
        rfl
      · cases h

/-- What begins with the first letter of a word and is read as the word's value spells it. -/
theorem spells_word {c : Char} {word cs rest : List Char} {v v' : Json}
    (hword : Spells (.value v) (c :: word))
    (h : (dropWord? word cs).map (fun r => (v, r)) = some (v', rest)) :
    ∃ body, Spells (.value v') body ∧ c :: cs = body ++ rest := by
  obtain ⟨more, hmore, heq⟩ := Option.map_eq_some_iff.1 h
  cases heq
  exact ⟨c :: word, hword, by rw [append_of_dropWord? hmore]; rfl⟩

/-- What stands after a value and white space. -/
theorem spells_element {v : Json} {a body more : List Char} {c : Char} {rest : List Char}
    (ha : AreSpaces a) (hv : Spells (.value v) body) (hmore : skipSpace more = c :: rest) :
    ∃ cs, Spells (.element v) cs ∧ a ++ (body ++ more) = cs ++ c :: rest := by
  obtain ⟨b, hb, hsplit⟩ := exists_skipSpace more
  refine ⟨a ++ body ++ b, .element ha hv hb, ?_⟩
  rw [hsplit, hmore]
  simp

/-- Whether what the readers read with some fuel is spelled. -/
structure ReadsSpelled (fuel : Nat) : Prop where
  value : ∀ {cs v rest}, value? fuel cs = some (v, rest) →
    ∃ a body, AreSpaces a ∧ Spells (.value v) body ∧ cs = a ++ (body ++ rest)
  elements : ∀ {cs vs rest}, items? fuel cs = some (vs, rest) →
    ∃ body, Spells (.elements vs) body ∧ cs = body ++ ']' :: rest
  members : ∀ {cs es rest}, entries? fuel cs = some (es, rest) →
    ∃ body, Spells (.members es) body ∧ cs = body ++ '\x7d' :: rest

theorem ReadsSpelled.value_succ {fuel : Nat} (ih : ReadsSpelled fuel) {cs rest : List Char} {v : Json}
    (h : value? (fuel + 1) cs = some (v, rest)) :
    ∃ a body, AreSpaces a ∧ Spells (.value v) body ∧ cs = a ++ (body ++ rest) := by
  obtain ⟨a, ha, hsplit⟩ := exists_skipSpace cs
  have hspelled : ∃ body, Spells (.value v) body ∧ skipSpace cs = body ++ rest := by
    rw [value?] at h
    split at h
    · rename_i hcs
      exact hcs ▸ spells_word .null h
    · rename_i hcs
      exact hcs ▸ spells_word .yes h
    · rename_i hcs
      exact hcs ▸ spells_word .no h
    · rename_i hcs
      obtain ⟨⟨s, more⟩, hstring, heq⟩ := Option.map_eq_some_iff.1 h
      obtain ⟨body, hbody, hsplit'⟩ := append_of_stringBody? hstring
      cases heq
      exact ⟨_, .string hbody, by rw [hcs, hsplit']; simp⟩
    · rename_i inner hcs
      split at h
      · rename_i more hmore
        obtain ⟨b, hb, hsplit'⟩ := exists_skipSpace inner
        cases h
        exact ⟨_, .emptyList hb, by rw [hcs, hsplit', hmore]; simp⟩
      · obtain ⟨⟨vs, more⟩, hvs, heq⟩ := Option.map_eq_some_iff.1 h
        rw [items?_skipSpace] at hvs
        obtain ⟨body, hbody, hsplit'⟩ := ih.elements hvs
        cases heq
        exact ⟨_, .list hbody, by rw [hcs, hsplit']; simp⟩
    · rename_i inner hcs
      split at h
      · rename_i more hmore
        obtain ⟨b, hb, hsplit'⟩ := exists_skipSpace inner
        cases h
        exact ⟨_, .emptyObject hb, by rw [hcs, hsplit', hmore]; simp⟩
      · obtain ⟨⟨es, more⟩, hes, heq⟩ := Option.map_eq_some_iff.1 h
        rw [entries?_skipSpace] at hes
        obtain ⟨body, hbody, hsplit'⟩ := ih.members hes
        cases heq
        exact ⟨_, .object hbody, by rw [hcs, hsplit']; simp⟩
    · obtain ⟨⟨number, more⟩, hnumber, heq⟩ := Option.map_eq_some_iff.1 h
      obtain ⟨hnumber, hsplit'⟩ := append_of_number? hnumber
      cases heq
      exact ⟨_, .number hnumber, hsplit'⟩
  obtain ⟨body, hbody, heq⟩ := hspelled
  exact ⟨a, body, ha, hbody, by rw [← heq]; exact hsplit⟩

theorem ReadsSpelled.elements_succ {fuel : Nat} (ih : ReadsSpelled fuel) {cs rest : List Char}
    {vs : List Json} (h : items? (fuel + 1) cs = some (vs, rest)) :
    ∃ body, Spells (.elements vs) body ∧ cs = body ++ ']' :: rest := by
  rw [items?] at h
  simp only [Option.bind_eq_bind, Option.bind_eq_some_iff, Prod.exists] at h
  obtain ⟨v, more, hv, h⟩ := h
  obtain ⟨a, body, ha, hbody, rfl⟩ := ih.value hv
  split at h
  · rename_i after hmore
    obtain ⟨⟨vs', more'⟩, hvs, heq⟩ := Option.bind_eq_some_iff.1 h
    cases heq
    obtain ⟨items, hitems, rfl⟩ := ih.elements hvs
    obtain ⟨element, helement, hcs⟩ := spells_element ha hbody hmore
    exact ⟨_, .elements helement hitems, by rw [hcs]; simp⟩
  · rename_i after hmore
    cases h
    obtain ⟨element, helement, hcs⟩ := spells_element ha hbody hmore
    exact ⟨_, .lastElement helement, hcs⟩
  · cases h

theorem ReadsSpelled.members_succ {fuel : Nat} (ih : ReadsSpelled fuel) {cs rest : List Char}
    {es : List (Option String × Json)} (h : entries? (fuel + 1) cs = some (es, rest)) :
    ∃ body, Spells (.members es) body ∧ cs = body ++ '\x7d' :: rest := by
  obtain ⟨a, ha, hsplit⟩ := exists_skipSpace cs
  rw [entries?] at h
  split at h
  · rename_i quoted hquoted
    simp only [Option.bind_eq_bind, Option.bind_eq_some_iff, Prod.exists] at h
    obtain ⟨key, after, hkey, h⟩ := h
    obtain ⟨ks, hks, rfl⟩ := append_of_stringBody? hkey
    obtain ⟨b, hb, hsplit'⟩ := exists_skipSpace after
    split at h
    · rename_i place hplace
      obtain ⟨⟨v, more⟩, hv, htail⟩ := Option.bind_eq_some_iff.1 h
      obtain ⟨a', body, ha', hbody, rfl⟩ := ih.value hv
      split at htail
      · rename_i rest' hmore
        obtain ⟨⟨es', more'⟩, hes, heq⟩ := Option.bind_eq_some_iff.1 htail
        obtain ⟨entries, hentries, rfl⟩ := ih.members hes
        obtain ⟨element, helement, hcs⟩ := spells_element ha' hbody hmore
        cases heq
        exact ⟨_, .members (.member ha hks hb helement) hentries,
          by rw [hsplit, hquoted, hsplit', hplace, hcs]; simp⟩
      · rename_i rest' hmore
        obtain ⟨element, helement, hcs⟩ := spells_element ha' hbody hmore
        cases htail
        exact ⟨_, .lastMember (.member ha hks hb helement),
          by rw [hsplit, hquoted, hsplit', hplace, hcs]; simp⟩
      · cases htail
    · cases h
  · cases h

theorem readsSpelled (fuel : Nat) : ReadsSpelled fuel := by
  induction fuel with
  | zero => exact ⟨fun h => by simp [value?] at h, fun h => by simp [items?] at h,
      fun h => by simp [entries?] at h⟩
  | succ fuel ih => exact ⟨ih.value_succ, ih.elements_succ, ih.members_succ⟩

theorem parse?_ofList (cs : List Char) :
    parse? (String.ofList cs) = (value? (2 * cs.length + 2) cs).bind fun r =>
      if skipSpace r.2 = [] then some r.1 else none := by
  rw [parse?, String.toList_ofList, String.length_ofList]
  cases value? (2 * cs.length + 2) cs <;> rfl

/-- A text is read as a value just if it is the JSON text of it. -/
theorem parse?_eq_some_iff {text : String} {v : Json} : parse? text = some v ↔ IsText text v := by
  constructor
  · intro h
    unfold parse? at h
    split at h
    · rename_i v' rest hv
      split at h
      · rename_i hrest
        cases h
        obtain ⟨a, body, ha, hbody, hsplit⟩ := (readsSpelled _).value hv
        obtain ⟨b, hb, hsplit'⟩ := exists_skipSpace rest
        rw [hrest, List.append_nil] at hsplit'
        rw [IsText, hsplit, hsplit', ← List.append_assoc]
        exact .element ha hbody hb
      · cases h
    · cases h
  · intro h
    obtain ⟨more, hv, hmore⟩ := h.reads (2 * text.length + 2) []
      (by rw [String.length_toList]; omega) (by simp [EndsNumber])
    have hnil : skipSpace more = [] := hmore
    rw [List.append_nil] at hv
    simp [parse?, hv, hnil]

end ScriptedViews.Json

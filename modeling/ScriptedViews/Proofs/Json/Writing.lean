import ScriptedViews.Json.Writer
import ScriptedViews.Proofs.Json.Grammar

set_option autoImplicit false

/-! # Reading what is written

The compact text of a value spells it, so it is read as that value. -/

namespace ScriptedViews.Json

/-! ## Counts -/

theorem decimalValue_toDigits (n : Nat) : decimalValue (Nat.toDigits 10 n) = n := by
  have hvalue := Nat.ofDigitChars_ten_toDigits (n := n)
  rwa [Nat.ofDigitChars_eq_foldl] at hvalue

theorem areDigits_toDigits (n : Nat) : AreDigits (Nat.toDigits 10 n) :=
  fun _ hc => Nat.isDigit_of_mem_toDigits (by decide) (by decide) hc

/-- A positive number is written without zeros at its front. -/
theorem toDigits_of_pos {n : Nat} (hn : 0 < n) :
    ∃ d ds, Nat.toDigits 10 n = d :: ds ∧ d ≠ '0' := by
  have hdigit : ∀ d < 10, 0 < d → d.digitChar ≠ '0' := by decide
  induction n using Nat.strongRecOn with
  | ind n ih =>
    by_cases hlt : n < 10
    · rw [Nat.toDigits_of_lt_base hlt]
      exact ⟨_, [], rfl, hdigit n hlt hn⟩
    · obtain ⟨d, ds, hds, hne⟩ := ih (n / 10) (by omega) (by omega)
      rw [Nat.toDigits_of_base_le (by decide) (by omega), hds]
      exact ⟨d, _, rfl, hne⟩

theorem isNumber_toString (n : Nat) : IsNumber (toString n).toList := by
  have hwhole : IsWhole (Nat.toDigits 10 n) := by
    by_cases hn : n = 0
    · subst hn
      exact .zero
    · obtain ⟨d, ds, hds, hne⟩ := toDigits_of_pos (Nat.pos_of_ne_zero hn)
      have hall := areDigits_toDigits n
      rw [hds] at hall ⊢
      exact .digits (hall d List.mem_cons_self) hne fun c hc => hall c (List.mem_cons_of_mem d hc)
  have hnumber := IsNumber.parts (.inl rfl) hwhole .none .none
  simpa using hnumber

theorem nat?_toString (n : Nat) : nat? (.number (toString n)) = some n := by
  have hall : (Nat.toDigits 10 n).all Char.isDigit = true :=
    List.all_eq_true.2 (areDigits_toDigits n)
  rw [Nat.toString_eq_repr, nat?, Nat.toList_repr, hall, decimalValue_toDigits]
  simp

/-! ## Strings -/

theorem hexDigit?_hexChar {n : Nat} (hn : n < 16) : hexDigit? (hexChar n) = some n := by
  decide +revert

theorem spellsUnit_escapeChar (c : Char) : SpellsUnit (.char c) (escapeChar c) := by
  unfold escapeChar
  split_ifs with hquote hslash hb hf hn hr ht hcontrol
  · subst hquote
    exact .short rfl
  · subst hslash
    exact .short rfl
  · subst hb
    exact .short rfl
  · subst hf
    exact .short rfl
  · subst hn
    exact .short rfl
  · subst hr
    exact .short rfl
  · subst ht
    exact .short rfl
  · have hzero : hexDigit? '0' = some 0 := rfl
    have hcode : ((0 * 16 + 0) * 16 + c.toNat / 16) * 16 + c.toNat % 16 = c.toNat := by omega
    have hunit : unitOf c.toNat = .char c := by
      rw [unitOf, if_neg (by omega), Char.ofNat_toNat]
    have hspelled := SpellsUnit.code hzero hzero
      (hexDigit?_hexChar (n := c.toNat / 16) (by omega))
      (hexDigit?_hexChar (n := c.toNat % 16) (by omega))
    rwa [hcode, hunit] at hspelled
  · exact .plain hquote hslash (by omega)

theorem spellsUnits_escape (cs : List Char) :
    SpellsUnits (cs.map .char) (cs.flatMap escapeChar) := by
  induction cs with
  | nil => exact .nil
  | cons c cs ih => exact .cons (spellsUnit_escapeChar c) ih

theorem pairUp_chars (cs : List Char) : pairUp (cs.map .char) = some cs := by
  induction cs with
  | nil => rfl
  | cons c cs ih => simp [pairUp, ih]

theorem spellsString_escape (s : String) :
    SpellsString (some s) (s.toList.flatMap escapeChar) :=
  ⟨_, spellsUnits_escape s.toList, by simp [pairUp_chars]⟩

theorem toList_quote (s : String) :
    (quote s).toList = '"' :: (s.toList.flatMap escapeChar ++ ['"']) := by
  simp [quote]

/-! ## Values -/

/-- Whether a value can be written: its numbers are numbers, and its strings are texts. -/
inductive IsWritable : Json → Prop where
  | null : IsWritable .null
  | bool (b : Bool) : IsWritable (.bool b)
  | number {written : String} (hnumber : IsNumber written.toList) : IsWritable (.number written)
  | str (s : String) : IsWritable (.str s)
  | arr {items : List Json} (hitems : ∀ v ∈ items, IsWritable v) : IsWritable (.arr items)
  | obj {entries : List (String × Json)} (hentries : ∀ e ∈ entries, IsWritable e.2) :
      IsWritable (.obj entries)

theorem Spells.alone {v : Json} {cs : List Char} (hv : Spells (.value v) cs) :
    Spells (.element v) cs := by
  have hnone : AreSpaces [] := fun c hc => absurd hc List.not_mem_nil
  have hspelled := Spells.element hnone hv hnone
  rwa [List.nil_append, List.append_nil] at hspelled

theorem spells_renderItems {items : List Json} (hne : items ≠ [])
    (hitems : ∀ v ∈ items, Spells (.value v) v.render.toList) :
    Spells (.elements items) (renderItems items).toList := by
  induction items with
  | nil => exact absurd rfl hne
  | cons v items ih =>
    have hv := (hitems v List.mem_cons_self).alone
    cases items with
    | nil =>
      rw [renderItems]
      exact .lastElement hv
    | cons w items =>
      have hrest := ih (List.cons_ne_nil w items) fun u hu => hitems u (List.mem_cons_of_mem v hu)
      have hspelled := Spells.elements hv hrest
      rw [renderItems]
      · simpa using hspelled
      · exact List.cons_ne_nil w items

theorem spells_member (key : String) {v : Json} {cs : List Char} (hv : Spells (.value v) cs) :
    Spells (.member (some key) v) ((quote key).toList ++ ':' :: cs) := by
  have hnone : AreSpaces [] := fun c hc => absurd hc List.not_mem_nil
  have hspelled := Spells.member hnone (spellsString_escape key) hnone hv.alone
  rw [toList_quote]
  simpa using hspelled

theorem spells_renderEntries {entries : List (String × Json)} (hne : entries ≠ [])
    (hentries : ∀ e ∈ entries, Spells (.value e.2) e.2.render.toList) :
    Spells (.members (entries.map fun e => (some e.1, e.2))) (renderEntries entries).toList := by
  induction entries with
  | nil => exact absurd rfl hne
  | cons e entries ih =>
    obtain ⟨key, v⟩ := e
    have hmember := spells_member key (hentries (key, v) List.mem_cons_self)
    cases entries with
    | nil =>
      rw [renderEntries]
      simpa using Spells.lastMember hmember
    | cons e' entries =>
      have hrest := ih (List.cons_ne_nil e' entries)
        fun e he => hentries e (List.mem_cons_of_mem _ he)
      have hspelled := Spells.members hmember hrest
      rw [renderEntries]
      · simpa using hspelled
      · exact List.cons_ne_nil e' entries

/-- Keys that are texts make an object. -/
theorem objectOf_texts (entries : List (String × Json)) :
    objectOf (entries.map fun e => (some e.1, e.2)) = .obj entries := by
  have hall : (entries.map fun e => (some e.1, e.2)).mapM
      (fun e : Option String × Json => e.1.map fun key => (key, e.2)) = some entries := by
    induction entries with
    | nil => rfl
    | cons e entries ih => simp [ih]
  rw [objectOf, hall]

theorem IsWritable.spells_render {v : Json} (h : v.IsWritable) :
    Spells (.value v) v.render.toList := by
  induction h with
  | null => exact .null
  | bool b =>
    cases b with
    | false => exact .no
    | true => exact .yes
  | @number written hnumber =>
    have hspelled := Spells.number hnumber
    rwa [String.ofList_toList] at hspelled
  | str s =>
    rw [render, toList_quote]
    exact .string (spellsString_escape s)
  | @arr items _ ih =>
    by_cases hne : items = []
    · subst hne
      exact .emptyList (a := []) fun c hc => absurd hc List.not_mem_nil
    · have hspelled := Spells.list (spells_renderItems hne ih)
      rw [render]
      simpa using hspelled
  | @obj entries _ ih =>
    by_cases hne : entries = []
    · subst hne
      exact .emptyObject (a := []) fun c hc => absurd hc List.not_mem_nil
    · have hspelled := Spells.object (spells_renderEntries hne ih)
      rw [objectOf_texts] at hspelled
      rw [render]
      simpa using hspelled

/-- What is written is read back. -/
theorem IsWritable.parse?_render {v : Json} (h : v.IsWritable) : parse? v.render = some v :=
  parse?_eq_some_iff.2 h.spells_render.alone

end ScriptedViews.Json

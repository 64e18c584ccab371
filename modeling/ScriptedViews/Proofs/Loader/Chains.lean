import ScriptedViews.Loader.Basic

set_option autoImplicit false

/-! # Chains of loaders

However chains are put into chains, what they come to is the list of the loaders that are not
chains, from left to right. The first of these that has a view serves it; if none has, the first
failure that is more than absence is reported, and no chain on the way turns it into another. -/

namespace ScriptedViews.Loader

variable {sources : Sources} {uri : String}

/-! ## Leaves -/

mutual

/-- The loaders that a loader comes to, from left to right, which are no chains. -/
def leaves : Loader → List Loader
  | .chain members => leavesOf members
  | .memory store => [.memory store]
  | .directory d => [.directory d]
  | .failing error => [.failing error]
  | .other name number => [.other name number]

/-- The loaders that some loaders come to, from left to right, which are no chains. -/
def leavesOf : List Loader → List Loader
  | [] => []
  | l :: ls => leaves l ++ leavesOf ls

end

theorem leavesOf_append (ls ms : List Loader) :
    leavesOf (ls ++ ms) = leavesOf ls ++ leavesOf ms := by
  induction ls with
  | nil => rfl
  | cons l ls ih => rw [List.cons_append, leavesOf, leavesOf, ih, List.append_assoc]

/-- A chain may as well be its members. -/
theorem leavesOf_chain (before inner after : List Loader) :
    leavesOf (before ++ .chain inner :: after) = leavesOf (before ++ inner ++ after) := by
  rw [leavesOf_append, leavesOf_append, leavesOf_append, leavesOf, leaves, List.append_assoc]

/-! ## Loading -/

/-- The bytes that a loader serves for a URI, if it does. -/
def served? (sources : Sources) (uri : String) (l : Loader) : Option ByteArray :=
  (l.load sources uri).toOption

/-- The failure of a loader for a URI, if that is more than absence. -/
def failure? (sources : Sources) (uri : String) (l : Loader) : Option LoaderError :=
  match l.load sources uri with
  | .ok _ => none
  | .error e => if e.isNotFound then none else some e

/-- What some loaders answer together: the first bytes that are served, else the first failure that
    is more than absence, else absence. -/
def answer (sources : Sources) (uri : String) (ls : List Loader) : Except LoaderError ByteArray :=
  match ls.findSome? (served? sources uri) with
  | some data => .ok data
  | none => .error ((ls.findSome? (failure? sources uri)).getD (.notFound uri))

theorem served?_eq_some {l : Loader} {data : ByteArray} :
    served? sources uri l = some data ↔ l.load sources uri = .ok data := by
  unfold served?
  cases l.load sources uri <;> simp [Except.toOption]

/-- Neither served nor failed otherwise is absent. -/
theorem isAbsent_iff {l : Loader} : served? sources uri l = none ∧ failure? sources uri l = none
    ↔ ∃ what, l.load sources uri = .error (.notFound what) := by
  unfold served? failure?
  cases l.load sources uri with
  | ok data => simp [Except.toOption]
  | error e => cases e <;> simp [Except.toOption, LoaderError.isNotFound]

theorem failure?_eq_some {l : Loader} {e : LoaderError} :
    failure? sources uri l = some e ↔ l.load sources uri = .error e ∧ e.isNotFound = false := by
  unfold failure?
  cases l.load sources uri with
  | ok data => simp
  | error e' =>
    dsimp only
    split
    · rename_i hno
      exact ⟨nofun, fun h => by rw [Except.error.inj h.1, h.2] at hno; cases hno⟩
    · rename_i hno
      rw [Option.some.injEq, Except.error.injEq]
      exact ⟨fun h => ⟨h, by rwa [Bool.not_eq_true, h] at hno⟩, fun h => h.1⟩

theorem not_isNotFound_of_findSome? {ls : List Loader} {e : LoaderError}
    (h : ls.findSome? (failure? sources uri) = some e) : e.isNotFound = false := by
  obtain ⟨l, -, hl⟩ := List.exists_of_findSome?_eq_some h
  exact (failure?_eq_some.1 hl).2

/-- Who answers as some loaders do together serves what the first of them serves, and fails, if none
    does, as the first of them that fails. -/
theorem served?_of_load {l : Loader} {ls : List Loader}
    (h : l.load sources uri = answer sources uri ls) :
    served? sources uri l = ls.findSome? (served? sources uri)
      ∧ (served? sources uri l = none →
        failure? sources uri l = ls.findSome? (failure? sources uri)) := by
  rw [served?, failure?, h, answer]
  cases ls.findSome? (served? sources uri) with
  | some data => exact ⟨rfl, nofun⟩
  | none =>
    refine ⟨rfl, fun _ => ?_⟩
    cases hfailure : ls.findSome? (failure? sources uri) with
    | none => rfl
    | some e =>
      have he := not_isNotFound_of_findSome? hfailure
      simp [he]

mutual

/-- A loader serves what the first of its leaves serves. If none does, it fails as the first of them
    that fails. -/
theorem served?_leaves (l : Loader) :
    served? sources uri l = (leaves l).findSome? (served? sources uri)
      ∧ (served? sources uri l = none →
        failure? sources uri l = (leaves l).findSome? (failure? sources uri)) := by
  match l with
  | .chain members =>
    have hload : (chain members).load sources uri = answer sources uri (leavesOf members) := by
      rw [load, loadFirst_eq none members]
      rfl
    exact served?_of_load hload
  | .memory store => simp [leaves]
  | .directory d => simp [leaves]
  | .failing error => simp [leaves]
  | .other name number => simp [leaves]

/-- The failure of an earlier loader comes before those of the leaves. -/
theorem loadFirst_eq (failure : Option LoaderError) (ls : List Loader) :
    loadFirst sources uri failure ls =
      match (leavesOf ls).findSome? (served? sources uri) with
      | some data => .ok data
      | none => .error ((failure <|> (leavesOf ls).findSome? (failure? sources uri)).getD
          (.notFound uri)) := by
  match ls with
  | [] =>
    rw [loadFirst, leavesOf]
    cases failure <;> rfl
  | l :: ls =>
    obtain ⟨hserved, hfailure⟩ := served?_leaves l
    rw [loadFirst, leavesOf, List.findSome?_append, List.findSome?_append, ← hserved]
    cases hload : l.load sources uri with
    | ok data =>
      rw [served?_eq_some.2 hload]
      rfl
    | error e =>
      have hnone : served? sources uri l = none := by
        rw [served?, hload]
        rfl
      rw [← hfailure hnone, hnone, failure?, hload]
      dsimp only
      split
      · rw [loadFirst_eq failure ls]
        rfl
      · rw [loadFirst_eq (failure <|> some e) ls]
        cases failure <;> rfl

end

/-- A chain answers as the loaders do that it comes to. -/
theorem load_chain (members : List Loader) :
    (chain members).load sources uri = answer sources uri (leavesOf members) := by
  rw [load, loadFirst_eq none members]
  rfl

/-- Nothing is there for a loader just if nothing is there for any of its leaves. -/
theorem isAbsent_iff_leaves (l : Loader) : (∃ what, l.load sources uri = .error (.notFound what))
    ↔ ∀ m ∈ leaves l, ∃ what, m.load sources uri = .error (.notFound what) := by
  obtain ⟨hserved, hfailure⟩ := @served?_leaves sources uri l
  simp only [← isAbsent_iff, forall_and]
  rw [← List.findSome?_eq_none_iff, ← List.findSome?_eq_none_iff, ← hserved]
  exact and_congr_right fun hnone => by rw [hfailure hnone]

/-! ## Having a view -/

mutual

theorem provides_leaves (l : Loader) :
    provides sources uri l = (leaves l).any (provides sources uri) := by
  match l with
  | .chain members => rw [provides, leaves, anyProvides_leaves members]
  | .memory store => simp [leaves]
  | .directory d => simp [leaves]
  | .failing error => simp [leaves]
  | .other name number => simp [leaves]

theorem anyProvides_leaves (ls : List Loader) :
    anyProvides sources uri ls = (leavesOf ls).any (provides sources uri) := by
  match ls with
  | [] => rfl
  | l :: ls => rw [anyProvides, leavesOf, List.any_append, provides_leaves l, anyProvides_leaves ls]

end

/-- Whether a loader says that it has just those views that it loads. -/
def IsCandid (sources : Sources) (l : Loader) : Prop :=
  ∀ uri, l.provides sources uri = true ↔ ∃ data, l.load sources uri = .ok data

theorem isCandid_memory (sources : Sources) (store : Nat) : (memory store).IsCandid sources := by
  intro uri
  rw [provides, load, loadMemory]
  cases (sources.stores[store]?).bind (OrderedMap.get? · uri) with
  | none => exact ⟨nofun, nofun⟩
  | some data => exact ⟨fun _ => ⟨data, rfl⟩, fun _ => rfl⟩

theorem isServed_iff_leaves (l : Loader) : (∃ data, l.load sources uri = .ok data)
    ↔ ∃ m ∈ leaves l, ∃ data, m.load sources uri = .ok data := by
  simp only [← served?_eq_some, ← Option.isSome_iff_exists]
  rw [(served?_leaves l).1, List.isSome_findSome?, List.any_eq_true]

theorem isCandid_of_leaves {l : Loader} (h : ∀ m ∈ leaves l, m.IsCandid sources) :
    l.IsCandid sources := by
  intro uri
  rw [provides_leaves, List.any_eq_true, isServed_iff_leaves]
  exact exists_congr fun m => and_congr_right fun hm => h m hm uri

end ScriptedViews.Loader

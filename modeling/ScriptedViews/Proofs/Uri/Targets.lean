import ScriptedViews.Proofs.Text.Minify
import ScriptedViews.Render.Bridge

set_option autoImplicit false

/-! # Targets of calls

Where a tag leads. A call knows the directory that its namespace stands for as a rooted URI with
slashes alone, whoever makes it; the view that it leads to is named in normal form, so it lies below
the root, and two spellings of one place name one view. -/

namespace ScriptedViews.Uri

open Text (splitOn splitOn_eq not_mem_of_mem_splitOn)

/-! ## Slashes -/

theorem slashed_append (cs ds : List Char) : slashed (cs ++ ds) = slashed cs ++ slashed ds :=
  List.map_append

theorem backslash_not_mem_slashed (cs : List Char) : '\\' ∉ slashed cs := by
  intro hmem
  obtain ⟨c, -, hc⟩ := List.mem_map.1 hmem
  split at hc
  · exact absurd hc (by decide)
  · rename_i hne
    exact hne hc

theorem slashed_eq_self {cs : List Char} (h : '\\' ∉ cs) : slashed cs = cs := by
  refine (List.map_congr_left fun c hc => ?_).trans (List.map_id cs)
  exact if_neg fun heq : c = '\\' => h (heq ▸ hc)

/-- Whether a URI begins at the root and has no backslash. -/
structure IsRooted (cs : List Char) : Prop where
  head : cs.head? = some '/'
  slashes : '\\' ∉ cs

theorem IsRooted.exists_cons {cs : List Char} (h : IsRooted cs) : ∃ rest, cs = '/' :: rest := by
  cases cs with
  | nil => cases h.head
  | cons c rest => exact ⟨rest, by rw [Option.some.inj h.head]⟩

theorem isRooted_slashed {cs : List Char} (h : cs.head? = some '/' ∨ cs.head? = some '\\') :
    IsRooted (slashed cs) := by
  refine ⟨?_, backslash_not_mem_slashed cs⟩
  rw [slashed, List.head?_map]
  rcases h with h | h <;> rw [h] <;> rfl

/-! ## Directories -/

theorem directory?_eq_none {cs : List Char} (h : '/' ∉ cs) : directory? cs = none := by
  induction cs with
  | nil => rfl
  | cons c cs ih =>
    rw [directory?, ih fun hmem => h (List.mem_cons_of_mem c hmem)]
    rw [if_neg fun heq : c = '/' => h (heq ▸ List.mem_cons_self)]

theorem directory?_append (cs : List Char) {name : List Char} (h : '/' ∉ name) :
    directory? (cs ++ '/' :: name) = some (cs ++ ['/']) := by
  induction cs with
  | nil =>
    rw [List.nil_append, directory?, directory?_eq_none h]
    rfl
  | cons c cs ih =>
    rw [List.cons_append, directory?, ih]
    rfl

/-- A text with a slash is what stands before its last one and what stands after it. -/
theorem exists_directory {cs : List Char} (h : '/' ∈ cs) :
    ∃ front name, cs = front ++ '/' :: name ∧ '/' ∉ name := by
  induction cs with
  | nil => cases h
  | cons c cs ih =>
    by_cases hrest : '/' ∈ cs
    · obtain ⟨front, name, rfl, hname⟩ := ih hrest
      exact ⟨c :: front, name, rfl, hname⟩
    · rcases List.mem_cons.1 h with rfl | hmem
      · exact ⟨[], cs, rfl, hrest⟩
      · exact absurd hmem hrest

/-- The directory that a rooted URI lies in ends with a slash and begins at the root. -/
theorem IsRooted.exists_directory {cs : List Char} (h : IsRooted cs) :
    ∃ front, directory? cs = some (front ++ ['/']) ∧ IsRooted (front ++ ['/']) := by
  obtain ⟨rest, hcs⟩ := h.exists_cons
  obtain ⟨front, name, heq, hname⟩ :=
    Uri.exists_directory (show '/' ∈ cs from hcs ▸ List.mem_cons_self)
  refine ⟨front, by rw [heq, directory?_append front hname], ?_, fun hmem => h.slashes ?_⟩
  · have hhead := h.head
    rw [heq] at hhead
    cases front <;> exact hhead
  · rw [heq]
    rcases List.mem_append.1 hmem with hmem | hmem
    · exact List.mem_append_left _ hmem
    · exact absurd (List.mem_singleton.1 hmem) (by decide)

/-- The directory that a URI names a view in: everything up to and including the last slash. -/
def directory (uri : String) : String :=
  String.ofList ((directory? (slashed uri.toList)).getD [])

/-! ## Anchors -/

theorem mem_of_mem_unrooted {c : Char} {cs : List Char} (h : c ∈ unrooted cs) : c ∈ cs := by
  unfold unrooted at h
  split at h
  · rename_i rest
    exact List.mem_cons_of_mem _ h
  · exact h

theorem head?_of_isAbsoluteChars {cs : List Char} (h : isAbsoluteChars cs = true)
    (hscheme : hasScheme cs = false) : cs.head? = some '/' ∨ cs.head? = some '\\' := by
  unfold isAbsoluteChars at h
  split at h
  · exact .inl rfl
  · exact .inr rfl
  · rw [hscheme] at h
    cases h

/-- What is anchored in a rooted URI is rooted, unless it has a scheme. -/
theorem isRooted_anchor {uri url : String}
    (huri : uri.toList.head? = some '/' ∨ uri.toList.head? = some '\\')
    (hurl : hasScheme url.toList = false) : IsRooted (anchor uri url).toList := by
  unfold anchor
  split
  · rename_i habsolute
    rw [String.toList_ofList]
    exact isRooted_slashed (head?_of_isAbsoluteChars habsolute hurl)
  · obtain ⟨front, hfront, hrooted⟩ := (isRooted_slashed huri).exists_directory
    rw [resolve, String.toList_ofList, resolveChars, hfront]
    refine ⟨?_, fun hmem => ?_⟩
    · rw [List.head?_append, hrooted.head]
      rfl
    · rcases List.mem_append.1 hmem with hmem | hmem
      · exact hrooted.slashes hmem
      · exact backslash_not_mem_slashed url.toList (mem_of_mem_unrooted hmem)

/-- A rooted URI is the same wherever it is anchored. -/
theorem anchor_of_isRooted (base : String) {uri : String} (h : IsRooted uri.toList) :
    anchor base uri = uri := by
  obtain ⟨rest, hrest⟩ := h.exists_cons
  have habsolute : isAbsolute uri = true := by
    rw [isAbsolute, hrest]
    rfl
  rw [anchor, if_pos habsolute, slashed_eq_self h.slashes, String.ofList_toList]

/-! ## Segments -/

/-- Whether a segment names something in its directory. -/
def IsName (segment : List Char) : Prop :=
  segment ≠ [] ∧ segment ≠ ['.'] ∧ segment ≠ ['.', '.']

@[simp]
theorem collapse_nil (kept : List (List Char)) : collapse kept [] = kept.reverse := rfl

/-- What comes of the first segment. -/
theorem collapse_cons (kept : List (List Char)) (segment : List Char) (rest : List (List Char)) :
    collapse kept (segment :: rest)
      = if segment = [] ∨ segment = ['.'] then collapse kept rest
        else if segment = ['.', '.'] then collapse kept.tail rest
        else collapse (segment :: kept) rest :=
  rfl

theorem collapse_append (kept xs ys : List (List Char)) :
    collapse kept (xs ++ ys) = collapse (collapse kept xs).reverse ys := by
  induction xs generalizing kept with
  | nil => rw [List.nil_append, collapse_nil, List.reverse_reverse]
  | cons x xs ih =>
    rw [List.cons_append, collapse_cons, collapse_cons]
    split
    · exact ih kept
    · split
      · exact ih kept.tail
      · exact ih (x :: kept)

theorem collapse_of_isName {xs : List (List Char)} (h : ∀ x ∈ xs, IsName x)
    (kept : List (List Char)) : collapse kept xs = kept.reverse ++ xs := by
  induction xs generalizing kept with
  | nil => rw [collapse_nil, List.append_nil]
  | cons x xs ih =>
    obtain ⟨hempty, hdot, hdots⟩ := h x List.mem_cons_self
    rw [collapse_cons, if_neg (by simp [hempty, hdot]), if_neg hdots,
      ih fun y hy => h y (List.mem_cons_of_mem x hy)]
    simp

/-- What is left is made of names, which have been there before. -/
theorem mem_collapse {xs kept : List (List Char)} {segment : List Char}
    (h : segment ∈ collapse kept xs) : segment ∈ kept ∨ segment ∈ xs ∧ IsName segment := by
  induction xs generalizing kept with
  | nil => exact .inl (List.mem_reverse.1 h)
  | cons x xs ih =>
    have hlater : ∀ {kept'}, segment ∈ collapse kept' xs → (segment ∈ kept' → segment ∈ kept) →
        segment ∈ kept ∨ segment ∈ x :: xs ∧ IsName segment := by
      intro kept' hmem hsub
      rcases ih hmem with hkept | ⟨hxs, hname⟩
      · exact .inl (hsub hkept)
      · exact .inr ⟨List.mem_cons_of_mem x hxs, hname⟩
    rw [collapse_cons] at h
    split at h
    · exact hlater h id
    · rename_i hdot
      split at h
      · exact hlater h List.mem_of_mem_tail
      · rename_i hdots
        rcases ih h with hkept | ⟨hxs, hname⟩
        · rcases List.mem_cons.1 hkept with rfl | hkept
          · exact .inr ⟨List.mem_cons_self, fun heq => hdot (.inl heq),
              fun heq => hdot (.inr heq), hdots⟩
          · exact .inl hkept
        · exact .inr ⟨List.mem_cons_of_mem x hxs, hname⟩

theorem collapse_nil_cons (xs : List (List Char)) : collapse [] ([] :: xs) = collapse [] xs := by
  rw [collapse_cons, if_pos (.inl rfl)]

theorem collapse_append_nil (xs : List (List Char)) : collapse [] (xs ++ [[]]) = collapse [] xs := by
  rw [collapse_append, collapse_cons, if_pos (.inl rfl), collapse_nil, List.reverse_reverse]

/-- The segments of a URI that are left in its normal form. -/
def segments (cs : List Char) : List (List Char) :=
  collapse [] (splitOn '/' cs)

theorem isName_of_mem_segments {cs segment : List Char} (h : segment ∈ segments cs) :
    segment ∈ splitOn '/' cs ∧ IsName segment :=
  (mem_collapse h).resolve_left List.not_mem_nil

theorem splitOn_append_cons (cs ds : List Char) :
    splitOn '/' (cs ++ '/' :: ds) = splitOn '/' cs ++ splitOn '/' ds := by
  rw [splitOn_eq, splitOn_eq, splitOn_eq, List.splitOn_append_cons_self]

/-- The last piece of a text grows with what is written behind it, if that has no separator. -/
theorem splitOn_append_of_not_mem {name : List Char} (h : '/' ∉ name) (cs : List Char) :
    ∃ front last, splitOn '/' (cs ++ name) = front ++ [last ++ name] := by
  by_cases hslash : '/' ∈ cs
  · obtain ⟨front, last, rfl, hlast⟩ := exists_directory hslash
    refine ⟨splitOn '/' front, last, ?_⟩
    rw [List.append_assoc, List.cons_append, splitOn_append_cons, splitOn_eq _ (last ++ name),
      List.splitOn_eq_singleton]
    simp [h, hlast]
  · refine ⟨[], cs, ?_⟩
    rw [splitOn_eq, List.splitOn_eq_singleton, List.nil_append]
    simp [h, hslash]

theorem mem_of_mem_splitOn {c separator : Char} {cs piece : List Char}
    (hpiece : piece ∈ splitOn separator cs) (hc : c ∈ piece) : c ∈ cs := by
  induction cs generalizing piece with
  | nil =>
    rw [List.mem_singleton.1 hpiece] at hc
    exact hc
  | cons d cs ih =>
    rw [splitOn] at hpiece
    split at hpiece
    · rcases List.mem_cons.1 hpiece with rfl | hpiece
      · cases hc
      · exact List.mem_cons_of_mem d (ih hpiece hc)
    · generalize splitOn separator cs = pieces at hpiece ih
      cases pieces with
      | nil =>
        rw [List.mem_singleton.1 hpiece, List.mem_singleton] at hc
        exact hc ▸ List.mem_cons_self
      | cons first pieces =>
        rcases List.mem_cons.1 hpiece with rfl | hpiece
        · rcases List.mem_cons.1 hc with rfl | hc
          · exact List.mem_cons_self
          · exact List.mem_cons_of_mem d (ih List.mem_cons_self hc)
        · exact List.mem_cons_of_mem d (ih (List.mem_cons_of_mem first hpiece) hc)

theorem splitOn_intercalate {xs : List (List Char)} (h : ∀ x ∈ xs, '/' ∉ x) (hne : xs ≠ []) :
    splitOn '/' (List.intercalate ['/'] xs) = xs := by
  rw [splitOn_eq, List.splitOn_intercalate '/' h hne]

/-! ## Schemes -/

theorem hasScheme_iff (cs : List Char) :
    hasScheme cs = true ↔ ∃ front rest, cs = front ++ ':' :: '/' :: '/' :: rest := by
  constructor
  · intro h
    induction cs using hasScheme.induct with
    | case1 => cases h
    | case2 rest => exact ⟨[], rest, rfl⟩
    | case3 c cs hne ih =>
      rw [hasScheme] at h
      · obtain ⟨front, rest, rfl⟩ := ih h
        exact ⟨c :: front, rest, rfl⟩
      · exact hne
  · rintro ⟨front, rest, rfl⟩
    induction front with
    | nil => rfl
    | cons c front ih =>
      rw [List.cons_append]
      unfold hasScheme
      split
      · rename_i heq
        cases heq
      · rfl
      · rename_i heq
        rw [← (List.cons.inj heq).2]
        exact ih

theorem hasScheme_of_append {cs ds : List Char} (h : hasScheme (cs ++ ds) = false) :
    hasScheme cs = false := by
  rw [← Bool.not_eq_true, hasScheme_iff] at h ⊢
  rintro ⟨front, rest, rfl⟩
  exact h ⟨front, rest ++ ds, by simp⟩

/-- A rooted URI without empty segments has no scheme. -/
theorem hasScheme_of_splitOn {cs : List Char} {xs : List (List Char)}
    (h : splitOn '/' cs = [] :: xs) (hxs : [] ∉ xs) : hasScheme cs = false := by
  rw [← Bool.not_eq_true, hasScheme_iff]
  rintro ⟨front, rest, rfl⟩
  have hsplit : splitOn '/' (front ++ [':'] ++ '/' :: ([] ++ '/' :: rest))
      = splitOn '/' (front ++ [':']) ++ [] :: splitOn '/' rest := by
    rw [splitOn_append_cons, splitOn_append_cons]
    rfl
  rw [List.append_assoc] at hsplit
  obtain ⟨piece, pieces, hpieces⟩ := List.exists_cons_of_ne_nil
    (show splitOn '/' (front ++ [':']) ≠ [] from splitOn_eq _ _ ▸ List.splitOn_ne_nil _ _)
  rw [hpieces, List.cons_append] at hsplit
  have heq := hsplit.symm.trans h
  rw [← (List.cons.inj heq).2] at hxs
  exact hxs (List.mem_append_right _ List.mem_cons_self)

/-! ## Normal forms -/

theorem normalizeChars_of_isRooted {cs : List Char} (h : IsRooted cs)
    (hscheme : hasScheme cs = false) :
    normalizeChars cs = '/' :: List.intercalate ['/'] (segments cs)
      ++ if (cs.getLast? = some '/' ∧ 1 < cs.length) ∧ segments cs ≠ [] then ['/'] else [] := by
  rw [normalizeChars, hscheme]
  simp only [Bool.false_eq_true, if_false, h.head, if_true]
  rfl

/-- The normal form of a rooted URI has the segments that are left in it, and no others. -/
theorem splitOn_normalizeChars {cs : List Char} (h : IsRooted cs)
    (hscheme : hasScheme cs = false) :
    splitOn '/' (normalizeChars cs) = [] :: segments cs
      ∨ splitOn '/' (normalizeChars cs) = [] :: segments cs ++ [[]] := by
  have hnames : ∀ x ∈ segments cs, '/' ∉ x := fun x hx =>
    not_mem_of_mem_splitOn (isName_of_mem_segments hx).1
  rw [normalizeChars_of_isRooted h hscheme]
  generalize hsegments : segments cs = xs at hnames
  cases xs with
  | nil => exact .inr (by simp [List.intercalate, splitOn])
  | cons x xs =>
    have hplain : splitOn '/' ('/' :: List.intercalate ['/'] (x :: xs)) = [] :: x :: xs := by
      rw [splitOn, if_pos rfl, splitOn_intercalate hnames (List.cons_ne_nil x xs)]
    split
    · refine .inr ?_
      rw [splitOn_append_cons _ [], hplain]
      rfl
    · refine .inl ?_
      rw [List.append_nil, hplain]

theorem segments_normalizeChars {cs : List Char} (h : IsRooted cs)
    (hscheme : hasScheme cs = false) : segments (normalizeChars cs) = segments cs := by
  have hself : collapse [] (segments cs) = segments cs :=
    collapse_of_isName (fun x hx => (isName_of_mem_segments hx).2) []
  rw [segments]
  rcases splitOn_normalizeChars h hscheme with heq | heq
  · rw [heq, collapse_nil_cons, hself]
  · rw [heq, collapse_append_nil, collapse_nil_cons, hself]

/-! ## Canonical URIs -/

/-- Whether a URI is as views are known by: rooted, with slashes alone and segments that all name
    something, and its own normal form. -/
structure IsCanonical (uri : String) : Prop where
  rooted : IsRooted uri.toList
  names : ∀ segment ∈ splitOn '/' uri.toList.tail, IsName segment
  normal : normalize uri = uri

theorem mem_intercalate {c separator : Char} {xs : List (List Char)}
    (h : c ∈ List.intercalate [separator] xs) : c = separator ∨ ∃ x ∈ xs, c ∈ x := by
  induction xs with
  | nil => cases h
  | cons x xs ih =>
    cases xs with
    | nil =>
      rw [List.intercalate_singleton] at h
      exact .inr ⟨x, List.mem_cons_self, h⟩
    | cons y ys =>
      rw [List.intercalate_cons_cons] at h
      rcases List.mem_append.1 h with h | h
      · rcases List.mem_append.1 h with h | h
        · exact .inr ⟨x, List.mem_cons_self, h⟩
        · exact .inl (List.mem_singleton.1 h)
      · rcases ih h with rfl | ⟨z, hz, hc⟩
        · exact .inl rfl
        · exact .inr ⟨z, List.mem_cons_of_mem x hz, hc⟩

/-- What is joined ends with its last piece. -/
theorem exists_intercalate_append (separator : Char) (xs : List (List Char)) (last : List Char) :
    ∃ front, List.intercalate [separator] (xs ++ [last]) = front ++ last := by
  induction xs with
  | nil => exact ⟨[], by rw [List.nil_append, List.intercalate_singleton, List.nil_append]⟩
  | cons x xs ih =>
    obtain ⟨front, hfront⟩ := ih
    refine ⟨x ++ [separator] ++ front, ?_⟩
    rw [List.cons_append, List.intercalate_cons_of_ne_nil (by simp), hfront]
    simp

/-- Names with slashes between them are a canonical URI. -/
theorem isCanonical_intercalate {xs : List (List Char)} {last : List Char}
    (hnames : ∀ x ∈ xs ++ [last], IsName x ∧ '/' ∉ x ∧ '\\' ∉ x) :
    IsCanonical (String.ofList ('/' :: List.intercalate ['/'] (xs ++ [last]))) := by
  have hsplit : splitOn '/' (List.intercalate ['/'] (xs ++ [last])) = xs ++ [last] :=
    splitOn_intercalate (fun x hx => (hnames x hx).2.1) (by simp)
  have hrooted : IsRooted ('/' :: List.intercalate ['/'] (xs ++ [last])) := by
    refine ⟨rfl, fun hmem => ?_⟩
    rcases List.mem_cons.1 hmem with heq | hmem
    · exact absurd heq (by decide)
    · rcases mem_intercalate hmem with heq | ⟨x, hx, hc⟩
      · exact absurd heq (by decide)
      · exact (hnames x hx).2.2 hc
  have hall : splitOn '/' ('/' :: List.intercalate ['/'] (xs ++ [last])) = [] :: (xs ++ [last]) := by
    rw [splitOn, if_pos rfl, hsplit]
  have hscheme : hasScheme ('/' :: List.intercalate ['/'] (xs ++ [last])) = false :=
    hasScheme_of_splitOn hall fun hmem => (hnames [] hmem).1.1 rfl
  have hsegments : segments ('/' :: List.intercalate ['/'] (xs ++ [last])) = xs ++ [last] := by
    rw [segments, hall, collapse_nil_cons, collapse_of_isName fun x hx => (hnames x hx).1]
    rfl
  refine ⟨by rwa [String.toList_ofList], fun segment hmem => ?_, ?_⟩
  · rw [String.toList_ofList, List.tail_cons, hsplit] at hmem
    exact (hnames segment hmem).1
  · obtain ⟨front, hfront⟩ := exists_intercalate_append '/' xs last
    obtain ⟨hname, hslash, -⟩ := hnames last (by simp)
    have hlast : ('/' :: List.intercalate ['/'] (xs ++ [last])).getLast? ≠ some '/' := by
      rw [hfront, ← List.cons_append, List.getLast?_append_of_ne_nil _ hname.1]
      exact fun heq => hslash (List.mem_of_getLast? heq)
    rw [normalize, String.toList_ofList, normalizeChars_of_isRooted hrooted hscheme, hsegments,
      if_neg fun h => hlast h.1.1, List.append_nil]

/-! ## Targets -/

/-- What is looked for in a directory: the view that a tag stands for. -/
def viewPath (tag : String) : List Char :=
  unrooted (slashed (tag ++ Vocabulary.viewExtension).toList)

theorem backslash_not_mem_viewPath (tag : String) : '\\' ∉ viewPath tag :=
  fun hmem => backslash_not_mem_slashed _ (mem_of_mem_unrooted hmem)

theorem exists_viewPath (tag : String) :
    ∃ cs, viewPath tag = cs ++ Vocabulary.viewExtension.toList := by
  have hslashed : slashed (tag ++ Vocabulary.viewExtension).toList
      = slashed tag.toList ++ Vocabulary.viewExtension.toList := by
    rw [String.toList_append, slashed_append]
    rfl
  rw [viewPath, hslashed]
  cases slashed tag.toList with
  | nil => exact ⟨[], rfl⟩
  | cons c cs =>
    rw [List.cons_append]
    unfold unrooted
    split
    · rename_i heq
      exact ⟨cs, by rw [← (List.cons.inj heq).2]⟩
    · exact ⟨c :: cs, rfl⟩

/-- Only the segments that are left of a directory matter to what is written behind it. -/
theorem segments_append_cons (front rest : List Char) :
    segments (front ++ '/' :: rest)
      = collapse (segments (front ++ ['/'])).reverse (splitOn '/' rest) := by
  rw [segments, segments, splitOn_append_cons, splitOn_append_cons front [], collapse_append,
    show splitOn '/' [] = [[]] from rfl, collapse_append_nil]

/-- What a view's file is called is always left. -/
theorem exists_segments_viewPath (front : List Char) (tag : String) :
    ∃ xs name, segments (front ++ '/' :: viewPath tag)
      = xs ++ [name ++ Vocabulary.viewExtension.toList] := by
  obtain ⟨rest, hrest⟩ := exists_viewPath tag
  obtain ⟨pieces, last, hpieces⟩ :=
    splitOn_append_of_not_mem (show '/' ∉ Vocabulary.viewExtension.toList by decide) rest
  rw [segments_append_cons, hrest, hpieces, collapse_append]
  have hname : IsName (last ++ Vocabulary.viewExtension.toList) := by
    have hlength : 6 ≤ (last ++ Vocabulary.viewExtension.toList).length := by
      rw [List.length_append]
      exact Nat.le_add_left 6 _
    refine ⟨?_, ?_, ?_⟩ <;> intro heq <;> rw [heq] at hlength <;> simp at hlength
  refine ⟨_, last, collapse_of_isName (fun x hx => ?_) _⟩
  rw [List.mem_singleton.1 hx]
  exact hname

/-- Whether a namespace of a rooted view, and a tag in it, name no place that has a scheme. -/
structure StaysHere (uri url tag : String) : Prop where
  rooted : uri.toList.head? = some '/' ∨ uri.toList.head? = some '\\'
  plain : hasScheme url.toList = false
  resolved : hasScheme (resolve (anchor uri url) (tag ++ Vocabulary.viewExtension)).toList = false

/-- The target of a call is made of the segments that are left of its directory and of what is
    looked for there. -/
theorem exists_target {uri url tag : String} (h : StaysHere uri url tag) :
    ∃ front, IsRooted (front ++ ['/']) ∧ hasScheme (front ++ ['/']) = false
      ∧ directory (anchor uri url) = String.ofList (front ++ ['/'])
      ∧ Bridge.target (anchor uri url) tag = String.ofList
        ('/' :: List.intercalate ['/'] (segments (front ++ '/' :: viewPath tag))) := by
  have hbase := isRooted_anchor h.rooted h.plain
  obtain ⟨front, hfront, hrooted⟩ := hbase.exists_directory
  have hslashed := slashed_eq_self hbase.slashes
  have hresolve : (resolve (anchor uri url) (tag ++ Vocabulary.viewExtension)).toList
      = front ++ ['/'] ++ viewPath tag := by
    rw [resolve, String.toList_ofList, resolveChars, hslashed, hfront]
    rfl
  have hresolved := h.resolved
  rw [hresolve] at hresolved
  have hroot : IsRooted (front ++ ['/'] ++ viewPath tag) := by
    refine ⟨by rw [List.head?_append, hrooted.head]; rfl, fun hmem => ?_⟩
    rcases List.mem_append.1 hmem with hmem | hmem
    · exact hrooted.slashes hmem
    · exact backslash_not_mem_viewPath tag hmem
  obtain ⟨rest, hrest⟩ := exists_viewPath tag
  have hlast : (front ++ ['/'] ++ viewPath tag).getLast? ≠ some '/' := by
    rw [hrest, ← List.append_assoc, List.getLast?_append_of_ne_nil _ (by decide)]
    decide
  refine ⟨front, hrooted, hasScheme_of_append hresolved, ?_, ?_⟩
  · rw [directory, hslashed, hfront, Option.getD_some]
  · rw [Bridge.target, normalize, hresolve, normalizeChars_of_isRooted hroot hresolved,
      if_neg fun h => hlast h.1.1, List.append_nil, List.append_assoc, List.singleton_append]

/-- A call leads to a view below the root, by the one URI that names it: it is made of names, with
    the extension of views, and its own normal form. Of the directory of the call, only what it
    comes to matters, and it is the same from wherever the call is made. -/
theorem target_isCanonical {uri url tag : String} (h : StaysHere uri url tag) :
    IsCanonical (Bridge.target (anchor uri url) tag)
      ∧ Vocabulary.viewExtension.toList <:+ (Bridge.target (anchor uri url) tag).toList
      ∧ (∀ uri' url', StaysHere uri' url' tag →
        normalize (directory (anchor uri' url')) = normalize (directory (anchor uri url)) →
          Bridge.target (anchor uri' url') tag = Bridge.target (anchor uri url) tag)
      ∧ ∀ base, anchor base (anchor uri url) = anchor uri url := by
  obtain ⟨front, hrooted, hscheme, hdirectory, htarget⟩ := exists_target h
  obtain ⟨xs, name, hsegments⟩ := exists_segments_viewPath front tag
  refine ⟨?_, ?_, fun uri' url' h' hsame => ?_, fun base => ?_⟩
  · rw [htarget, hsegments]
    refine isCanonical_intercalate fun x hx => ?_
    rw [← hsegments] at hx
    obtain ⟨hpiece, hname⟩ := isName_of_mem_segments hx
    refine ⟨hname, not_mem_of_mem_splitOn hpiece, fun hmem => ?_⟩
    rcases List.mem_append.1 (mem_of_mem_splitOn hpiece hmem) with hmem | hmem
    · exact hrooted.slashes (List.mem_append_left _ hmem)
    · rcases List.mem_cons.1 hmem with heq | hmem
      · exact absurd heq (by decide)
      · exact backslash_not_mem_viewPath tag hmem
  · obtain ⟨before, hbefore⟩ :=
      exists_intercalate_append '/' xs (name ++ Vocabulary.viewExtension.toList)
    rw [htarget, hsegments, hbefore, String.toList_ofList]
    exact ⟨'/' :: (before ++ name), by simp⟩
  · obtain ⟨front', hrooted', hscheme', hdirectory', htarget'⟩ := exists_target h'
    have hleft : segments (front' ++ ['/']) = segments (front ++ ['/']) := by
      rw [hdirectory, hdirectory', normalize, normalize, String.toList_ofList,
        String.toList_ofList] at hsame
      rw [← segments_normalizeChars hrooted hscheme, ← segments_normalizeChars hrooted' hscheme',
        String.ofList_injective hsame]
    rw [htarget, htarget', segments_append_cons, segments_append_cons front, hleft]
  · exact anchor_of_isRooted base (isRooted_anchor h.rooted h.plain)

/-- Two calls from different places that climb above the root, and lead to one view below it. -/
theorem target_isCanonical_climbing :
    StaysHere "/pages/index.xview" "..\\..//ui/./" "../cards\\card"
      ∧ StaysHere "\\start.xview" "/ui/all" "../cards\\card"
      ∧ normalize (directory (anchor "\\start.xview" "/ui/all"))
        = normalize (directory (anchor "/pages/index.xview" "..\\..//ui/./"))
      ∧ Bridge.target (anchor "/pages/index.xview" "..\\..//ui/./") "../cards\\card"
        = "/cards/card.xview"
      ∧ IsCanonical "/cards/card.xview"
      ∧ Bridge.target (anchor "\\start.xview" "/ui/all") "../cards\\card" = "/cards/card.xview" := by
  have hclimbs : StaysHere "/pages/index.xview" "..\\..//ui/./" "../cards\\card" :=
    ⟨by decide, by decide, by decide⟩
  have hstarts : StaysHere "\\start.xview" "/ui/all" "../cards\\card" :=
    ⟨by decide, by decide, by decide⟩
  have hsame : normalize (directory (anchor "\\start.xview" "/ui/all"))
      = normalize (directory (anchor "/pages/index.xview" "..\\..//ui/./")) := by decide
  have htarget : Bridge.target (anchor "/pages/index.xview" "..\\..//ui/./") "../cards\\card"
      = "/cards/card.xview" := by decide
  obtain ⟨hcanonical, -, hleads, -⟩ := target_isCanonical hclimbs
  rw [htarget] at hcanonical hleads
  exact ⟨hclimbs, hstarts, hsame, htarget, hcanonical, hleads _ _ hstarts hsame⟩

end ScriptedViews.Uri

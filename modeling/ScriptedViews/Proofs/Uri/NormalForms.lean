import ScriptedViews.Proofs.Uri.Targets

set_option autoImplicit false

/-! # Normal forms of URIs

A URI without a scheme is told by three things: whether it begins with a slash, the segments that are
left of it, and whether it ends with a slash. Its normal form spells just these. So a normal form is
its own, and what is joined to a directory comes to the same place as what is joined to the
directory's normal form. -/

namespace ScriptedViews.Uri

open Text (splitOn splitOn_eq not_mem_of_mem_splitOn)

/-! ## Segments as they are written -/

/-- What stands between the slashes of a URI, but for nothing before the first one and nothing after
    the last one. -/
def writtenSegments (cs : List Char) : List (List Char) :=
  let pieces := splitOn '/' cs
  let pieces := if pieces.head? = some [] then pieces.tail else pieces
  if pieces.getLast? = some [] then pieces.dropLast else pieces

theorem mem_of_mem_writtenSegments {cs x : List Char} (h : x ∈ writtenSegments cs) :
    x ∈ splitOn '/' cs := by
  have htail : x ∈ (splitOn '/' cs).tail → x ∈ splitOn '/' cs := List.mem_of_mem_tail
  unfold writtenSegments at h
  dsimp only at h
  split at h <;> split at h
  · exact htail (List.mem_of_mem_dropLast h)
  · exact htail h
  · exact List.mem_of_mem_dropLast h
  · exact h

/-- Between two slashes that stand together there is an empty segment. -/
theorem nil_mem_writtenSegments (front rest : List Char) :
    [] ∈ writtenSegments (front ++ '/' :: '/' :: rest) := by
  have hsplit : splitOn '/' (front ++ '/' :: '/' :: rest)
      = splitOn '/' front ++ [] :: splitOn '/' rest := by
    rw [splitOn_append_cons, splitOn, if_pos rfl]
  have hfront : splitOn '/' front ≠ [] := splitOn_eq _ _ ▸ List.splitOn_ne_nil _ _
  have hrest : splitOn '/' rest ≠ [] := splitOn_eq _ _ ▸ List.splitOn_ne_nil _ _
  rw [writtenSegments, hsplit]
  -- the first piece and the last one are others, so the empty one stays
  split <;> split <;> simp [hfront, hrest, List.tail_append_of_ne_nil, List.dropLast_append_of_ne_nil,
    List.dropLast_cons_of_ne_nil]

/-- The URI made of segments with slashes between them, and one at either end if asked for. Without
    any segment there is no place for a slash at the end. -/
def spellSegments (rooted trailing : Bool) (xs : List (List Char)) : List Char :=
  (if rooted then ['/'] else []) ++ List.intercalate ['/'] xs
    ++ (if trailing && !xs.isEmpty then ['/'] else [])

/-- Whether all segments are names without a slash. -/
def AreNames (xs : List (List Char)) : Prop :=
  ∀ x ∈ xs, IsName x ∧ '/' ∉ x

theorem areNames_segments (cs : List Char) : AreNames (segments cs) := by
  intro x hx
  obtain ⟨hpiece, hname⟩ := isName_of_mem_segments hx
  exact ⟨hname, not_mem_of_mem_splitOn hpiece⟩

section Spelling

variable {rooted trailing : Bool} {xs : List (List Char)}

theorem splitOn_spellSegments (h : AreNames xs) (hne : xs ≠ []) :
    splitOn '/' (spellSegments rooted trailing xs)
      = (if rooted then [[]] else []) ++ xs ++ (if trailing then [[]] else []) := by
  have hbody : splitOn '/' (List.intercalate ['/'] xs) = xs :=
    splitOn_intercalate (fun x hx => (h x hx).2) hne
  have hempty : splitOn '/' [] = [[]] := rfl
  have hend : splitOn '/' (List.intercalate ['/'] xs ++ (if trailing then ['/'] else []))
      = xs ++ (if trailing then [[]] else []) := by
    cases trailing with
    | false => simp [hbody]
    | true => simp [splitOn_append_cons, hbody, hempty]
  have hfilled : xs.isEmpty = false := by simpa using hne
  cases rooted with
  | false => simpa [spellSegments, hfilled] using hend
  | true => simpa [spellSegments, hfilled, splitOn] using hend

theorem segments_spellSegments (h : AreNames xs) :
    segments (spellSegments rooted trailing xs) = xs := by
  by_cases hne : xs = []
  · subst hne
    cases rooted <;> cases trailing <;> rfl
  · have hnames : collapse [] xs = xs := collapse_of_isName (fun x hx => (h x hx).1) []
    rw [segments, splitOn_spellSegments h hne]
    cases rooted <;> cases trailing <;> simp [collapse_nil_cons, collapse_append_nil, hnames]

theorem writtenSegments_spellSegments (h : AreNames xs) :
    writtenSegments (spellSegments rooted trailing xs) = xs := by
  by_cases hne : xs = []
  · subst hne
    cases rooted <;> cases trailing <;> rfl
  · obtain ⟨front, last, rfl⟩ := List.eq_nil_or_concat' xs |>.resolve_left hne
    have hlast : last ≠ [] := (h last (by simp)).1.1
    have hhead : (front ++ [last]).head? ≠ some [] := by
      intro heq
      exact (h [] (List.mem_of_head? heq)).1.1 rfl
    rw [writtenSegments, splitOn_spellSegments h hne]
    cases rooted <;> cases trailing <;> simp_all

theorem head?_spellSegments (h : AreNames xs) :
    (spellSegments rooted trailing xs).head? = some '/' ↔ rooted = true := by
  cases rooted with
  | true => simp [spellSegments]
  | false =>
    cases xs with
    | nil => simp [spellSegments]
    | cons x xs =>
      obtain ⟨hname, hslash⟩ := h x List.mem_cons_self
      cases x with
      | nil => exact absurd rfl hname.1
      | cons c x =>
        have hc : c ≠ '/' := by
          rintro rfl
          exact hslash List.mem_cons_self
        cases xs <;> simp [spellSegments, List.intercalate_cons_cons, hc]

theorem getLast?_spellSegments (h : AreNames xs) (hne : xs ≠ []) :
    (spellSegments rooted trailing xs).getLast? = some '/' ↔ trailing = true := by
  have hfilled : xs.isEmpty = false := by simpa using hne
  cases trailing with
  | true => simp [spellSegments, hfilled]
  | false =>
    obtain ⟨front, last, rfl⟩ := List.eq_nil_or_concat' xs |>.resolve_left hne
    obtain ⟨hname, hslash⟩ := h last (by simp)
    obtain ⟨before, hbefore⟩ := exists_intercalate_append '/' front last
    have hends : (spellSegments rooted false (front ++ [last])).getLast? = last.getLast? := by
      rw [spellSegments, hbefore, Bool.false_and, if_neg Bool.false_ne_true, List.append_nil,
        ← List.append_assoc, List.getLast?_append_of_ne_nil _ hname.1]
    rw [hends]
    simpa using fun heq => hslash (List.mem_of_getLast? heq)

/-- Names with slashes between them have no scheme, for no two slashes stand together. -/
theorem hasScheme_spellSegments (h : AreNames xs) :
    hasScheme (spellSegments rooted trailing xs) = false := by
  rw [← Bool.not_eq_true, hasScheme_iff]
  rintro ⟨front, rest, heq⟩
  have hempty : [] ∈ writtenSegments (front ++ [':'] ++ '/' :: '/' :: rest) :=
    nil_mem_writtenSegments _ _
  rw [List.append_assoc, List.singleton_append, ← heq, writtenSegments_spellSegments h] at hempty
  exact (h [] hempty).1.1 rfl

end Spelling

/-! ## Normal forms are spelled by their segments -/

theorem normalizeChars_eq {cs : List Char} (hscheme : hasScheme cs = false) :
    normalizeChars cs
      = spellSegments (cs.head? = some '/') (cs.getLast? = some '/') (segments cs) := by
  have hlong : cs.getLast? = some '/' → segments cs ≠ [] → 1 < cs.length := by
    intro hlast hne
    cases cs with
    | nil => cases hlast
    | cons c cs =>
      cases cs with
      | nil =>
        -- a slash alone leaves no segment
        rw [List.getLast?_singleton, Option.some.injEq] at hlast
        subst hlast
        exact absurd rfl hne
      | cons d cs => simp
  rw [normalizeChars, hscheme, spellSegments]
  by_cases hne : segments cs = []
  · simp [hne, show collapse [] (splitOn '/' cs) = [] from hne]
  · by_cases hlast : cs.getLast? = some '/'
    · simp [hne, hlast, hlong hlast hne, show collapse [] (splitOn '/' cs) = segments cs from rfl]
    · simp [hlast, show collapse [] (splitOn '/' cs) = segments cs from rfl]

theorem hasScheme_normalizeChars {cs : List Char} (hscheme : hasScheme cs = false) :
    hasScheme (normalizeChars cs) = false := by
  rw [normalizeChars_eq hscheme]
  exact hasScheme_spellSegments (areNames_segments cs)

theorem segments_normalForm {cs : List Char} (hscheme : hasScheme cs = false) :
    segments (normalizeChars cs) = segments cs := by
  rw [normalizeChars_eq hscheme, segments_spellSegments (areNames_segments cs)]

theorem head?_normalizeChars {cs : List Char} (hscheme : hasScheme cs = false) :
    (normalizeChars cs).head? = some '/' ↔ cs.head? = some '/' := by
  rw [normalizeChars_eq hscheme, head?_spellSegments (areNames_segments cs), decide_eq_true_eq]

/-- URIs that begin alike, end alike and have the same segments left are one URI in normal form. -/
theorem normalizeChars_congr {cs ds : List Char} (hcs : hasScheme cs = false)
    (hds : hasScheme ds = false) (hhead : cs.head? = some '/' ↔ ds.head? = some '/')
    (hsegments : segments cs = segments ds)
    (hlast : segments ds ≠ [] → (cs.getLast? = some '/' ↔ ds.getLast? = some '/')) :
    normalizeChars cs = normalizeChars ds := by
  rw [normalizeChars_eq hcs, normalizeChars_eq hds, hsegments]
  by_cases hne : segments ds = []
  · simp [spellSegments, hne, hhead]
  · simp [spellSegments, hhead, hlast hne]

/-- What names spell is in normal form. -/
theorem normalizeChars_spellSegments {rooted trailing : Bool} {xs : List (List Char)}
    (h : AreNames xs) :
    normalizeChars (spellSegments rooted trailing xs) = spellSegments rooted trailing xs := by
  have hrooted : decide ((spellSegments rooted trailing xs).head? = some '/') = rooted :=
    Bool.eq_iff_iff.2 (decide_eq_true_iff.trans (head?_spellSegments h))
  rw [normalizeChars_eq (hasScheme_spellSegments h), segments_spellSegments h, hrooted]
  by_cases hne : xs = []
  · simp [spellSegments, hne]
  · have htrailing : decide ((spellSegments rooted trailing xs).getLast? = some '/') = trailing :=
      Bool.eq_iff_iff.2 (decide_eq_true_iff.trans (getLast?_spellSegments h hne))
    rw [htrailing]

theorem intercalate_concat {xs : List (List Char)} (hne : xs ≠ []) (last : List Char) :
    List.intercalate ['/'] (xs ++ [last]) = List.intercalate ['/'] xs ++ '/' :: last := by
  induction xs with
  | nil => exact absurd rfl hne
  | cons x xs ih =>
    cases xs with
    | nil => simp
    | cons y ys =>
      have hrest := ih (List.cons_ne_nil y ys)
      rw [List.cons_append] at hrest
      simp [hrest]

/-- Pieces with slashes between them are spelled by all but an empty one at the end, which leaves a
    slash. -/
theorem exists_intercalate_eq (pieces : List (List Char)) :
    ∃ trailing, List.intercalate ['/'] pieces = spellSegments false trailing
      (if pieces.getLast? = some [] then pieces.dropLast else pieces) := by
  rcases List.eq_nil_or_concat' pieces with rfl | ⟨front, last, rfl⟩
  · exact ⟨false, rfl⟩
  · by_cases hlast : last = []
    · subst hlast
      refine ⟨true, ?_⟩
      by_cases hfront : front = []
      · subst hfront
        rfl
      · simp [spellSegments, intercalate_concat hfront, hfront]
    · exact ⟨false, by simp [spellSegments, hlast]⟩

theorem normalizeChars_normalizeChars (cs : List Char) :
    normalizeChars (normalizeChars cs) = normalizeChars cs := by
  cases hscheme : hasScheme cs with
  | true =>
    have hself : normalizeChars cs = cs := by rw [normalizeChars, if_pos hscheme]
    rw [hself, hself]
  | false =>
    rw [normalizeChars_eq hscheme]
    exact normalizeChars_spellSegments (areNames_segments cs)

/-- Every URI is spelled by its segments as they are written. -/
theorem exists_eq_spellSegments (cs : List Char) :
    ∃ rooted trailing, cs = spellSegments rooted trailing (writtenSegments cs) := by
  have hcs : cs = List.intercalate ['/'] (splitOn '/' cs) := by
    rw [splitOn_eq, List.intercalate_splitOn]
  have hpieces : splitOn '/' cs ≠ [] := splitOn_eq '/' cs ▸ List.splitOn_ne_nil _ _
  unfold writtenSegments
  generalize splitOn '/' cs = pieces at hcs hpieces
  subst hcs
  obtain ⟨piece, pieces, rfl⟩ := List.exists_cons_of_ne_nil hpieces
  cases piece with
  | nil =>
    cases pieces with
    | nil => exact ⟨false, false, rfl⟩
    | cons piece pieces =>
      obtain ⟨trailing, htrailing⟩ := exists_intercalate_eq (piece :: pieces)
      refine ⟨true, trailing, ?_⟩
      simpa [spellSegments] using htrailing
  | cons c piece =>
    obtain ⟨trailing, htrailing⟩ := exists_intercalate_eq ((c :: piece) :: pieces)
    refine ⟨false, trailing, ?_⟩
    simpa using htrailing

/-- A URI whose segments are all names is its own normal form. -/
theorem normalizeChars_of_isName {cs : List Char} (h : ∀ x ∈ writtenSegments cs, IsName x) :
    normalizeChars cs = cs := by
  have hnames : AreNames (writtenSegments cs) :=
    fun x hx => ⟨h x hx, not_mem_of_mem_splitOn (mem_of_mem_writtenSegments hx)⟩
  obtain ⟨rooted, trailing, hspell⟩ := exists_eq_spellSegments cs
  have hnormal : normalizeChars (spellSegments rooted trailing (writtenSegments cs)) = _ :=
    normalizeChars_spellSegments hnames
  rwa [← hspell] at hnormal

/-! ## Joining -/

theorem hasScheme_of_not_mem {cs : List Char} (h : ':' ∉ cs) : hasScheme cs = false := by
  rw [← Bool.not_eq_true, hasScheme_iff]
  rintro ⟨front, rest, rfl⟩
  simp at h

/-- Only slashes are written into a normal form that were not in the URI. -/
theorem mem_of_mem_normalizeChars {c : Char} {cs : List Char} (hscheme : hasScheme cs = false)
    (h : c ∈ normalizeChars cs) : c = '/' ∨ c ∈ cs := by
  rw [normalizeChars_eq hscheme, spellSegments, List.mem_append, List.mem_append] at h
  rcases h with (h | h) | h
  · exact .inl (by simp at h; exact h.2)
  · rcases mem_intercalate h with h | ⟨x, hx, hc⟩
    · exact .inl h
    · exact .inr (mem_of_mem_splitOn (isName_of_mem_segments hx).1 hc)
  · exact .inl (by simp at h; exact h.2)

theorem segments_append_slash (cs : List Char) : segments (cs ++ ['/']) = segments cs := by
  rw [segments, splitOn_append_cons, show splitOn '/' [] = [[]] from rfl, collapse_append_nil]
  rfl

/-- What is left of a URI that goes on behind a directory. -/
theorem segments_join (front rest : List Char) :
    segments (front ++ '/' :: rest) = collapse (segments front).reverse (splitOn '/' rest) := by
  rw [segments_append_cons, segments_append_slash]

theorem getLast?_join (front rest : List Char) :
    (front ++ '/' :: rest).getLast? = ('/' :: rest).getLast? :=
  List.getLast?_append_of_ne_nil front (List.cons_ne_nil '/' rest)

/-- A segment that names something and the way back up from it lead nowhere. -/
theorem segments_stepBack {name : List Char} (hname : IsName name) (hslash : '/' ∉ name)
    (front rest : List Char) :
    segments (front ++ '/' :: (name ++ '/' :: '.' :: '.' :: '/' :: rest))
      = segments (front ++ '/' :: rest) := by
  have hpieces : splitOn '/' (name ++ '/' :: '.' :: '.' :: '/' :: rest)
      = name :: ['.', '.'] :: splitOn '/' rest := by
    have hparent : splitOn '/' ('.' :: '.' :: '/' :: rest) = ['.', '.'] :: splitOn '/' rest := by
      simp [splitOn]
    rw [splitOn_append_cons, hparent, splitOn_eq _ name, List.splitOn_eq_singleton hslash]
    rfl
  obtain ⟨hempty, hdot, hdots⟩ := hname
  simp [segments_join, hpieces, collapse_cons, hempty, hdot, hdots]

/-- What stands before the last slash of a rooted URI that names follow. -/
def spellDirectory (xs : List (List Char)) : List Char :=
  if xs = [] then [] else spellSegments true false xs

theorem segments_spellDirectory {xs : List (List Char)} (h : AreNames xs) :
    segments (spellDirectory xs) = xs := by
  rw [spellDirectory]
  split
  · rename_i hnone
    rw [hnone]
    rfl
  · exact segments_spellSegments h

theorem spellSegments_trailing (xs : List (List Char)) :
    spellSegments true true xs = spellDirectory xs ++ ['/'] := by
  by_cases hne : xs = [] <;> simp [spellDirectory, spellSegments, hne]

theorem spellSegments_concat (xs : List (List Char)) (last : List Char) :
    spellSegments true false (xs ++ [last]) = spellDirectory xs ++ '/' :: last := by
  by_cases hne : xs = []
  · simp [spellDirectory, spellSegments, hne]
  · simp [spellDirectory, spellSegments, hne, intercalate_concat hne]

/-- What the normal form of a rooted URI has before its last slash comes to what the URI has there, as
    long as it ends in nothing or in a name. -/
theorem normalizeChars_join {front last : List Char} (hrooted : (front ++ '/' :: last).head? = some '/')
    (hslash : '/' ∉ last) (hlast : last = [] ∨ IsName last)
    (hscheme : hasScheme (front ++ '/' :: last) = false) :
    normalizeChars (front ++ '/' :: last) = spellDirectory (segments front) ++ '/' :: last := by
  rw [normalizeChars_eq hscheme, decide_eq_true hrooted, getLast?_join, segments_join]
  rcases hlast with rfl | hname
  · have hfront : collapse (segments front).reverse (splitOn '/' []) = segments front := by
      rw [← segments_join, segments_append_slash]
    rw [hfront]
    exact spellSegments_trailing _
  · have hlast : ('/' :: last).getLast? ≠ some '/' := by
      rw [← List.singleton_append, List.getLast?_append_of_ne_nil _ hname.1]
      exact fun heq => hslash (List.mem_of_getLast? heq)
    have hpieces : splitOn '/' last = [last] := by
      rw [splitOn_eq, List.splitOn_eq_singleton hslash]
    rw [decide_eq_false hlast, hpieces, collapse_of_isName (by simpa using hname),
      List.reverse_reverse]
    exact spellSegments_concat _ _

section Laws

variable {d r : List Char}

theorem head?_append_of_rooted (hrooted : d.head? = some '/') (ds : List Char) :
    (d ++ ds).head? = some '/' := by
  rw [List.head?_append, hrooted]
  rfl

theorem colon_not_mem_normalizeChars (h : ':' ∉ d) : ':' ∉ normalizeChars d := by
  intro hmem
  rcases mem_of_mem_normalizeChars (hasScheme_of_not_mem h) hmem with heq | hmem
  · exact absurd heq (by decide)
  · exact h hmem

theorem hasScheme_join (hd : ':' ∉ d) (hr : ':' ∉ r) : hasScheme (d ++ '/' :: r) = false := by
  refine hasScheme_of_not_mem fun hmem => ?_
  simp [hd, hr] at hmem

/-- Only what a directory comes to matters to what is joined to it. -/
theorem normalizeChars_join_congr {d' : List Char} (hd : ':' ∉ d) (hd' : ':' ∉ d') (hr : ':' ∉ r)
    (hhead : (d ++ '/' :: r).head? = some '/') (hhead' : (d' ++ '/' :: r).head? = some '/')
    (hsegments : segments d = segments d') :
    normalizeChars (d ++ '/' :: r) = normalizeChars (d' ++ '/' :: r) := by
  refine normalizeChars_congr (hasScheme_join hd hr) (hasScheme_join hd' hr) ?_ ?_ fun _ => ?_
  · rw [hhead, hhead']
  · rw [segments_join, segments_join, hsegments]
  · rw [getLast?_join, getLast?_join]

theorem normalizeChars_join_normalizeChars (hrooted : d.head? = some '/') (hd : ':' ∉ d)
    (hr : ':' ∉ r) :
    normalizeChars (d ++ '/' :: r) = normalizeChars (normalizeChars d ++ '/' :: r) := by
  have hscheme := hasScheme_of_not_mem hd
  have hrooted' := (head?_normalizeChars hscheme).2 hrooted
  exact normalizeChars_join_congr hd (colon_not_mem_normalizeChars hd) hr
    (head?_append_of_rooted hrooted _) (head?_append_of_rooted hrooted' _)
    (segments_normalForm hscheme).symm

theorem normalizeChars_stepBack {name : List Char} (hname : IsName name) (hslash : '/' ∉ name)
    (hplain : ':' ∉ name) (hrooted : d.head? = some '/') (hd : ':' ∉ d) (hr : ':' ∉ r) :
    normalizeChars (d ++ '/' :: (name ++ '/' :: '.' :: '.' :: '/' :: r))
      = normalizeChars (d ++ '/' :: r) := by
  have hrest : ':' ∉ name ++ '/' :: '.' :: '.' :: '/' :: r := by simp [hplain, hr]
  refine normalizeChars_congr (hasScheme_join hd hrest) (hasScheme_join hd hr) ?_ ?_ fun _ => ?_
  · rw [head?_append_of_rooted hrooted, head?_append_of_rooted hrooted]
  · exact segments_stepBack hname hslash d r
  · rw [getLast?_join, getLast?_join, ← List.cons_append, getLast?_join]
    exact iff_of_eq (congrArg (· = some '/') (getLast?_join ['/', '.', '.'] r))

/-- Relative to a URI or to its normal form, a URI names the same. -/
theorem normalizeChars_resolveChars {b : List Char} (hb : IsRooted b) (hplain : ':' ∉ b)
    (hlast : ∀ segment, (splitOn '/' b).getLast? = some segment →
      segment ≠ ['.'] ∧ segment ≠ ['.', '.']) (hr : ':' ∉ r) :
    normalizeChars (resolveChars b r) = normalizeChars (resolveChars (normalizeChars b) r) := by
  obtain ⟨rest, hrest⟩ := hb.exists_cons
  obtain ⟨front, last, rfl, hslash⟩ := exists_directory (show '/' ∈ b from hrest ▸ List.mem_cons_self)
  have hname : last = [] ∨ IsName last := by
    have hpieces : splitOn '/' last = [last] := by
      rw [splitOn_eq, List.splitOn_eq_singleton hslash]
    obtain ⟨hdot, hdots⟩ := hlast last (by simp [splitOn_append_cons, hpieces])
    by_cases hempty : last = []
    · exact .inl hempty
    · exact .inr ⟨hempty, hdot, hdots⟩
  have hscheme := hasScheme_of_not_mem hplain
  have hnormal := normalizeChars_join hb.head hslash hname hscheme
  have hslashes : '\\' ∉ normalizeChars (front ++ '/' :: last) := by
    intro hmem
    rcases mem_of_mem_normalizeChars hscheme hmem with heq | hmem
    · exact absurd heq (by decide)
    · exact hb.slashes hmem
  have hcolon := colon_not_mem_normalizeChars hplain
  have hhead := (head?_normalizeChars hscheme).2 hb.head
  have hrelative : ':' ∉ unrooted (slashed r) := by
    intro hmem
    obtain ⟨c, hc, heq⟩ := List.mem_map.1 (mem_of_mem_unrooted hmem)
    split at heq
    · exact absurd heq (by decide)
    · exact hr (heq ▸ hc)
  rw [hnormal] at hslashes hcolon hhead ⊢
  rw [resolveChars, resolveChars, slashed_eq_self hb.slashes, slashed_eq_self hslashes,
    directory?_append _ hslash, directory?_append _ hslash]
  simp only [List.append_assoc, List.singleton_append]
  refine normalizeChars_join_congr (fun h => hplain (List.mem_append_left _ h))
    (fun h => hcolon (List.mem_append_left _ h)) hrelative ?_ ?_ ?_
  · have := hb.head
    cases front <;> simp_all
  · cases hdirectory : spellDirectory (segments front) <;> simp_all
  · exact (segments_spellDirectory (areNames_segments front)).symm

end Laws

/-! ## The laws of the normal form -/

/-- Whether a URI begins with a slash and has no colon. -/
structure IsPath (uri : String) : Prop where
  rooted : uri.toList.head? = some '/'
  plain : ':' ∉ uri.toList

/-- Whether a text is one segment that names something: a step into a directory. -/
structure IsStep (name : String) : Prop where
  isName : IsName name.toList
  single : '/' ∉ name.toList
  plain : ':' ∉ name.toList

/-- Whether others can be read relative to a URI: it has slashes alone, and ends in nothing or in a
    name. -/
structure IsBase (uri : String) : Prop extends IsPath uri where
  slashes : '\\' ∉ uri.toList
  last : ∀ segment, (splitOn '/' uri.toList).getLast? = some segment →
    segment ≠ ['.'] ∧ segment ≠ ['.', '.']

/-- The normal form of a URI is its own. But for a scheme it begins with a slash if the URI does, its
    segments are names, and a URI whose segments are names has it already. A directory may be
    replaced by its normal form, a step into a directory and back left out, and a URI that others are
    read relative to be replaced by its normal form: what is then named is the same. -/
theorem normalize_canonical :
    (∀ uri, normalize (normalize uri) = normalize uri)
      ∧ (∀ uri, hasScheme uri.toList = false →
        ((normalize uri).toList.head? = some '/' ↔ uri.toList.head? = some '/')
          ∧ (∀ segment ∈ writtenSegments (normalize uri).toList, IsName segment)
          ∧ ((∀ segment ∈ writtenSegments uri.toList, IsName segment) → normalize uri = uri))
      ∧ (∀ d r, IsPath d → ':' ∉ r.toList →
        normalize (d ++ "/" ++ r) = normalize (normalize d ++ "/" ++ r)
          ∧ ∀ x, IsStep x → normalize (d ++ "/" ++ x ++ "/../" ++ r) = normalize (d ++ "/" ++ r))
      ∧ ∀ b r, IsBase b → ':' ∉ r.toList →
        normalize (resolve b r) = normalize (resolve (normalize b) r) := by
  refine ⟨fun uri => ?_, fun uri hscheme => ⟨?_, ?_, ?_⟩, fun d r hd hr => ⟨?_, fun x hx => ?_⟩,
    fun b r hb hr => ?_⟩
  · rw [normalize, normalize, String.toList_ofList, normalizeChars_normalizeChars]
  · rw [normalize, String.toList_ofList]
    exact head?_normalizeChars hscheme
  · intro segment hmem
    have hnames := areNames_segments uri.toList
    rw [normalize, String.toList_ofList, normalizeChars_eq hscheme,
      writtenSegments_spellSegments hnames] at hmem
    exact (hnames segment hmem).1
  · intro hnames
    rw [normalize, normalizeChars_of_isName hnames, String.ofList_toList]
  · have hjoin := normalizeChars_join_normalizeChars hd.rooted hd.plain hr
    simpa [normalize] using congrArg String.ofList hjoin
  · have hback := normalizeChars_stepBack hx.isName hx.single hx.plain hd.rooted hd.plain hr
    simpa [normalize] using congrArg String.ofList hback
  · have hbase := normalizeChars_resolveChars ⟨hb.rooted, hb.slashes⟩ hb.plain hb.last hr
    simpa [normalize, resolve] using congrArg String.ofList hbase

/-- A directory with empty segments and dots, a step into another and back, a base with both, and
    URIs that climb. -/
theorem normalize_canonical_climbing :
    hasScheme "/ui/../".toList = false ∧ IsPath "/ui//./cards/../" ∧ ':' ∉ "..//a/".toList
      ∧ IsStep "old" ∧ IsBase "/ui/./old/../pages//index.xview" ∧ ':' ∉ "..\\..//card".toList
      ∧ normalize (normalize "/ui/../") = "/"
      ∧ (∀ segment ∈ writtenSegments (normalize "/ui/../").toList, IsName segment)
      ∧ (∀ segment ∈ writtenSegments "/".toList, IsName segment) ∧ normalize "/" = "/"
      ∧ normalize (normalize "/ui//./cards/../" ++ "/" ++ "..//a/") = "/a/"
      ∧ normalize ("/ui//./cards/../" ++ "/" ++ "old" ++ "/../" ++ "..//a/") = "/a/"
      ∧ normalize (resolve (normalize "/ui/./old/../pages//index.xview") "..\\..//card") = "/card" := by
  have hscheme : hasScheme "/ui/../".toList = false := by decide
  have hpath : IsPath "/ui//./cards/../" := ⟨by decide, by decide⟩
  have hplain : ':' ∉ "..//a/".toList := by decide
  have hstep : IsStep "old" := ⟨by simp [IsName], by decide, by decide⟩
  have hbase : IsBase "/ui/./old/../pages//index.xview" := by
    refine ⟨⟨by decide, by decide⟩, by decide, fun segment hlast => ?_⟩
    have hname : (splitOn '/' "/ui/./old/../pages//index.xview".toList).getLast?
        = some "index.xview".toList := by decide
    rw [← Option.some.inj (hname.symm.trans hlast)]
    exact ⟨by decide, by decide⟩
  have hrelative : ':' ∉ "..\\..//card".toList := by decide
  have hroot : ∀ segment ∈ writtenSegments "/".toList, IsName segment := by
    simp [writtenSegments, splitOn]
  obtain ⟨hself, hsegments, hjoins, hreads⟩ := normalize_canonical
  refine ⟨hscheme, hpath, hplain, hstep, hbase, hrelative, ?_, (hsegments _ hscheme).2.1,
    hroot, (hsegments "/" (by decide)).2.2 hroot, ?_, ?_, ?_⟩
  · rw [hself]
    decide
  · rw [← (hjoins _ _ hpath hplain).1]
    decide
  · rw [(hjoins _ _ hpath hplain).2 _ hstep]
    decide
  · rw [← hreads _ _ hbase hrelative]
    decide

end ScriptedViews.Uri

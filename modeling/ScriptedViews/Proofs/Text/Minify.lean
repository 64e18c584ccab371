import Mathlib.Data.List.DropRight
import Mathlib.Data.List.Infix
import Mathlib.Data.List.TakeWhile
import ScriptedViews.Proofs.Code.Interpolation
import ScriptedViews.Text.Minify

set_option autoImplicit false

/-! # Minified text

Minifying only takes away: what stands on a line of the minified text stands on one of the text, so
nothing that is markup or an expression comes to be. What it leaves has nothing more to take. -/

namespace ScriptedViews.Text

open Code (HasExpression openMark)

/-! ## Trimming -/

theorem trimEnd_isPrefix (cs : List Char) : trimEnd cs <+: cs := by
  obtain ⟨a, ha⟩ := List.dropWhile_suffix isBlank (l := cs.reverse)
  refine ⟨a.reverse, ?_⟩
  rw [trimEnd, ← List.reverse_append, ha, List.reverse_reverse]

theorem trim_isInfix (cs : List Char) : trim cs <:+: cs :=
  (trimEnd_isPrefix _).isInfix.trans (List.dropWhile_suffix isBlank).isInfix

theorem trimEnd_trimEnd (cs : List Char) : trimEnd (trimEnd cs) = trimEnd cs := by
  rw [trimEnd, trimEnd, List.reverse_reverse, List.dropWhile_idempotent]

/-- Text that starts with no blank still starts with none once its end is trimmed. -/
theorem trimStart_trimEnd {cs : List Char} (h : trimStart cs = cs) :
    trimStart (trimEnd cs) = trimEnd cs := by
  obtain ⟨more, hmore⟩ := trimEnd_isPrefix cs
  cases hend : trimEnd cs with
  | nil => rfl
  | cons c rest =>
    have hc : isBlank c = false := by
      rw [← hmore, hend, List.cons_append, trimStart, List.dropWhile_cons] at h
      split at h
      · have hlength := congrArg List.length h
        have hle := (List.dropWhile_suffix isBlank (l := rest ++ more)).length_le
        rw [List.length_cons] at hlength
        omega
      · rename_i hc
        simpa using hc
    rw [trimStart, List.dropWhile_cons_of_neg (by simp [hc])]

theorem trim_trim (cs : List Char) : trim (trim cs) = trim cs := by
  have hstart : trimStart (trimStart cs) = trimStart cs := List.dropWhile_idempotent _ _
  rw [trim, trim, trimStart_trimEnd hstart, trimEnd_trimEnd]

theorem mem_dropWhile_of_not {p : Char → Bool} {c : Char} (hc : p c = false) {cs : List Char}
    (h : c ∈ cs) : c ∈ cs.dropWhile p := by
  rw [← List.takeWhile_append_dropWhile (p := p) (l := cs), List.mem_append] at h
  rcases h with h | h
  · rw [List.mem_takeWhile_imp h] at hc
    cases hc
  · exact h

/-- Only blanks are trimmed. -/
theorem mem_trim {c : Char} (hc : isBlank c = false) {cs : List Char} (h : c ∈ cs) : c ∈ trim cs := by
  have hstart := mem_dropWhile_of_not hc h
  rw [trim, trimEnd, List.mem_reverse]
  exact mem_dropWhile_of_not hc (List.mem_reverse.2 hstart)

/-! ## Lines -/

theorem splitOn_eq (separator : Char) (cs : List Char) :
    splitOn separator cs = cs.splitOn separator := by
  induction cs with
  | nil => rfl
  | cons c cs ih =>
    rw [splitOn, List.splitOn_cons_eq_if_modifyHead, ih]
    by_cases hc : c = separator
    · simp [hc]
    · rw [if_neg hc, if_neg (by simpa using hc)]
      cases hs : cs.splitOn separator with
      | nil => exact absurd hs (List.splitOn_ne_nil _ _)
      | cons piece pieces => rfl

theorem not_mem_of_mem_splitOn {separator : Char} {cs line : List Char}
    (h : line ∈ splitOn separator cs) : separator ∉ line := by
  induction cs generalizing line with
  | nil =>
    rw [splitOn, List.mem_singleton] at h
    simp [h]
  | cons c cs ih =>
    rw [splitOn] at h
    split at h
    · rcases List.mem_cons.1 h with rfl | h
      · simp
      · exact ih h
    · rename_i hc
      split at h
      · rw [List.mem_singleton] at h
        rw [h]
        simpa using fun heq => hc heq.symm
      · rename_i piece pieces hs
        rw [hs] at ih
        rcases List.mem_cons.1 h with rfl | h
        · simpa using ⟨fun heq => hc heq.symm, ih List.mem_cons_self⟩
        · exact ih (List.mem_cons_of_mem _ h)

/-- Lines, with one line feed between each two. -/
def joinLines (lines : List (List Char)) : List Char :=
  List.intercalate ['\n'] lines

/-- The lines that have something on them, each one trimmed. -/
def filled (lines : List (List Char)) : List (List Char) :=
  (lines.map trim).filter (fun line => !line.isEmpty)

theorem joinLines_splitOn (cs : List Char) : joinLines (splitOn '\n' cs) = cs := by
  rw [joinLines, splitOn_eq, List.intercalate_splitOn]

theorem splitOn_joinLines {lines : List (List Char)} (h : ∀ line ∈ lines, '\n' ∉ line)
    (hne : lines ≠ []) : splitOn '\n' (joinLines lines) = lines := by
  rw [joinLines, splitOn_eq, List.splitOn_intercalate _ h hne]

theorem joinLines_singleton (line : List Char) : joinLines [line] = line :=
  List.intercalate_singleton

theorem joinLines_cons {line : List Char} {lines : List (List Char)} (h : lines ≠ []) :
    joinLines (line :: lines) = line ++ '\n' :: joinLines lines := by
  obtain ⟨next, more, rfl⟩ := List.exists_cons_of_ne_nil h
  rw [joinLines, List.intercalate_cons_cons, List.append_assoc]
  rfl

theorem filled_cons (line : List Char) (lines : List (List Char)) :
    filled (line :: lines)
      = if trim line = [] then filled lines else trim line :: filled lines := by
  rw [filled, List.map_cons, List.filter_cons]
  by_cases h : trim line = [] <;> simp [h, filled]

theorem filled_filled (lines : List (List Char)) : filled (filled lines) = filled lines := by
  induction lines with
  | nil => rfl
  | cons line lines ih =>
    rw [filled_cons]
    split
    · exact ih
    · rename_i hne
      rw [filled_cons, trim_trim, if_neg hne, ih]

theorem filledLines_eq (cs : List Char) :
    filledLines cs = filled (splitOn '\n' (cs.filter (· ≠ '\r'))) :=
  rfl

theorem toList_minify (s : String) : (minify s).toList = joinLines (filledLines s.toList) := by
  rw [minify, String.toList_ofList, joinLines]

/-! ## What stands on a line -/

/-- A word without some character stands on one side of it. -/
theorem infix_append_cons {word a b : List Char} {c : Char} (hc : c ∉ word)
    (h : word <:+: a ++ c :: b) : word <:+: a ∨ word <:+: b := by
  induction a with
  | nil =>
    rw [List.nil_append, List.infix_cons_iff] at h
    rcases h with h | h
    · cases word with
      | nil => exact .inl List.infix_rfl
      | cons d word =>
        rw [(List.cons_prefix_cons.1 h).1] at hc
        exact absurd List.mem_cons_self hc
    · exact .inr h
  | cons d a ih =>
    rw [List.cons_append, List.infix_cons_iff] at h
    rcases h with h | h
    · left
      rcases Nat.le_total word.length (d :: a).length with hle | hle
      · exact (List.prefix_of_prefix_length_le h (List.prefix_append (d :: a) (c :: b)) hle).isInfix
      · -- the word would reach beyond the character
        obtain ⟨v, hv⟩ := List.prefix_of_prefix_length_le (List.prefix_append (d :: a) (c :: b)) h hle
        cases v with
        | nil => exact ⟨[], [], by rw [← hv]; simp⟩
        | cons e v =>
          obtain ⟨more, hmore⟩ := h
          rw [← hv, ← List.cons_append, List.append_assoc, List.append_cancel_left_eq,
            List.cons_append, List.cons.injEq] at hmore
          exact absurd (by rw [← hv, ← hmore.1]; simp) hc
    · rcases ih h with h | h
      · exact .inl (h.trans (List.suffix_cons d a).isInfix)
      · exact .inr h

/-- An expression is a mark with a closing brace anywhere after it. -/
theorem hasExpression_iff_append {cs : List Char} :
    HasExpression cs ↔ ∃ u v, cs = u ++ v ∧ openMark <:+: u ∧ '\x7d' ∈ v := by
  constructor
  · rintro ⟨a, b, c, rfl⟩
    exact ⟨a ++ openMark, b ++ '\x7d' :: c, by simp, (List.suffix_append a openMark).isInfix,
      by simp⟩
  · rintro ⟨u, v, rfl, ⟨a, b, rfl⟩, hv⟩
    obtain ⟨x, y, rfl⟩ := List.append_of_mem hv
    exact ⟨a, b ++ x, y, by simp⟩

theorem hasExpression_of_isInfix {cs ds : List Char} (h : HasExpression cs) (hin : cs <:+: ds) :
    HasExpression ds := by
  obtain ⟨a, b, c, rfl⟩ := h
  obtain ⟨x, y, rfl⟩ := hin
  exact ⟨x ++ a, b, c ++ y, by simp⟩

/-- Whether what stands on a line of one text stands in another, expressions included. -/
structure Within (cs ds : List Char) : Prop where
  word : ∀ word, word ≠ [] → '\n' ∉ word → word <:+: cs → word <:+: ds
  expression : HasExpression cs → HasExpression ds

namespace Within

variable {cs ds as bs : List Char}

theorem of_isInfix (h : cs <:+: ds) : Within cs ds :=
  ⟨fun _ _ _ hword => hword.trans h, fun hexpression => hasExpression_of_isInfix hexpression h⟩

theorem mem (h : Within cs ds) {c : Char} (hc : c ≠ '\n') (hmem : c ∈ cs) : c ∈ ds :=
  (List.singleton_infix_iff c ds).1 (h.word [c] (by simp) (by simpa using hc.symm)
    ((List.singleton_infix_iff c cs).2 hmem))

/-- A line in front of both texts. -/
theorem append (h : Within as bs) (hrest : Within cs ds) :
    Within (as ++ '\n' :: cs) (bs ++ '\n' :: ds) := by
  have hleft : bs <:+: bs ++ '\n' :: ds := (List.prefix_append _ _).isInfix
  have hright : ds <:+: bs ++ '\n' :: ds := ⟨bs ++ ['\n'], [], by simp⟩
  refine ⟨fun word hne hword hin => ?_, fun hexpression => ?_⟩
  · rcases infix_append_cons hword hin with hin | hin
    · exact (h.word word hne hword hin).trans hleft
    · exact (hrest.word word hne hword hin).trans hright
  · obtain ⟨u, v, hsplit, hmark, hbrace⟩ := hasExpression_iff_append.1 hexpression
    -- an expression that goes on beyond the line
    have hbeyond : openMark <:+: as → '\x7d' ∈ cs → HasExpression (bs ++ '\n' :: ds) := by
      intro hmark hbrace
      exact hasExpression_iff_append.2 ⟨bs, '\n' :: ds, rfl,
        h.word openMark (by decide) (by decide) hmark,
        List.mem_cons_of_mem _ (hrest.mem (by decide) hbrace)⟩
    rcases List.append_eq_append_iff.1 hsplit with ⟨m, rfl, hm⟩ | ⟨m, rfl, rfl⟩
    · cases m with
      | nil =>
        rw [List.append_nil] at hmark
        rw [List.nil_append] at hm
        rw [← hm, List.mem_cons] at hbrace
        exact hbeyond hmark (hbrace.resolve_left (by decide))
      | cons d m =>
        simp only [List.cons_append, List.cons.injEq] at hm
        obtain ⟨rfl, rfl⟩ := hm
        have hbrace' : '\x7d' ∈ m ++ v := List.mem_append_right _ hbrace
        rcases infix_append_cons (by decide) hmark with hmark | hmark
        · exact hbeyond hmark hbrace'
        · have hright' := hrest.expression (hasExpression_iff_append.2 ⟨m, v, rfl, hmark, hbrace⟩)
          exact hasExpression_of_isInfix hright' hright
    · rcases List.mem_append.1 hbrace with hbrace | hbrace
      · have hleft' := h.expression (hasExpression_iff_append.2 ⟨u, m, rfl, hmark, hbrace⟩)
        exact hasExpression_of_isInfix hleft' hleft
      · rw [List.mem_cons] at hbrace
        exact hbeyond (hmark.trans (List.prefix_append u m).isInfix)
          (hbrace.resolve_left (by decide))

end Within

theorem within_filled (lines : List (List Char)) :
    Within (joinLines (filled lines)) (joinLines lines) := by
  induction lines with
  | nil => exact .of_isInfix List.infix_rfl
  | cons line lines ih =>
    have hline : Within (trim line) line := .of_isInfix (trim_isInfix line)
    by_cases hlines : lines = []
    · subst hlines
      rw [filled_cons, joinLines_singleton]
      split
      · exact .of_isInfix List.nil_infix
      · have hnone : filled [] = [] := rfl
        rw [hnone, joinLines_singleton]
        exact hline
    · rw [filled_cons, joinLines_cons hlines]
      split
      · have hrest : joinLines lines <:+: line ++ '\n' :: joinLines lines :=
          ⟨line ++ ['\n'], [], by simp⟩
        exact ⟨fun word hne hword hin => (ih.word word hne hword hin).trans hrest,
          fun hexpression => hasExpression_of_isInfix (ih.expression hexpression) hrest⟩
      · by_cases hfilled : filled lines = []
        · rw [hfilled, joinLines_singleton]
          exact .of_isInfix ((trim_isInfix line).trans (List.prefix_append _ _).isInfix)
        · rw [joinLines_cons hfilled]
          exact hline.append ih

theorem mem_joinLines {c : Char} {line : List Char} {lines : List (List Char)}
    (hline : line ∈ lines) (hc : c ∈ line) : c ∈ joinLines lines := by
  induction lines with
  | nil => cases hline
  | cons first lines ih =>
    by_cases hlines : lines = []
    · subst hlines
      rw [List.mem_singleton] at hline
      subst hline
      rwa [joinLines_singleton]
    · rw [joinLines_cons hlines]
      rcases List.mem_cons.1 hline with rfl | hline
      · exact List.mem_append_left _ hc
      · exact List.mem_append_right _ (List.mem_cons_of_mem _ (ih hline))

theorem exists_of_mem_joinLines {c : Char} (hc : c ≠ '\n') {lines : List (List Char)}
    (h : c ∈ joinLines lines) : ∃ line ∈ lines, c ∈ line := by
  induction lines with
  | nil => cases h
  | cons first lines ih =>
    by_cases hlines : lines = []
    · subst hlines
      rw [joinLines_singleton] at h
      exact ⟨first, List.mem_cons_self, h⟩
    · rw [joinLines_cons hlines, List.mem_append, List.mem_cons] at h
      rcases h with h | h | h
      · exact ⟨first, List.mem_cons_self, h⟩
      · exact absurd h hc
      · obtain ⟨line, hline, hmem⟩ := ih h
        exact ⟨line, List.mem_cons_of_mem first hline, hmem⟩

/-! ## Minified text -/

variable {s : String}

theorem filter_return {cs : List Char} (h : '\r' ∉ cs) : cs.filter (· ≠ '\r') = cs := by
  rw [List.filter_eq_self]
  intro c hc
  rw [decide_eq_true_eq]
  rintro rfl
  exact h hc

/-- Minifying only takes away. -/
theorem within_minify (h : '\r' ∉ s.toList) : Within (minify s).toList s.toList := by
  have hlines := within_filled (splitOn '\n' s.toList)
  rwa [joinLines_splitOn, ← filter_return h, ← filledLines_eq, filter_return h,
    ← toList_minify] at hlines

/-- Only blanks are taken away. -/
theorem mem_minify {c : Char} (hc : isBlank c = false) (h : c ∈ s.toList) :
    c ∈ (minify s).toList := by
  have hreturn : c ≠ '\r' := by
    rintro rfl
    exact absurd hc (by decide)
  have hfeed : c ≠ '\n' := by
    rintro rfl
    exact absurd hc (by decide)
  have hfilter : c ∈ joinLines (splitOn '\n' (s.toList.filter (· ≠ '\r'))) := by
    rw [joinLines_splitOn]
    simpa using ⟨h, hreturn⟩
  obtain ⟨line, hline, hmem⟩ := exists_of_mem_joinLines hfeed hfilter
  have htrim := mem_trim hc hmem
  rw [toList_minify, filledLines_eq]
  refine mem_joinLines ?_ htrim
  rw [filled, List.mem_filter]
  exact ⟨List.mem_map_of_mem hline, by simpa using List.ne_nil_of_mem htrim⟩

theorem isBlankText_minify (h : isBlankText s = false) : isBlankText (minify s) = false := by
  simp only [isBlankText, List.all_eq_false, Bool.not_eq_true] at h ⊢
  obtain ⟨c, hmem, hc⟩ := h
  exact ⟨c, mem_minify hc hmem, hc⟩

theorem not_mem_of_mem_filledLines {line cs : List Char} (h : line ∈ filledLines cs) :
    '\n' ∉ line ∧ '\r' ∉ line := by
  rw [filledLines_eq, filled, List.mem_filter, List.mem_map] at h
  obtain ⟨⟨whole, hwhole, rfl⟩, -⟩ := h
  have hsub := (trim_isInfix whole).subset
  refine ⟨fun hmem => not_mem_of_mem_splitOn hwhole (hsub hmem), fun hmem => ?_⟩
  have hjoin := mem_joinLines hwhole (hsub hmem)
  rw [joinLines_splitOn] at hjoin
  simp at hjoin

theorem return_not_mem_minify (s : String) : '\r' ∉ (minify s).toList := by
  rw [toList_minify]
  intro hmem
  obtain ⟨line, hline, hin⟩ := exists_of_mem_joinLines (by decide) hmem
  exact (not_mem_of_mem_filledLines hline).2 hin

/-- There is nothing to take away from minified text. -/
theorem minify_minify (s : String) : minify (minify s) = minify s := by
  have hreturn : '\r' ∉ joinLines (filledLines s.toList) := by
    rw [← toList_minify]
    exact return_not_mem_minify s
  have hsame : filledLines (joinLines (filledLines s.toList)) = filledLines s.toList := by
    by_cases hnone : filledLines s.toList = []
    · rw [hnone]
      rfl
    · rw [filledLines_eq, filter_return hreturn,
        splitOn_joinLines (fun line hline => (not_mem_of_mem_filledLines hline).1) hnone,
        filledLines_eq, filled_filled]
  have hminify : minify s = String.ofList (joinLines (filledLines s.toList)) := rfl
  rw [hminify, minify, String.toList_ofList, hsame]
  rfl

end ScriptedViews.Text

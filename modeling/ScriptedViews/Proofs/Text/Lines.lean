import ScriptedViews.Code.Generate
import ScriptedViews.Document
import ScriptedViews.Proofs.Text.Minify

set_option autoImplicit false

/-! # Lines of minified text

Minified text is the trimmed lines of a text that have something on them. So it is made piece by
piece, keeps all that is not blank in its order, and is empty just when the text is blank: a text
node that a document keeps is one that has something to print. -/

namespace ScriptedViews.Text

/-! ## Lines that are trimmed -/

/-- Whether a line has something on it, and neither begins nor ends with a blank. -/
structure IsFilled (line : List Char) : Prop where
  nonempty : line ≠ []
  first : ∀ c, line.head? = some c → isBlank c = false
  last : ∀ c, line.getLast? = some c → isBlank c = false

theorem trimStart_eq_self_iff {cs : List Char} :
    trimStart cs = cs ↔ ∀ c, cs.head? = some c → isBlank c = false := by
  cases cs with
  | nil => simp [trimStart]
  | cons c cs =>
    cases hc : isBlank c with
    | true =>
      have hshort := (List.dropWhile_suffix isBlank (l := cs)).length_le
      have hne : cs.dropWhile isBlank ≠ c :: cs := by
        intro heq
        rw [heq, List.length_cons] at hshort
        omega
      simp [trimStart, hc, hne]
    | false => simp [trimStart, hc]

theorem trimEnd_eq_reverse (cs : List Char) : trimEnd cs = (trimStart cs.reverse).reverse :=
  rfl

theorem trimEnd_eq_self_iff {cs : List Char} :
    trimEnd cs = cs ↔ ∀ c, cs.getLast? = some c → isBlank c = false := by
  rw [trimEnd_eq_reverse, List.reverse_eq_iff, trimStart_eq_self_iff, List.head?_reverse]

/-- A line is filled if trimming leaves it as it is, and it is not empty. -/
theorem isFilled_iff {line : List Char} : IsFilled line ↔ trim line = line ∧ line ≠ [] := by
  constructor
  · intro h
    have hstart := trimStart_eq_self_iff.2 h.first
    exact ⟨by rw [trim, hstart, trimEnd_eq_self_iff.2 h.last], h.nonempty⟩
  · rintro ⟨htrim, hne⟩
    have hstart : trimStart line = line := by
      have hinfix := (trimEnd_isPrefix (trimStart line)).length_le
      have hsuffix := List.dropWhile_suffix isBlank (l := line)
      rw [trim] at htrim
      rw [htrim] at hinfix
      exact hsuffix.eq_of_length_le hinfix
    refine ⟨hne, trimStart_eq_self_iff.1 hstart, trimEnd_eq_self_iff.1 ?_⟩
    rwa [trim, hstart] at htrim

theorem isFilled_of_mem_filled {line : List Char} {lines : List (List Char)}
    (h : line ∈ filled lines) : IsFilled line := by
  rw [filled, List.mem_filter, List.mem_map] at h
  obtain ⟨⟨whole, -, rfl⟩, hne⟩ := h
  exact isFilled_iff.2 ⟨trim_trim whole, by simpa using hne⟩

/-- There is nothing to do to lines that are filled. -/
theorem filled_eq_self {lines : List (List Char)} (h : ∀ line ∈ lines, IsFilled line) :
    filled lines = lines := by
  induction lines with
  | nil => rfl
  | cons line lines ih =>
    obtain ⟨htrim, hne⟩ := isFilled_iff.1 (h line List.mem_cons_self)
    rw [filled_cons, htrim, if_neg hne, ih fun other hother => h other (List.mem_cons_of_mem _ hother)]

/-! ## What is not blank -/

/-- The characters of a text that are not blank. -/
def solid (cs : List Char) : List Char :=
  cs.filter fun c => !isBlank c

theorem solid_append (cs ds : List Char) : solid (cs ++ ds) = solid cs ++ solid ds :=
  List.filter_append ..

theorem solid_eq_nil_iff {cs : List Char} : solid cs = [] ↔ ∀ c ∈ cs, isBlank c = true := by
  simp [solid]

theorem solid_trimStart (cs : List Char) : solid (trimStart cs) = solid cs := by
  have hsplit := congrArg solid (List.takeWhile_append_dropWhile (p := isBlank) (l := cs))
  have hblank : solid (cs.takeWhile isBlank) = [] :=
    solid_eq_nil_iff.2 fun c hc => List.mem_takeWhile_imp hc
  rwa [solid_append, hblank, List.nil_append] at hsplit

theorem solid_trim (cs : List Char) : solid (trim cs) = solid cs := by
  rw [trim, trimEnd_eq_reverse, solid, List.filter_reverse, ← solid, solid_trimStart, solid,
    List.filter_reverse, List.reverse_reverse, ← solid, solid_trimStart]

theorem IsFilled.solid_ne_nil {line : List Char} (h : IsFilled line) : solid line ≠ [] := by
  intro hnone
  obtain ⟨c, rest, rfl⟩ := List.exists_cons_of_ne_nil h.nonempty
  have hblank := solid_eq_nil_iff.1 hnone c List.mem_cons_self
  rw [h.first c rfl] at hblank
  cases hblank

/-- Nothing is left of a line that is trimmed if all of it is blank. -/
theorem trim_eq_nil_iff {cs : List Char} : trim cs = [] ↔ ∀ c ∈ cs, isBlank c = true := by
  rw [← solid_eq_nil_iff, ← solid_trim cs]
  constructor
  · intro hnone
    rw [hnone]
    rfl
  · intro hnone
    by_contra hne
    exact (isFilled_iff.2 ⟨trim_trim cs, hne⟩).solid_ne_nil hnone

/-- What is not blank on lines stands there line by line. -/
theorem solid_joinLines (lines : List (List Char)) :
    solid (joinLines lines) = lines.flatMap solid := by
  induction lines with
  | nil => rfl
  | cons line lines ih =>
    by_cases hnone : lines = []
    · subst hnone
      simp [joinLines_singleton]
    · have hfeed : isBlank '\n' = true := by decide
      have hcons : solid ('\n' :: joinLines lines) = solid (joinLines lines) := by
        simp [solid, hfeed]
      rw [joinLines_cons hnone, solid_append, hcons, ih, List.flatMap_cons]

theorem flatMap_solid_filled (lines : List (List Char)) :
    (filled lines).flatMap solid = lines.flatMap solid := by
  induction lines with
  | nil => rfl
  | cons line lines ih =>
    rw [filled_cons, List.flatMap_cons, ← ih, ← solid_trim line]
    split
    · rename_i hnone
      rw [hnone]
      rfl
    · rw [List.flatMap_cons]

/-! ## Minified text line by line -/

/-- The lines of a text. The empty text has none. -/
def linesOf (cs : List Char) : List (List Char) :=
  if cs = [] then [] else splitOn '\n' cs

theorem isFilled_of_mem_filledLines {line cs : List Char} (h : line ∈ filledLines cs) :
    IsFilled line :=
  isFilled_of_mem_filled h

theorem joinLines_eq_nil_iff {lines : List (List Char)} (h : ∀ line ∈ lines, IsFilled line) :
    joinLines lines = [] ↔ lines = [] := by
  cases lines with
  | nil => simp [joinLines]
  | cons line lines =>
    have hne := (h line List.mem_cons_self).nonempty
    by_cases hnone : lines = []
    · simp [hnone, joinLines_singleton, hne]
    · simp [joinLines_cons hnone, hne]

theorem linesOf_minify (s : String) : linesOf (minify s).toList = filledLines s.toList := by
  have hfilled : ∀ line ∈ filledLines s.toList, IsFilled line :=
    fun _ hline => isFilled_of_mem_filledLines hline
  rw [toList_minify, linesOf]
  by_cases hnone : filledLines s.toList = []
  · rw [if_pos ((joinLines_eq_nil_iff hfilled).2 hnone), hnone]
  · rw [if_neg fun h => hnone ((joinLines_eq_nil_iff hfilled).1 h)]
    exact splitOn_joinLines (fun line hline => (not_mem_of_mem_filledLines hline).1) hnone

theorem minify_eq_empty_iff {s : String} : minify s = "" ↔ filledLines s.toList = [] := by
  rw [← String.toList_inj, toList_minify]
  exact joinLines_eq_nil_iff fun _ hline => isFilled_of_mem_filledLines hline

theorem solid_minify (s : String) : solid (minify s).toList = solid s.toList := by
  have hreturn : solid (s.toList.filter (· ≠ '\r')) = solid s.toList := by
    rw [solid, List.filter_filter, solid]
    refine List.filter_congr fun c _ => ?_
    by_cases hc : c = '\r'
    · subst hc
      rfl
    · simp [hc]
  rw [toList_minify, solid_joinLines, filledLines_eq, flatMap_solid_filled, ← solid_joinLines,
    joinLines_splitOn, hreturn]

/-- The text with `b` on the lines after `a`, or the one that is not empty. -/
def joinTexts (a b : String) : String :=
  if a = "" then b else if b = "" then a else a ++ "\n" ++ b

theorem filledLines_append (a b : List Char) :
    filledLines (a ++ '\n' :: b) = filledLines a ++ filledLines b := by
  have hfilter : (a ++ '\n' :: b).filter (· ≠ '\r')
      = a.filter (· ≠ '\r') ++ '\n' :: b.filter (· ≠ '\r') := by
    simp
  rw [filledLines_eq, hfilter, splitOn_eq, List.splitOn_append_cons_self, ← splitOn_eq,
    ← splitOn_eq, filled, List.map_append, List.filter_append]
  rfl

theorem joinLines_append {xs ys : List (List Char)} (hxs : xs ≠ []) (hys : ys ≠ []) :
    joinLines (xs ++ ys) = joinLines xs ++ '\n' :: joinLines ys := by
  induction xs with
  | nil => exact absurd rfl hxs
  | cons x xs ih =>
    by_cases hnone : xs = []
    · subst hnone
      rw [List.singleton_append, joinLines_cons hys, joinLines_singleton]
    · rw [List.cons_append, joinLines_cons (by simp [hnone]), ih hnone, joinLines_cons hnone,
        List.append_assoc, List.cons_append]

theorem minify_join (a b : String) :
    minify (a ++ "\n" ++ b) = joinTexts (minify a) (minify b) := by
  have hlines : filledLines (a ++ "\n" ++ b).toList
      = filledLines a.toList ++ filledLines b.toList := by
    rw [← filledLines_append]
    simp
  rw [← String.toList_inj, toList_minify, hlines, joinTexts]
  by_cases ha : filledLines a.toList = []
  · rw [if_pos (minify_eq_empty_iff.2 ha), ha, List.nil_append, toList_minify]
  · rw [if_neg fun h => ha (minify_eq_empty_iff.1 h)]
    by_cases hb : filledLines b.toList = []
    · rw [if_pos (minify_eq_empty_iff.2 hb), hb, List.append_nil, toList_minify]
    · rw [if_neg fun h => hb (minify_eq_empty_iff.1 h), joinLines_append ha hb]
      simp [toList_minify]

/-- Minifying leaves a text as it is if it has no carriage return and all its lines are filled. -/
theorem minify_eq_self_iff {s : String} :
    minify s = s ↔ '\r' ∉ s.toList ∧ ∀ line ∈ linesOf s.toList, IsFilled line := by
  constructor
  · intro hself
    rw [← hself, linesOf_minify]
    exact ⟨return_not_mem_minify s, fun _ hline => isFilled_of_mem_filledLines hline⟩
  · rintro ⟨hreturn, hlines⟩
    rw [← String.toList_inj, toList_minify, filledLines_eq, filter_return hreturn]
    rw [linesOf] at hlines
    split at hlines
    · rename_i hempty
      rw [hempty]
      rfl
    · rw [filled_eq_self hlines, joinLines_splitOn]

/-! ## Blank text -/

theorem isBlankText_iff {s : String} : isBlankText s = true ↔ trimText s = "" := by
  rw [isBlankText, List.all_eq_true, ← trim_eq_nil_iff, trimText, ← String.toList_inj,
    String.toList_ofList]
  rfl

theorem minify_eq_empty_iff_trimText {s : String} : minify s = "" ↔ trimText s = "" := by
  rw [← isBlankText_iff, isBlankText, List.all_eq_true, ← solid_eq_nil_iff, ← solid_minify]
  constructor
  · intro hempty
    rw [hempty]
    rfl
  · intro hnone
    rw [toList_minify, solid_joinLines, List.flatMap_eq_nil_iff] at hnone
    rw [minify_eq_empty_iff, List.eq_nil_iff_forall_not_mem]
    exact fun line hline => (isFilled_of_mem_filledLines hline).solid_ne_nil (hnone line hline)

theorem convert_text (s : String) :
    Document.convert (.text s) = if trimText s = "" then [] else [.text s] := by
  by_cases hblank : trimText s = ""
  · rw [Document.convert, if_pos (isBlankText_iff.2 hblank), if_pos hblank]
  · rw [Document.convert, if_neg fun h => hblank (isBlankText_iff.1 h), if_neg hblank]

theorem text_eq (b : Code.Builder) (s : String) :
    b.text s = if trimText s = "" then b else b.output (minify s) := by
  by_cases hblank : trimText s = ""
  · rw [Code.Builder.text, if_pos (minify_eq_empty_iff_trimText.2 hblank), if_pos hblank]
  · rw [Code.Builder.text, if_neg fun h => hblank (minify_eq_empty_iff_trimText.1 h), if_neg hblank]

/-- Texts with a line feed between them are minified one by one, and joined by one if there is
    something of both. Minified text keeps what is not blank, in its order; it is made of filled
    lines, and a text of filled lines without carriage returns is left as it is. It is empty just if
    the text is blank: then the document has dropped the node, else it is printed. -/
theorem minify_lines :
    (∀ a b, minify (a ++ "\n" ++ b) = joinTexts (minify a) (minify b))
      ∧ ∀ s, minify (minify s) = minify s
        ∧ solid (minify s).toList = solid s.toList
        ∧ (∀ line ∈ linesOf (minify s).toList, IsFilled line)
        ∧ (minify s = s ↔ '\r' ∉ s.toList ∧ ∀ line ∈ linesOf s.toList, IsFilled line)
        ∧ (minify s = "" ↔ trimText s = "")
        ∧ Document.convert (.text s) = (if trimText s = "" then [] else [.text s])
        ∧ ∀ b : Code.Builder, b.text s = if trimText s = "" then b else b.output (minify s) := by
  refine ⟨minify_join, fun s => ⟨minify_minify s, solid_minify s, ?_, minify_eq_self_iff,
    minify_eq_empty_iff_trimText, convert_text s, fun b => text_eq b s⟩⟩
  rw [linesOf_minify]
  exact fun _ hline => isFilled_of_mem_filledLines hline

/-- Text with a carriage return inside a line, exotic blanks and an empty line. -/
theorem minify_lines_exotic :
    "b\u2003c".toList ∈ linesOf (minify "\u3000a\r\n\n \u0085b\u2003\rc\t").toList
      ∧ IsFilled "b\u2003c".toList
      ∧ minify "\u3000a\r\n\n \u0085b\u2003\rc\t" = "a\nb\u2003c" := by
  obtain ⟨-, hlaws⟩ := minify_lines
  obtain ⟨-, -, hfilled, -⟩ := hlaws "\u3000a\r\n\n \u0085b\u2003\rc\t"
  have hmem : "b\u2003c".toList
      ∈ linesOf (minify "\u3000a\r\n\n \u0085b\u2003\rc\t").toList := by decide
  exact ⟨hmem, hfilled _ hmem, by decide⟩

end ScriptedViews.Text

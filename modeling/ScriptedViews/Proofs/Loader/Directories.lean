import ScriptedViews.Loader.Basic
import ScriptedViews.Proofs.Uri.Targets

set_option autoImplicit false

/-! # Views below a directory

A directory serves the files below it and nothing else. A path that can be followed ends where its
segments say, whatever the tree holds; so the place that the directory was at when serving began is
the place it is at when a view is asked for, if it is anywhere. In a tree whose entries all stand in
directories, every file below the directory is reached by every spelling of the names that lead to
it. -/

namespace ScriptedViews

open Uri (slashed slashed_append slashed_eq_self)

/-! ## Following a path -/

/-- Whether a segment of a path names something in a directory. -/
def IsEntryName (segment : String) : Prop :=
  segment ≠ "" ∧ segment ≠ "." ∧ segment ≠ ".."
deriving Decidable

/-- Where the segments of a path lead by themselves, whatever stands on the way. -/
def FilePath.walk (place : FilePath) : List String → FilePath
  | [] => place
  | segment :: rest =>
    if segment = "" ∨ segment = "." then walk place rest
    else if segment = ".." then walk place.dropLast rest
    else walk (place ++ [segment]) rest

namespace FileTree

variable {tree : FileTree}

/-- What comes of the first segment of a path. -/
theorem follow_cons (place : FilePath) (segment : String) (rest : List String) :
    tree.follow place (segment :: rest)
      = if !tree.isDirectory place then none
        else if segment = "" ∨ segment = "." then tree.follow place rest
        else if segment = ".." then tree.follow place.dropLast rest
        else if (tree.entry? (place ++ [segment])).isSome then tree.follow (place ++ [segment]) rest
        else none :=
  rfl

theorem isDirectory_of_follow {place p : FilePath} {segment : String} {rest : List String}
    (h : tree.follow place (segment :: rest) = some p) : tree.isDirectory place = true := by
  by_contra hno
  rw [follow_cons, if_pos (by simpa using hno)] at h
  cases h

theorem follow_of_stays {place : FilePath} {segment : String} (rest : List String)
    (hdir : tree.isDirectory place = true) (h : segment = "" ∨ segment = ".") :
    tree.follow place (segment :: rest) = tree.follow place rest := by
  rw [follow_cons, hdir, if_pos h]
  rfl

theorem follow_up {place : FilePath} (rest : List String)
    (hdir : tree.isDirectory place = true) :
    tree.follow place (".." :: rest) = tree.follow place.dropLast rest := by
  rw [follow_cons, hdir, if_neg (by decide), if_pos rfl]
  rfl

theorem follow_name {place : FilePath} {segment : String} (rest : List String)
    (hdir : tree.isDirectory place = true) (h : IsEntryName segment) :
    tree.follow place (segment :: rest)
      = if (tree.entry? (place ++ [segment])).isSome then tree.follow (place ++ [segment]) rest
        else none := by
  rw [follow_cons, hdir, if_neg (not_or.2 ⟨h.1, h.2.1⟩), if_neg h.2.2]
  rfl

/-- A segment stays, goes up or names something. -/
theorem segment_cases (segment : String) :
    (segment = "" ∨ segment = ".") ∨ segment = ".." ∨ IsEntryName segment := by
  by_cases hstay : segment = "" ∨ segment = "."
  · exact .inl hstay
  · by_cases hup : segment = ".."
    · exact .inr (.inl hup)
    · exact .inr (.inr ⟨fun h => hstay (.inl h), fun h => hstay (.inr h), hup⟩)

/-- A path that can be followed ends where its segments lead by themselves. -/
theorem eq_walk_of_follow {segments : List String} {place p : FilePath}
    (h : tree.follow place segments = some p) : p = place.walk segments := by
  induction segments generalizing place with
  | nil => exact (Option.some.inj h).symm
  | cons segment rest ih =>
    have hdir := isDirectory_of_follow h
    rw [FilePath.walk]
    obtain hstay | rfl | hname := segment_cases segment
    · rw [follow_of_stays rest hdir hstay] at h
      rw [if_pos hstay]
      exact ih h
    · rw [follow_up rest hdir] at h
      rw [if_neg (by decide), if_pos rfl]
      exact ih h
    · rw [follow_name rest hdir hname] at h
      rw [if_neg (not_or.2 ⟨hname.1, hname.2.1⟩), if_neg hname.2.2]
      split at h
      · exact ih h
      · cases h

theorem follow_append (place : FilePath) (segments more : List String) :
    tree.follow place (segments ++ more)
      = (tree.follow place segments).bind (tree.follow · more) := by
  induction segments generalizing place with
  | nil => rfl
  | cons segment rest ih =>
    rw [List.cons_append, follow_cons, follow_cons]
    simp only [ih]
    split
    · rfl
    · split
      · rfl
      · split
        · rfl
        · split <;> rfl

end FileTree

/-- The names on the way to where segments lead are those of the start and of the segments. -/
theorem FilePath.mem_walk {segments : List String} {place : FilePath} {name : String}
    (h : name ∈ place.walk segments) : name ∈ place ∨ IsEntryName name := by
  induction segments generalizing place with
  | nil => exact .inl h
  | cons segment rest ih =>
    rw [walk] at h
    split at h
    · exact ih h
    · rename_i hstay
      split at h
      · exact (ih h).imp_left List.mem_of_mem_dropLast
      · rename_i hup
        refine (ih h).elim (fun hmem => ?_) .inr
        rcases List.mem_append.1 hmem with hmem | hmem
        · exact .inl hmem
        · rw [List.mem_singleton.1 hmem]
          exact .inr ⟨fun heq => hstay (.inl heq), fun heq => hstay (.inr heq), hup⟩

/-- Segments that never go up lead below the start. -/
theorem FilePath.isPrefix_walk {segments : List String} (h : ".." ∉ segments) (place : FilePath) :
    place <+: place.walk segments := by
  induction segments generalizing place with
  | nil => exact List.prefix_rfl
  | cons segment rest ih =>
    have hrest : ".." ∉ rest := fun hmem => h (List.mem_cons_of_mem segment hmem)
    rw [walk]
    split
    · exact ih hrest place
    · rw [if_neg fun heq : segment = ".." => h (heq ▸ List.mem_cons_self)]
      exact (List.prefix_append place [segment]).trans (ih hrest _)

/-! ## What is served -/

/-- Whether names lead from a directory to a file with these bytes. -/
def FileTree.HasFile (tree : FileTree) (place : FilePath) (names : List String)
    (data : ByteArray) : Prop :=
  tree.isDirectory place = true ∧ names ≠ [] ∧ tree.entry? (place ++ names) = some (.file data)

theorem FileTree.read?_eq_some {tree : FileTree} {place : FilePath} {data : ByteArray} :
    tree.read? place = some data ↔ tree.entry? place = some (.file data) := by
  unfold read?
  split
  · rename_i found heq
    rw [heq, Option.some.injEq, Option.some.injEq, FileEntry.file.injEq]
  · rename_i hno
    exact ⟨nofun, fun heq => absurd heq (hno data)⟩

theorem FileTree.not_isDirectory_of_file {tree : FileTree} {place : FilePath} {data : ByteArray}
    (h : tree.entry? place = some (.file data)) : tree.isDirectory place = false := by
  rw [isDirectory, h]

theorem exists_pathSegments (cs : List Char) :
    ∃ segment rest, pathSegments cs = segment :: rest := by
  refine List.exists_cons_of_ne_nil ?_
  rw [pathSegments, Text.splitOn_eq, Ne, List.map_eq_nil_iff]
  exact List.splitOn_ne_nil _ _

namespace ViewDirectory

variable {tree tree₀ : FileTree} {base uri : String}

/-- A URI that leads to a place has segments below the base, which either is where it was or may not
    be left. -/
theorem exists_of_target {d : ViewDirectory} {p : FilePath}
    (h : d.target tree uri = .inside (some p)) :
    ∃ segment rest, tree.follow [] (d.base ++ segment :: rest) = some p ∧
      ((∃ place, d.place = some place ∧ place <+: p) ∨ ".." ∉ segment :: rest) := by
  rw [target] at h
  split at h
  · cases h
  · obtain ⟨segment, rest, hsegments⟩ :=
      exists_pathSegments ((slashed uri.toList).dropWhile (· = '/'))
    rw [hsegments] at h
    refine ⟨segment, rest, ?_⟩
    dsimp only at h
    split at h
    · rename_i q place hfollow hplace
      split at h
      · rename_i hprefix
        cases h
        exact ⟨hfollow, .inl ⟨place, hplace, List.isPrefixOf_iff_prefix.1 hprefix⟩⟩
      · cases h
    · split at h
      · cases h
      · rename_i hup
        rw [Bool.not_eq_true, List.contains_eq_mem, decide_eq_false_iff_not] at hup
        exact ⟨Target.inside.inj h, .inr hup⟩

/-- A directory is where it was when serving began, if it is anywhere. -/
theorem place_start {place place' : FilePath} (h : (start tree₀ base).place = some place)
    (h' : tree.follow [] (start tree₀ base).base = some place') : place = place' :=
  (FileTree.eq_walk_of_follow h).trans (FileTree.eq_walk_of_follow h').symm

/-- What is read lies below the directory, at the end of names that do not leave it. -/
theorem exists_of_read? {data : ByteArray} (h : (start tree₀ base).read? tree uri = some data) :
    ∃ place names, tree.follow [] (start tree₀ base).base = some place
      ∧ (∀ name ∈ names, IsEntryName name) ∧ tree.HasFile place names data := by
  generalize hd : start tree₀ base = d at h
  rw [read?] at h
  split at h
  · cases h
  · rename_i found htarget
    obtain ⟨p, rfl, hread⟩ := Option.bind_eq_some_iff.1 h
    rw [FileTree.read?_eq_some] at hread
    obtain ⟨segment, rest, hfollow, hbelow⟩ := exists_of_target htarget
    have hnames (name : String) (hname : name ∈ p) : IsEntryName name :=
      (FilePath.mem_walk (FileTree.eq_walk_of_follow hfollow ▸ hname)).resolve_left List.not_mem_nil
    rw [FileTree.follow_append] at hfollow
    obtain ⟨place, hplace, hrest⟩ := Option.bind_eq_some_iff.1 hfollow
    have hdir := FileTree.isDirectory_of_follow hrest
    have hwalk := FileTree.eq_walk_of_follow hrest
    have hprefix : place <+: p := by
      rcases hbelow with ⟨place', hplace', hprefix⟩ | hup
      · subst hd
        exact place_start hplace' hplace ▸ hprefix
      · exact hwalk ▸ FilePath.isPrefix_walk hup place
    obtain ⟨names, rfl⟩ := hprefix
    refine ⟨place, names, hplace, fun name hname => hnames name (List.mem_append_right _ hname),
      hdir, ?_, hread⟩
    rintro rfl
    rw [List.append_nil] at hread
    rw [FileTree.not_isDirectory_of_file hread] at hdir
    cases hdir

end ViewDirectory

/-! ## What is found -/

/-- Whether everything in a tree stands in a directory. -/
def FileTree.IsTree (tree : FileTree) : Prop :=
  ∀ place name, (tree.entry? (place ++ [name])).isSome → tree.isDirectory place = true

theorem FileTree.isSome_of_isDirectory {tree : FileTree} {place : FilePath}
    (h : tree.isDirectory place = true) : (tree.entry? place).isSome := by
  rw [isDirectory] at h
  split at h
  · rename_i heq
    rw [heq]
    rfl
  · cases h

theorem FileTree.isTree_of_mem {tree : FileTree}
    (h : ∀ e ∈ tree, tree.isDirectory e.1.dropLast = true) : tree.IsTree := by
  intro place name hsome
  rw [ entry?, if_neg (by simp), Option.isSome_iff_ne_none, Ne, List.lookup_eq_none_iff] at hsome
  push Not at hsome
  obtain ⟨e, he, heq⟩ := hsome
  have hkey : place ++ [name] = e.1 := by simpa using heq
  have hparent := h e he
  rwa [← hkey, List.dropLast_concat] at hparent

theorem FileTree.IsTree.isDirectory {tree : FileTree} (h : tree.IsTree) {place : FilePath}
    {names : List String} (hne : names ≠ []) (hsome : (tree.entry? (place ++ names)).isSome) :
    tree.isDirectory place = true := by
  induction names using List.reverseRecOn with
  | nil => exact absurd rfl hne
  | append_singleton names name ih =>
    rw [← List.append_assoc] at hsome
    have hparent := h _ _ hsome
    by_cases hnames : names = []
    · rwa [hnames, List.append_nil] at hparent
    · exact ih hnames (isSome_of_isDirectory hparent)

namespace Uri

/-- Whether a character parts the segments of a URI. -/
def IsSeparator (c : Char) : Prop :=
  c = '/' ∨ c = '\\'
deriving Decidable

/-- Whether a segment of a URI can be the name of a file: it names something, and there is nothing in
    it that parts segments or that no name has. -/
structure IsSegment (name : String) : Prop where
  isEntryName : IsEntryName name
  slash : '/' ∉ name.toList
  backslash : '\\' ∉ name.toList
  nul : '\x00' ∉ name.toList

/-- Whether a text spells some names, with separators of either kind between them. -/
inductive Spells : List String → List Char → Prop
  | last (name : String) : Spells [name] name.toList
  | cons (name : String) {names : List String} {gap cs : List Char} (hne : gap ≠ [])
      (hgap : ∀ c ∈ gap, IsSeparator c) (h : Spells names cs) :
      Spells (name :: names) (name.toList ++ gap ++ cs)

/-- Whether a URI spells some names, with separators of either kind before them and between them. -/
def SpellsRooted (names : List String) (uri : String) : Prop :=
  ∃ root cs, uri.toList = root ++ cs ∧ (∀ c ∈ root, IsSeparator c) ∧ Spells names cs

theorem slashed_of_isSeparator {cs : List Char} (h : ∀ c ∈ cs, IsSeparator c) :
    slashed cs = List.replicate cs.length '/' := by
  induction cs with
  | nil => rfl
  | cons c cs ih =>
    have hc : (if c = '\\' then '/' else c) = '/' := by
      rcases h c List.mem_cons_self with rfl | rfl <;> rfl
    rw [slashed, List.map_cons, hc, List.length_cons, List.replicate_succ]
    exact congrArg _ (ih fun d hd => h d (List.mem_cons_of_mem c hd))

theorem IsSegment.slashed_toList {name : String} (h : IsSegment name) :
    slashed name.toList = name.toList :=
  slashed_eq_self h.backslash

theorem Spells.ne_nil {names : List String} {cs : List Char} (h : Spells names cs) :
    names ≠ [] := by
  cases h <;> exact List.cons_ne_nil _ _

/-- What spells names begins with the first of them. -/
theorem Spells.exists_slashed {names : List String} {cs : List Char} (h : Spells names cs)
    (hnames : ∀ name ∈ names, IsSegment name) : ∃ c rest, slashed cs = c :: rest ∧ c ≠ '/' := by
  have hfirst {name : String} (hname : IsSegment name) (more : List Char) :
      ∃ c rest, slashed (name.toList ++ more) = c :: rest ∧ c ≠ '/' := by
    obtain ⟨c, rest, hcons⟩ := List.exists_cons_of_ne_nil fun hnil : name.toList = [] =>
      hname.isEntryName.1 (String.toList_eq_nil_iff.1 hnil)
    rw [slashed_append, hname.slashed_toList, hcons]
    exact ⟨c, _, rfl, fun hc => hname.slash (hcons ▸ hc ▸ List.mem_cons_self)⟩
  cases h with
  | last name => simpa using hfirst (hnames name List.mem_cons_self) []
  | cons name hne hgap h =>
    rw [List.append_assoc]
    exact hfirst (hnames name List.mem_cons_self) _

/-- What is left when the slashes at the front are dropped spells the names alone. -/
theorem Spells.dropWhile_slashed {names : List String} {cs root : List Char} (h : Spells names cs)
    (hnames : ∀ name ∈ names, IsSegment name) (hroot : ∀ c ∈ root, IsSeparator c) :
    (slashed (root ++ cs)).dropWhile (· = '/') = slashed cs := by
  obtain ⟨c, rest, hcons, hc⟩ := h.exists_slashed hnames
  rw [slashed_append, slashed_of_isSeparator hroot, hcons, List.dropWhile_append_of_pos,
    List.dropWhile_cons_of_neg (by simpa using hc)]
  intro d hd
  simpa using List.eq_of_mem_replicate hd

end Uri

theorem pathSegments_append_cons (cs ds : List Char) :
    pathSegments (cs ++ '/' :: ds) = pathSegments cs ++ pathSegments ds := by
  rw [pathSegments, Uri.splitOn_append_cons, List.map_append]
  rfl

theorem pathSegments_toList {name : String} (h : '/' ∉ name.toList) :
    pathSegments name.toList = [name] := by
  rw [pathSegments, Text.splitOn_eq, List.splitOn_eq_singleton h]
  simp

theorem pathSegments_replicate (n : Nat) (cs : List Char) :
    pathSegments (List.replicate n '/' ++ cs) = List.replicate n "" ++ pathSegments cs := by
  induction n with
  | zero => rfl
  | succ n ih =>
    rw [List.replicate_succ, List.cons_append, ← List.nil_append ('/' :: _),
      pathSegments_append_cons, ih]
    rfl

/-- What comes before the first gap is the first segment, and the gap itself is empty segments. -/
theorem Uri.pathSegments_spelled {name : String} {gap : List Char} (hname : IsSegment name)
    (hne : gap ≠ []) (hgap : ∀ c ∈ gap, IsSeparator c) (cs : List Char) :
    pathSegments (slashed (name.toList ++ gap ++ cs))
      = name :: (List.replicate (gap.length - 1) "" ++ pathSegments (slashed cs)) := by
  obtain ⟨c, more, rfl⟩ := List.exists_cons_of_ne_nil hne
  rw [slashed_append, slashed_append, hname.slashed_toList, slashed_of_isSeparator hgap,
    List.length_cons, List.replicate_succ, List.append_assoc, List.cons_append,
    pathSegments_append_cons, pathSegments_toList hname.slash, pathSegments_replicate]
  rfl

/-- What spells names has no other segments, but for empty ones. -/
theorem Uri.Spells.mem_pathSegments {names : List String} {cs : List Char} (h : Spells names cs)
    (hnames : ∀ name ∈ names, IsSegment name) {segment : String}
    (hmem : segment ∈ pathSegments (slashed cs)) : segment = "" ∨ segment ∈ names := by
  induction h with
  | last name =>
    have hname := hnames name List.mem_cons_self
    rw [hname.slashed_toList, pathSegments_toList hname.slash] at hmem
    exact .inr hmem
  | @cons name names gap cs hne hgap h ih =>
    rw [pathSegments_spelled (hnames name List.mem_cons_self) hne hgap, List.mem_cons,
      List.mem_append] at hmem
    obtain rfl | hempty | hrest := hmem
    · exact .inr List.mem_cons_self
    · exact .inl (List.eq_of_mem_replicate hempty)
    · exact (ih (fun n hn => hnames n (List.mem_cons_of_mem _ hn)) hrest).imp_right
        (List.mem_cons_of_mem _)

namespace FileTree

variable {tree : FileTree}

theorem follow_replicate {place : FilePath} (hdir : tree.isDirectory place = true) (n : Nat)
    (segments : List String) :
    tree.follow place (List.replicate n "" ++ segments) = tree.follow place segments := by
  induction n with
  | zero => rfl
  | succ n ih => exact (follow_of_stays _ hdir (.inl rfl)).trans ih

/-- The segments of what spells names lead to what the names lead to. -/
theorem IsTree.follow_pathSegments (htree : tree.IsTree) {names : List String} {cs : List Char}
    (h : Uri.Spells names cs) (hnames : ∀ name ∈ names, Uri.IsSegment name) {place : FilePath}
    (hsome : (tree.entry? (place ++ names)).isSome) :
    tree.follow place (pathSegments (slashed cs)) = some (place ++ names) := by
  induction h generalizing place with
  | last name =>
    have hname := hnames name List.mem_cons_self
    rw [hname.slashed_toList, pathSegments_toList hname.slash,
      follow_name [] (htree place name hsome) hname.isEntryName, if_pos hsome]
    rfl
  | @cons name names gap cs hne hgap h ih =>
    have hname := hnames name List.mem_cons_self
    have hdir := htree.isDirectory (List.cons_ne_nil name names) hsome
    rw [← List.singleton_append, ← List.append_assoc] at hsome
    have hbelow := htree.isDirectory h.ne_nil hsome
    rw [Uri.pathSegments_spelled hname hne hgap, follow_name _ hdir hname.isEntryName,
      if_pos (isSome_of_isDirectory hbelow), follow_replicate hbelow,
      ih (fun n hn => hnames n (List.mem_cons_of_mem _ hn)) hsome, List.append_assoc]
    rfl

end FileTree

/-- A file below the directory is read through every spelling of the names that lead to it. -/
theorem ViewDirectory.read?_of_spells {tree tree₀ : FileTree} {base uri : String}
    (htree : tree.IsTree) {place : FilePath} {names : List String} {data : ByteArray}
    (hplace : tree.follow [] (start tree₀ base).base = some place)
    (hnames : ∀ name ∈ names, Uri.IsSegment name) (hfile : tree.HasFile place names data)
    (huri : Uri.SpellsRooted names uri) : (start tree₀ base).read? tree uri = some data := by
  obtain ⟨root, cs, hcs, hroot, hspells⟩ := huri
  obtain ⟨-, hne, hentry⟩ := hfile
  have hfollow : tree.follow [] ((start tree₀ base).base ++ pathSegments (slashed cs))
      = some (place ++ names) := by
    rw [FileTree.follow_append, hplace]
    exact htree.follow_pathSegments hspells hnames (by rw [hentry]; rfl)
  have htarget : (start tree₀ base).target tree uri = .inside (some (place ++ names)) := by
    obtain ⟨c, rest, hcons, -⟩ := hspells.exists_slashed hnames
    rw [target, hcs, hspells.dropWhile_slashed hnames hroot, hcons]
    dsimp only
    rw [← hcons, hfollow]
    split
    · rename_i p base₀ hp hbase
      cases hp
      rw [if_pos]
      rw [place_start hbase hplace, List.isPrefixOf_iff_prefix]
      exact List.prefix_append place names
    · rw [if_neg]
      rw [List.contains_iff_mem]
      intro hup
      rcases hspells.mem_pathSegments hnames hup with heq | hmem
      · exact absurd heq (by decide)
      · exact (hnames _ hmem).isEntryName.2.2 rfl
  rw [read?, htarget]
  exact FileTree.read?_eq_some.2 hentry

namespace Loader

/-- What a directory loads is what is read below it, and where there is nothing to be read it says
    that nothing is there. -/
theorem loadDirectory_cases (sources : Sources) (d : ViewDirectory) (uri : String) :
    (∃ data, d.read? sources.files uri = some data ∧ loadDirectory sources d uri = .ok data)
      ∨ d.read? sources.files uri = none
        ∧ ∃ what, loadDirectory sources d uri = .error (.notFound what) := by
  rw [ViewDirectory.read?, loadDirectory]
  cases d.target sources.files uri with
  | outside => exact .inr ⟨rfl, _, rfl⟩
  | inside place =>
    dsimp only
    cases place.bind sources.files.read? with
    | none => exact .inr ⟨rfl, _, rfl⟩
    | some data => exact .inl ⟨data, rfl, rfl⟩

/-- A directory serves what lies below it and nothing else. What it loads are the bytes of a file
    that names lead to from where it is, which is where it was if it was anywhere when serving
    began; it fails only with absence, and has just the views that it loads. Every file below it is
    served for every spelling of the names that lead there. -/
theorem directory_confined (tree₀ : FileTree) (base : String) (sources : Sources) (uri : String) :
    let d := ViewDirectory.start tree₀ base
    let answer := (directory d).load sources uri
    (∀ data, answer = .ok data →
      ∃ place names, sources.files.follow [] d.base = some place
        ∧ (∀ place₀, d.place = some place₀ → place₀ = place)
        ∧ (∀ name ∈ names, IsEntryName name) ∧ sources.files.HasFile place names data)
    ∧ (∀ error, answer = .error error → error.isNotFound = true)
    ∧ ((directory d).provides sources uri = true ↔ ∃ data, answer = .ok data)
    ∧ ∀ place names data, sources.files.IsTree → sources.files.follow [] d.base = some place →
        (∀ name ∈ names, Uri.IsSegment name) → sources.files.HasFile place names data →
        Uri.SpellsRooted names uri → answer = .ok data := by
  intro d answer
  have hload : answer = loadDirectory sources d uri := by
    rw [show answer = (directory d).load sources uri from rfl, load]
  have hprovides : (directory d).provides sources uri = (d.read? sources.files uri).isSome := by
    rw [provides]
  obtain ⟨data₀, hread, hdata⟩ | ⟨hread, what, herror⟩ := loadDirectory_cases sources d uri
  · rw [hprovides, hread, hload, hdata]
    refine ⟨fun data h => ?_, fun error h => ?_, ⟨fun _ => ⟨data₀, rfl⟩, fun _ => rfl⟩,
      fun place names data htree hplace hnames hfile huri => ?_⟩
    · cases h
      obtain ⟨place, names, hplace, hnames, hfile⟩ := ViewDirectory.exists_of_read? hread
      exact ⟨place, names, hplace, fun _ h₀ => ViewDirectory.place_start h₀ hplace, hnames, hfile⟩
    · cases h
    · have hfound : d.read? sources.files uri = some data :=
        ViewDirectory.read?_of_spells htree hplace hnames hfile huri
      rw [Option.some.inj (hread.symm.trans hfound)]
  · rw [hprovides, hread, hload, herror]
    refine ⟨fun data h => ?_, fun error h => ?_, iff_of_false Bool.false_ne_true ?_,
      fun place names data htree hplace hnames hfile huri => ?_⟩
    · cases h
    · cases h
      rfl
    · rintro ⟨data, h⟩
      cases h
    · have hfound : d.read? sources.files uri = some data :=
        ViewDirectory.read?_of_spells htree hplace hnames hfile huri
      cases hread.symm.trans hfound

/-- A card in a directory of views. -/
def cardTree (data : ByteArray) : FileTree :=
  [(["views", "pages", "card.xview"], .file data), (["views", "pages"], .directory),
    (["views"], .directory)]

/-- The card is served from a directory that was not there when serving began. -/
theorem directory_confined_card (data : ByteArray) :
    (directory (ViewDirectory.start [] "views")).load { files := cardTree data }
      "\\\\pages/\\card.xview" = .ok data := by
  obtain ⟨-, -, -, hserved⟩ := directory_confined [] "views" { files := cardTree data }
    "\\\\pages/\\card.xview"
  refine hserved ["views"] ["pages", "card.xview"] data ?_ rfl ?_ ⟨rfl, nofun, rfl⟩ ?_
  · refine FileTree.isTree_of_mem fun e he => ?_
    simp only [cardTree, List.mem_cons, List.not_mem_nil, or_false] at he
    obtain rfl | rfl | rfl := he <;> rfl
  · intro name hname
    simp only [List.mem_cons, List.not_mem_nil, or_false] at hname
    obtain rfl | rfl := hname <;> exact ⟨by decide, by decide, by decide, by decide⟩
  · have hroot : ∀ c ∈ ['\\', '\\'], Uri.IsSeparator c := by simp [Uri.IsSeparator]
    have hgap : ∀ c ∈ ['/', '\\'], Uri.IsSeparator c := by simp [Uri.IsSeparator]
    have hspells : Uri.Spells ["pages", "card.xview"]
        ("pages".toList ++ ['/', '\\'] ++ "card.xview".toList) :=
      .cons "pages" (List.cons_ne_nil _ _) hgap (.last "card.xview")
    exact ⟨['\\', '\\'], _, rfl, hroot, hspells⟩

end Loader

end ScriptedViews

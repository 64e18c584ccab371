import Mathlib.Data.List.Forall2
import ScriptedViews.Proofs.Xml.Documents

set_option autoImplicit false

/-! # Character data

What becomes of the character data of a document. It comes in runs, each of which goes on to the
next comment, instruction or tag. A run that is not blank is a text of the tree as it stands; one
that is blank is left out, wherever it stands. So the text of an element is its character data
without the blank runs, and that is all of it only if every blank run is empty. -/

namespace ScriptedViews

namespace Xml.Piece

/-! ## Runs -/

/-- The character data of some pieces, in the order of the document. Comments, instructions and tags
    are left out, and what stands between tags is not. -/
def characterData : List Piece → List Char
  | [] => []
  | .chars cs :: ps => (normalized? cs).toOption.getD [] ++ characterData ps
  | .section cs :: ps => normalizeLines cs ++ characterData ps
  | .comment _ :: ps => characterData ps
  | .instruction _ :: ps => characterData ps
  | .empty _ :: ps => characterData ps
  | .element _ content _ _ :: ps => characterData content ++ characterData ps

/-- The runs of character data of some pieces after one that theirs would join. Comments,
    instructions and tags end a run. -/
def runsAfter : Option (List Char) → List Piece → List (List Char)
  | run, [] => run.toList
  | run, .chars cs :: ps => runsAfter (joinText run ((normalized? cs).toOption.getD [])) ps
  | run, .section cs :: ps => runsAfter (joinText run (normalizeLines cs)) ps
  | run, .comment _ :: ps => run.toList ++ runsAfter none ps
  | run, .instruction _ :: ps => run.toList ++ runsAfter none ps
  | run, .empty _ :: ps => run.toList ++ runsAfter none ps
  | run, .element _ content _ _ :: ps => run.toList ++ (runsAfter none content ++ runsAfter none ps)

/-- The runs of character data of some pieces. -/
def runs (ps : List Piece) : List (List Char) :=
  runsAfter none ps

/-- Whether a run has nothing but blanks. -/
def isBlankRun (run : List Char) : Bool :=
  run.all Text.isBlank

/-- The character data of some runs that are not blank. -/
def keep (runs : List (List Char)) : List Char :=
  (runs.filter fun run => !isBlankRun run).flatten

/-- The character data of some pieces without the blank runs. -/
def keptData (ps : List Piece) : List Char :=
  keep (runs ps)

theorem flatten_runsAfter : ∀ (run : Option (List Char)) (ps : List Piece),
    (runsAfter run ps).flatten = run.getD [] ++ characterData ps
  | run, [] => by cases run <;> simp [runsAfter, characterData]
  | run, .chars cs :: ps => by
    rw [runsAfter, flatten_runsAfter, characterData, joinText, Option.getD_some, List.append_assoc]
  | run, .section cs :: ps => by
    rw [runsAfter, flatten_runsAfter, characterData, joinText, Option.getD_some, List.append_assoc]
  | run, .comment _ :: ps => by
    rw [runsAfter, List.flatten_append, flatten_runsAfter none ps, characterData]
    cases run <;> simp
  | run, .instruction _ :: ps => by
    rw [runsAfter, List.flatten_append, flatten_runsAfter none ps, characterData]
    cases run <;> simp
  | run, .empty _ :: ps => by
    rw [runsAfter, List.flatten_append, flatten_runsAfter none ps, characterData]
    cases run <;> simp
  | run, .element _ content _ _ :: ps => by
    rw [runsAfter, List.flatten_append, List.flatten_append, flatten_runsAfter none content,
      flatten_runsAfter none ps, characterData]
    cases run <;> simp

/-- The runs of some pieces are all of their character data. -/
theorem flatten_runs (ps : List Piece) : (runs ps).flatten = characterData ps := by
  rw [runs, flatten_runsAfter]
  rfl

theorem keep_append (a b : List (List Char)) : keep (a ++ b) = keep a ++ keep b := by
  rw [keep, List.filter_append, List.flatten_append]
  rfl

theorem keep_cons (run : List Char) (rest : List (List Char)) :
    keep (run :: rest) = (if isBlankRun run then [] else run) ++ keep rest := by
  rw [← List.singleton_append, keep_append]
  cases h : isBlankRun run <;> simp [keep, h]

theorem length_keep_le (runs : List (List Char)) :
    (keep runs).length ≤ runs.flatten.length := by
  induction runs with
  | nil => exact Nat.le_refl _
  | cons run runs ih =>
    rw [keep_cons, List.flatten_cons, List.length_append, List.length_append]
    split
    · exact Nat.add_le_add (Nat.zero_le _) ih
    · exact Nat.add_le_add_left ih _

/-- Runs are kept as they are if and only if those that are blank have nothing in them. -/
theorem keep_eq_flatten_iff {runs : List (List Char)} :
    keep runs = runs.flatten ↔ ∀ run ∈ runs, isBlankRun run → run = [] := by
  induction runs with
  | nil => simp [keep]
  | cons run runs ih =>
    rw [keep_cons, List.flatten_cons, List.forall_mem_cons, ← ih]
    by_cases h : isBlankRun run
    · rw [if_pos h, List.nil_append]
      constructor
      · intro heq
        -- what is kept of the rest is no longer than the rest
        have hlength := congrArg List.length heq
        have hle := length_keep_le runs
        rw [List.length_append] at hlength
        have hnil : run = [] := List.eq_nil_of_length_eq_zero (by omega)
        rw [hnil, List.nil_append] at heq
        exact ⟨fun _ => hnil, heq⟩
      · rintro ⟨hnil, heq⟩
        rw [heq, hnil h, List.nil_append]
    · rw [if_neg h, List.append_cancel_left_eq]
      exact ⟨fun heq => ⟨fun hblank => absurd hblank h, heq⟩, fun heq => heq.2⟩

/-- Nothing but blanks is left out. -/
theorem filter_keep (runs : List (List Char)) :
    (keep runs).filter (!Text.isBlank ·) = runs.flatten.filter (!Text.isBlank ·) := by
  induction runs with
  | nil => rfl
  | cons run runs ih =>
    rw [keep_cons, List.flatten_cons, List.filter_append, List.filter_append, ih]
    by_cases h : isBlankRun run
    · have hnone : run.filter (!Text.isBlank ·) = [] := by
        rw [List.filter_eq_nil_iff]
        intro c hc
        simp [List.all_eq_true.1 h c hc]
      rw [if_pos h, hnone, List.filter_nil]
    · rw [if_neg h]

/-! ## Nodes of a tree -/

/-- Whether some nodes are what becomes of some pieces after text that theirs would join, whatever
    the names and attributes of elements. -/
inductive Yields : Option (List Char) → List Piece → List ScriptedViews.Node → Prop where
  | nil (run : Option (List Char)) : Yields run [] (textNodes run)
  | chars {run : Option (List Char)} {cs : List Char} {ps : List Piece}
      {ns : List ScriptedViews.Node}
      (h : Yields (joinText run ((normalized? cs).toOption.getD [])) ps ns) :
      Yields run (.chars cs :: ps) ns
  | section {run : Option (List Char)} {cs : List Char} {ps : List Piece}
      {ns : List ScriptedViews.Node} (h : Yields (joinText run (normalizeLines cs)) ps ns) :
      Yields run (.section cs :: ps) ns
  | comment {run : Option (List Char)} {cs : List Char} {ps : List Piece}
      {ns : List ScriptedViews.Node} (h : Yields none ps ns) :
      Yields run (.comment cs :: ps) (textNodes run ++ ns)
  | instruction {run : Option (List Char)} {cs : List Char} {ps : List Piece}
      {ns : List ScriptedViews.Node} (h : Yields none ps ns) :
      Yields run (.instruction cs :: ps) (textNodes run ++ ns)
  | empty {run : Option (List Char)} {tag : SpelledTag} {ps : List Piece}
      {ns : List ScriptedViews.Node} (name : QName) (attributes : List Attribute)
      (h : Yields none ps ns) :
      Yields run (.empty tag :: ps) (textNodes run ++ .element name attributes [] :: ns)
  | element {run : Option (List Char)} {tag : SpelledTag} {content : List Piece}
      {closing : WrittenName} {space : List Char} {ps : List Piece}
      {children ns : List ScriptedViews.Node} (name : QName) (attributes : List Attribute)
      (hcontent : Yields none content children) (h : Yields none ps ns) :
      Yields run (.element tag content closing space :: ps)
        (textNodes run ++ .element name attributes children :: ns)

theorem textOfAll_textNodes (run : Option (List Char)) :
    (Node.textOfAll (textNodes run)).toList = keep run.toList := by
  cases run with
  | none => rfl
  | some cs =>
    have hblank : Text.isBlankText (String.ofList cs) = isBlankRun cs := by
      rw [Text.isBlankText, String.toList_ofList, isBlankRun]
    rw [textNodes, Option.toList_some, keep_cons, hblank]
    cases isBlankRun cs <;> simp [Node.textOfAll, Node.textContent, keep]

/-- The text of the nodes is the character data without the blank runs. -/
theorem Yields.textOfAll {run : Option (List Char)} {ps : List Piece}
    {ns : List ScriptedViews.Node} (h : Yields run ps ns) :
    (Node.textOfAll ns).toList = keep (runsAfter run ps) := by
  induction h with
  | nil run => rw [textOfAll_textNodes, runsAfter]
  | chars _ ih => rw [ih, runsAfter]
  | «section» _ ih => rw [ih, runsAfter]
  | comment _ ih =>
    rw [Node.textOfAll_append, String.toList_append, textOfAll_textNodes, ih, runsAfter,
      keep_append]
  | instruction _ ih =>
    rw [Node.textOfAll_append, String.toList_append, textOfAll_textNodes, ih, runsAfter,
      keep_append]
  | empty name attributes _ ih =>
    rw [Node.textOfAll_append, Node.textOfAll, Node.textContent, Node.textOfAll,
      String.toList_append, String.toList_append, textOfAll_textNodes, ih, runsAfter, keep_append]
    rfl
  | element name attributes _ _ ihcontent ih =>
    rw [Node.textOfAll_append, Node.textOfAll, Node.textContent, String.toList_append,
      String.toList_append, textOfAll_textNodes, ihcontent, ih, runsAfter, keep_append, keep_append]

/-! ## Where the content of elements stands -/

/-- What some pieces have in them, node by node, after text that theirs would join: the content of
    elements, and nothing for text. -/
def contentsAfter : Option (List Char) → List Piece → List (Option (List Piece))
  | run, [] => (textNodes run).map fun _ => none
  | run, .chars cs :: ps => contentsAfter (joinText run ((normalized? cs).toOption.getD [])) ps
  | run, .section cs :: ps => contentsAfter (joinText run (normalizeLines cs)) ps
  | run, .comment _ :: ps => (textNodes run).map (fun _ => none) ++ contentsAfter none ps
  | run, .instruction _ :: ps => (textNodes run).map (fun _ => none) ++ contentsAfter none ps
  | run, .empty _ :: ps => (textNodes run).map (fun _ => none) ++ some [] :: contentsAfter none ps
  | run, .element _ content _ _ :: ps =>
    (textNodes run).map (fun _ => none) ++ some content :: contentsAfter none ps

/-- The content of the element that a path leads to from some pieces. The path gives the number of
    the node to go to at each step, where blank runs count for nothing. -/
def contentAt : List Nat → List Piece → Option (List Piece)
  | [], ps => some ps
  | i :: path, ps => (contentsAfter none ps)[i]?.join.bind (contentAt path)

theorem contentAt_append (path : List Nat) (i : Nat) (ps : List Piece) :
    contentAt (path ++ [i]) ps = (contentAt path ps).bind (contentAt [i]) := by
  induction path generalizing ps with
  | nil => rfl
  | cons j path ih =>
    rw [List.cons_append, contentAt, contentAt]
    cases (contentsAfter none ps)[j]?.join with
    | none => rfl
    | some content => exact ih content

/-- Whether a node has in it what the content of an element yields, or is a text. -/
inductive Fits : Option (List Piece) → ScriptedViews.Node → Prop where
  | text (content : String) : Fits none (.text content)
  | element {content : List Piece} {children : List ScriptedViews.Node} (name : QName)
      (attributes : List Attribute) (h : Yields none content children) :
      Fits (some content) (.element name attributes children)

theorem fits_textNodes (run : Option (List Char)) :
    List.Forall₂ Fits ((textNodes run).map fun _ => none) (textNodes run) := by
  cases run with
  | none => exact .nil
  | some cs =>
    rw [textNodes]
    split
    · exact .nil
    · exact .cons (.text _) .nil

theorem Yields.fits {run : Option (List Char)} {ps : List Piece} {ns : List ScriptedViews.Node}
    (h : Yields run ps ns) : List.Forall₂ Fits (contentsAfter run ps) ns := by
  induction h with
  | nil run =>
    rw [contentsAfter]
    exact fits_textNodes run
  | chars _ ih =>
    rw [contentsAfter]
    exact ih
  | «section» _ ih =>
    rw [contentsAfter]
    exact ih
  | comment _ ih =>
    rw [contentsAfter]
    exact List.rel_append (fits_textNodes _) ih
  | instruction _ ih =>
    rw [contentsAfter]
    exact List.rel_append (fits_textNodes _) ih
  | empty name attributes _ ih =>
    rw [contentsAfter]
    exact List.rel_append (fits_textNodes _) (.cons (.element name attributes (.nil none)) ih)
  | element name attributes hcontent _ _ ih =>
    rw [contentsAfter]
    exact List.rel_append (fits_textNodes _) (.cons (.element name attributes hcontent) ih)

/-- The child of that number has in it what the content of that number yields. -/
theorem Yields.child {ps : List Piece} {ns children : List ScriptedViews.Node} {i : Nat}
    {name : QName} {attributes : List Attribute} (h : Yields none ps ns)
    (hchild : ns[i]? = some (.element name attributes children)) :
    ∃ content, contentAt [i] ps = some content ∧ Yields none content children := by
  obtain ⟨hi, hget⟩ := List.getElem?_eq_some_iff.1 hchild
  have hlength := h.fits.length_eq
  have hi' : i < (contentsAfter none ps).length := by omega
  have hfits := h.fits.get hi' hi
  rw [List.get_eq_getElem, List.get_eq_getElem, hget] at hfits
  generalize hcontent : (contentsAfter none ps)[i] = content at hfits
  cases hfits with
  | element _ _ hyields =>
    refine ⟨_, ?_, hyields⟩
    rw [contentAt, List.getElem?_eq_some_iff.2 ⟨hi', hcontent⟩]
    rfl

/-- What stands between the tags of an element. -/
def content : Piece → List Piece
  | .element _ content _ _ => content
  | _ => []

end Xml.Piece

/-! ## What is read -/

namespace Xml

open Document (convert)
open Piece (Yields content)

/-- What becomes of an element in the tree of a view, whatever its name and attributes. -/
theorem OpenElement.exists_convert_close (e : OpenElement) :
    ∃ name attributes, convert e.close = [.element name attributes e.endRun.nodes] := by
  rw [OpenElement.close, convert]
  exact ⟨_, _, rfl⟩

/-- The nodes that an element comes to have are those that the pieces it absorbs yield. -/
theorem yields_of_absorb : ∀ {ps : List Piece} {rest : List Char} {e e' : OpenElement},
    e.absorb ps rest = .ok e' → ∃ ns, Yields e.run ps ns ∧ e'.endRun.nodes = e.nodes ++ ns
  | [], rest, e, e', h => by
    rw [OpenElement.absorb] at h
    cases h
    exact ⟨_, .nil e.run, e.nodes_endRun⟩
  | .chars cs :: ps, rest, e, e', h => by
    rw [OpenElement.absorb] at h
    obtain ⟨ns, hyields, hnodes⟩ := yields_of_absorb h
    exact ⟨ns, .chars hyields, hnodes⟩
  | .section cs :: ps, rest, e, e', h => by
    rw [OpenElement.absorb] at h
    obtain ⟨ns, hyields, hnodes⟩ := yields_of_absorb h
    exact ⟨ns, .section hyields, hnodes⟩
  | .comment cs :: ps, rest, e, e', h => by
    -- the run so far becomes a text of its own, and what follows starts another one
    rw [OpenElement.absorb] at h
    obtain ⟨ns, hyields, hnodes⟩ := yields_of_absorb h
    rw [e.run_endRun] at hyields
    rw [e.nodes_endRun, List.append_assoc] at hnodes
    exact ⟨_, .comment hyields, hnodes⟩
  | .instruction cs :: ps, rest, e, e', h => by
    rw [OpenElement.absorb] at h
    obtain ⟨ns, hyields, hnodes⟩ := yields_of_absorb h
    rw [e.run_endRun] at hyields
    rw [e.nodes_endRun, List.append_assoc] at hnodes
    exact ⟨_, .instruction hyields, hnodes⟩
  | .empty tag :: ps, rest, e, e', h => by
    rw [OpenElement.absorb] at h
    obtain ⟨child, hopen, hrest⟩ := exists_of_bind h
    obtain ⟨ns, hyields, hnodes⟩ := yields_of_absorb hrest
    obtain ⟨name, attributes, hconvert⟩ := child.exists_convert_close
    have hopens := SpelledTag.opens_of_open? hopen
    have hnone : child.endRun.nodes = [] := by
      rw [child.nodes_endRun, hopens.nodes_eq, hopens.run]
      rfl
    rw [show (e.addNode child.close).run = none from e.run_endRun] at hyields
    rw [OpenElement.nodes_addNode, hconvert, hnone, List.append_assoc, List.append_assoc] at hnodes
    exact ⟨_, .empty name attributes hyields, hnodes⟩
  | .element tag content closing space :: ps, rest, e, e', h => by
    rw [OpenElement.absorb] at h
    obtain ⟨child, hopen, hmore⟩ := exists_of_bind h
    obtain ⟨child', hcontent, hrest⟩ := exists_of_bind hmore
    obtain ⟨children, hinner, hchildren⟩ := yields_of_absorb hcontent
    obtain ⟨ns, hyields, hnodes⟩ := yields_of_absorb hrest
    obtain ⟨name, attributes, hconvert⟩ := child'.exists_convert_close
    have hopens := SpelledTag.opens_of_open? hopen
    rw [hopens.run] at hinner
    rw [hopens.nodes_eq, List.nil_append] at hchildren
    rw [show (e.addNode child'.close).run = none from e.run_endRun] at hyields
    rw [OpenElement.nodes_addNode, hconvert, hchildren, List.append_assoc,
      List.append_assoc] at hnodes
    exact ⟨_, .element name attributes hinner hyields, hnodes⟩

/-- The children of a document's root are those that its content yields. -/
theorem yields_of_openRoot {p : Piece} {after : List Char} {e : OpenElement}
    (h : openRoot p after = .ok e) : Yields none p.content e.endRun.nodes := by
  cases p with
  | empty tag =>
    have hopens := SpelledTag.opens_of_open? h
    rw [e.nodes_endRun, hopens.nodes_eq, hopens.run]
    exact .nil none
  | element tag content closing space =>
    obtain ⟨child, hopen, habsorb⟩ := exists_of_bind h
    obtain ⟨children, hyields, hnodes⟩ := yields_of_absorb habsorb
    have hopens := SpelledTag.opens_of_open? hopen
    rw [hopens.run] at hyields
    rw [hopens.nodes_eq, List.nil_append] at hnodes
    rw [hnodes]
    exact hyields
  | _ => cases h

end Xml

/-- Whatever document spells the text of a view, the children of the view's root are those that the
    content of the document's root yields. -/
theorem Document.yields_of_parse {text : String} {root : Element} (h : parse text = .ok root)
    {d : Xml.SpelledDocument} (hvalid : d.IsValid) (hspell : d.spell = text.toList) :
    Xml.Piece.Yields none d.root.content root.children := by
  rw [parse] at h
  cases hparse : Xml.parse text with
  | error e => simp [hparse] at h
  | ok tree =>
    rw [hparse] at h
    cases h
    obtain ⟨e, hopen, rfl⟩ := Xml.SpelledDocument.openRoot_of_parse hvalid hspell.symm hparse
    exact Xml.yields_of_openRoot hopen

end ScriptedViews

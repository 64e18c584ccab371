import ScriptedViews.Proofs.Script.Alike.Runs
import ScriptedViews.Render.Rendering

set_option autoImplicit false

/-! # Requests that are alike

What the engine keeps while code runs refers to contexts, to values and to views. Two engines need
not have put any of them at the same places. How far their worlds may differ besides is left open:
that depends on which engines are compared. -/

namespace ScriptedViews

open Script (Value Bytes Heap Matching State Host ValuesAlike EntriesAlike ExceptAlike Likeness utf8)

variable {R S : Matching}

/-! ## Bridges, requests and frames -/

/-- Whether two bridges are for renders of views that stand for each other. -/
structure Bridge.Alike (R : Matching) (b b' : Bridge) : Prop where
  engine : b.engine = b'.engine
  view : R.hosted b.view b'.view
  context : R.table b.context b'.context
  sink : b.sink = b'.sink
  depth : b.depth = b'.depth

/-- Whether two attributes have the same name and values that are alike. -/
def AttributeAlike (R : Matching) (a a' : String × Value) : Prop :=
  a.1 = a'.1 ∧ a.2.Alike R a'.2

/-- Whether attributes are alike one by one. -/
abbrev AttributesAlike (R : Matching) : List (String × Value) → List (String × Value) → Prop :=
  List.Forall₂ (AttributeAlike R)

/-- Whether two requests are for views that stand for each other. -/
structure Request.Alike (R : Matching) (r r' : Request) : Prop where
  engine : r.engine = r'.engine
  view : R.hosted r.view r'.view
  sink : r.sink = r'.sink
  depth : r.depth = r'.depth
  attributes : AttributesAlike R r.attributes r'.attributes
  children : r.children = r'.children

/-- Whether two engines go on alike. They make contexts and compile code at the same time only if
    that is said. -/
inductive Pending.Alike (making compiling : Prop) (R : Matching) : Pending → Pending → Prop where
  | nothing : Alike making compiling R .nothing .nothing
  | acquiring (hm : making) {r r' : Request} (h : r.Alike R r') :
      Alike making compiling R (.acquiring r) (.acquiring r')
  | preparing (hc : compiling) {r r' : Request} (h : r.Alike R r') {c c' : Nat} (ht : R.table c c')
      (previous previous' : Option String) :
      Alike making compiling R (.preparing r c previous) (.preparing r' c' previous')
  | running {r r' : Request} (h : r.Alike R r') {c c' : Nat} (ht : R.table c c') :
      Alike making compiling R (.running r c) (.running r' c')
  | lookingUp (sink : Nat) {v v' : Value} (h : v.Alike R v') :
      Alike making compiling R (.lookingUp sink v) (.lookingUp sink v')
  | printing (sink : Nat) : Alike making compiling R (.printing sink) (.printing sink)

section Mono

variable (hg : R.Widens S)

include hg

theorem Bridge.Alike.mono {b b' : Bridge} (h : b.Alike R b') : b.Alike S b' :=
  ⟨h.engine, hg.hosted h.view, hg.table h.context, h.sink, h.depth⟩

theorem attributesAlike_mono {as as' : List (String × Value)} (h : AttributesAlike R as as') :
    AttributesAlike S as as' :=
  h.imp fun _ _ ha => ⟨ha.1, ha.2.mono hg⟩

theorem Request.Alike.mono {r r' : Request} (h : r.Alike R r') : r.Alike S r' :=
  ⟨h.engine, hg.hosted h.view, h.sink, h.depth, attributesAlike_mono hg h.attributes, h.children⟩

theorem Pending.Alike.mono {making compiling : Prop} {p p' : Pending}
    (h : p.Alike making compiling R p') : p.Alike making compiling S p' := by
  cases h with
  | nothing => exact .nothing
  | acquiring hm h => exact .acquiring hm (h.mono hg)
  | preparing hc h ht previous previous' =>
    exact .preparing hc (h.mono hg) (hg.table ht) previous previous'
  | running h ht => exact .running (h.mono hg) (hg.table ht)
  | lookingUp sink h => exact .lookingUp sink (h.mono hg)
  | printing sink => exact .printing sink

end Mono

/-! ## Worlds -/

/-- When the worlds of two engines are alike. -/
structure WorldLikeness where
  world : Matching → World → World → Prop
  /-- Whether contexts may be in the making in both worlds at once. -/
  making : Prop
  /-- Whether code may be being compiled in both worlds at once. -/
  compiling : Prop
  mono : ∀ {R S w w'}, R.Grows S → world R w w' → world S w w'

/-- When what the machine knows of engines is alike. -/
def WorldLikeness.likeness (W : WorldLikeness) : Likeness Bridge World Pending where
  object := Bridge.Alike
  world := W.world
  frame := Pending.Alike W.making W.compiling
  object_mono hg ho := ho.mono hg
  world_mono := W.mono
  frame_mono hg hf := hf.mono hg

/-- Whether two engines answer calls of their bridges alike. -/
structure Engine.Agrees (e e' : Engine) : Prop where
  isHeld : e.isHeld = e'.isHeld
  maxNestingDepth : e.config.maxNestingDepth = e'.config.maxNestingDepth

/-- A view as it has been read. -/
def View.unprepared (v : View) : View :=
  { v with executable := none }

/-- Whether two views have come of the same text. Their code need not have been prepared in both. -/
def View.Agrees (v v' : View) : Prop :=
  v.unprepared = v'.unprepared

theorem View.Agrees.uri {v v' : View} (h : v.Agrees v') : v.uri = v'.uri := by
  have hsame : v.unprepared.uri = v'.unprepared.uri := congrArg View.uri h
  exact hsame

theorem View.Agrees.engine {v v' : View} (h : v.Agrees v') : v.engine = v'.engine := by
  have hsame : v.unprepared.engine = v'.unprepared.engine := congrArg View.engine h
  exact hsame

theorem View.Agrees.defaults {v v' : View} (h : v.Agrees v') : v.defaults = v'.defaults := by
  have hsame : v.unprepared.defaults = v'.unprepared.defaults := congrArg View.defaults h
  exact hsame

theorem View.Agrees.source {v v' : View} (h : v.Agrees v') : v.source = v'.source := by
  have hsame : v.unprepared.source = v'.unprepared.source := congrArg View.source h
  exact hsame

/-! ## Variables of contexts -/

variable {W : WorldLikeness} {h h' : BridgeHeap} {c c' : Nat}

namespace Script.Heap.Alike

section

variable (hh : Heap.Alike W.likeness R h h') (hc : R.table c c')

include hh hc

theorem contextSet (name : String) {v v' : Value} (hv : v.Alike R v') :
    Heap.Alike W.likeness R (h.contextSet c name v) (h'.contextSet c' name v') :=
  hh.modifyTable hc fun _ _ ht => ht.setText hh.faithful _ hv

theorem contextClear : Heap.Alike W.likeness R (h.contextClear c) (h'.contextClear c') :=
  hh.modifyTable hc fun _ _ ht => ht.clear

theorem contextEntries : AttributesAlike R (h.contextEntries c) (h'.contextEntries c') := by
  have hentries := (hh.tables hc).toList
  unfold Script.Heap.contextEntries
  generalize (h.table c).toList = es at hentries ⊢
  generalize (h'.table c').toList = es' at hentries ⊢
  induction hentries with
  | nil => exact .nil
  | @cons e e' es es' he _ ih =>
    obtain ⟨key, v⟩ := e
    obtain ⟨key', v'⟩ := e'
    obtain ⟨hk, hv⟩ : key.Alike R key' ∧ v.Alike R v' := he
    cases hk with
    | text bytes => exact .cons ⟨rfl, hv⟩ ih
    | _ => exact ih

theorem bindDefaults (defaults : OrderedMap String String) :
    Heap.Alike W.likeness R (Render.bindDefaults h c defaults)
      (Render.bindDefaults h' c' defaults) := by
  unfold Render.bindDefaults
  induction defaults generalizing h h' with
  | nil => exact hh
  | cons e defaults ih => exact ih (hh.contextSet hc e.1 (.ofString e.2))

end

theorem overridesDefault_eq {v v' : Value} (hv : v.Alike R v') :
    Render.overridesDefault v = Render.overridesDefault v' := by
  cases hv <;> rfl

theorem bindAttributes (hh : Heap.Alike W.likeness R h h') (hc : R.table c c')
    (defaults : OrderedMap String String) {as as' : List (String × Value)}
    (ha : AttributesAlike R as as') :
    Heap.Alike W.likeness R (Render.bindAttributes h c defaults as)
      (Render.bindAttributes h' c' defaults as') := by
  unfold Render.bindAttributes
  induction ha generalizing h h' with
  | nil => exact hh
  | @cons a a' as as' ha _ ih =>
    refine ih ?_
    simp only [ha.1, overridesDefault_eq ha.2]
    split
    · exact hh.contextSet hc _ ha.2
    · exact hh

/-- A context is given the variables of a request, of which the bridge is new. -/
theorem bindVariables (hh : Heap.Alike W.likeness R h h') (hc : R.table c c')
    (defaults : OrderedMap String String) {as as' : List (String × Value)}
    (ha : AttributesAlike R as as') (children : Option String) {b b' : Bridge}
    (hb : b.Alike R b') :
    ∃ S, R.Grows S ∧ Heap.Alike W.likeness S (Render.bindVariables h c defaults as children b)
      (Render.bindVariables h' c' defaults as' children b') := by
  have hbound := (hh.bindDefaults hc defaults).bindAttributes hc defaults ha
  have hobject {content : Value} (hcontent : content.Alike R content) :=
    (hbound.contextSet hc Vocabulary.childContentBinding hcontent).newObject (.host hb)
  cases children with
  | none =>
    exact ⟨_, Matching.grows_withObject, (hobject .nil).contextSet
      (Matching.grows_withObject.table hc) _ (.object Matching.object_withObject)⟩
  | some source =>
    exact ⟨_, Matching.grows_withObject, (hobject (.ofString source)).contextSet
      (Matching.grows_withObject.table hc) _ (.object Matching.object_withObject)⟩

end Script.Heap.Alike

/-! ## Arguments of the bridge -/

namespace Bridge

theorem receiver?_alike (hh : Heap.Alike W.likeness R h h') {args args' : List Value}
    (ha : ValuesAlike R args args') :
    Option.Rel (Bridge.Alike R) (receiver? h args) (receiver? h' args') := by
  cases ha with
  | nil => exact .none
  | cons hv _ =>
    cases hv with
    | object hr =>
      obtain ⟨o, o', ho, ho', halike⟩ := hh.objects hr
      simp only [receiver?, ho, ho']
      cases halike with
      | host hb => exact .some hb
      | failure cause => exact .none
    | _ => exact .none

theorem textArgument_eq {v v' : Value} (hv : v.Alike R v') : textArgument v = textArgument v' := by
  unfold textArgument
  rw [hv.toText?_eq]

theorem optionalText_eq {v v' : Value} (hv : v.Alike R v') : optionalText v = optionalText v' := by
  have htext := textArgument_eq hv
  cases hv with
  | nil => rfl
  | _ => exact congrArg (Except.map some) htext

theorem optionalTable_alike {v v' : Value} (hv : v.Alike R v') :
    ExceptAlike (Option.Rel R.table) (optionalTable v) (optionalTable v') := by
  cases hv with
  | nil => exact .ok .none
  | table hr => exact .ok (.some hr)
  | _ => exact .error _

theorem addAttributes_alike {scope scope' : List (String × Value)} (hs : AttributesAlike R scope scope')
    {given given' : List (Value × Value)} (hgiven : EntriesAlike R given given') :
    Option.Rel (AttributesAlike R) (addAttributes scope given) (addAttributes scope' given') := by
  induction hgiven generalizing scope scope' with
  | nil => exact .some hs
  | @cons e e' given given' he _ ih =>
    obtain ⟨key, v⟩ := e
    obtain ⟨key', v'⟩ := e'
    obtain ⟨hk, hv⟩ : key.Alike R key' ∧ v.Alike R v' := he
    simp only [addAttributes, attributeName?, hk.toText?_eq]
    split
    · exact .none
    · rename_i name _
      refine ih (List.rel_append ?_ (.cons ⟨rfl, hv⟩ .nil))
      clear ih
      induction hs with
      | nil => exact .nil
      | @cons a a' scope scope' ha _ ih =>
        simp only [List.filter_cons, ha.1]
        split
        · exact .cons ha ih
        · exact ih

theorem isPresent_eq {v v' : Value} (hv : v.Alike R v') : isPresent v = isPresent v' := by
  cases hv <;> rfl

end Bridge

end ScriptedViews

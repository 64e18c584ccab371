import ScriptedViews.Proofs.Render.Acts
import ScriptedViews.Proofs.Render.CallScope

set_option autoImplicit false

/-! # What code starts with

When the code of a view starts, a context that was empty has the attributes that the view declares,
each with the value that was given for it last or with its default, the bridge of the render, and the
caller's content, if there is any. Nothing else is in it; so what is given counts by name, and what
is not declared, nil or blank might as well not be given. -/

namespace ScriptedViews

open Code (bridgeName contentName)
open Script (Bytes Value Frame State utf8)
open Script.State (Reaches)
open Text (utf8_injective)

/-! ## Keys -/

namespace Script.Table

theorem mem_of_replace {key u k v : Value} {es es' : List (Value × Value)}
    (h : replace key u es = some es') (hmem : (k, v) ∈ es') : k.same key = true ∨ (k, v) ∈ es := by
  induction es generalizing es' with
  | nil => cases h
  | cons e es ih =>
    rw [replace_cons] at h
    split at h
    · rename_i hsame
      cases h
      rcases List.mem_cons.1 hmem with heq | hmem
      · exact .inl ((Prod.mk.inj heq).1 ▸ hsame)
      · exact .inr (List.mem_cons_of_mem e hmem)
    · obtain ⟨es'', hes, rfl⟩ := Option.map_eq_some_iff.1 h
      rcases List.mem_cons.1 hmem with heq | hmem
      · exact .inr (heq ▸ List.mem_cons_self)
      · exact (ih hes hmem).imp_right (List.mem_cons_of_mem e)

/-- Giving a text a value adds no other key. -/
theorem mem_of_toList_setText {t : Table} {n : Bytes} {u k v : Value}
    (h : (k, v) ∈ (t.setText n u).toList) : k = .text n ∨ (k, v) ∈ t.toList := by
  rw [toList, items_setText, List.mem_filter, List.mem_append] at h
  obtain ⟨hmem, hv⟩ := h
  have hkept (hmem : (k, v) ∈ itemPairs 0 t.items.toList ++ t.entries) : (k, v) ∈ t.toList :=
    List.mem_filter.2 ⟨hmem, hv⟩
  rcases hmem with hitem | hentry
  · exact .inr (hkept (List.mem_append_left _ hitem))
  · unfold Table.setText setEntry at hentry
    split at hentry
    · next es hes =>
      rcases mem_of_replace hes hentry with hsame | hmem
      · exact .inl (same_text_iff.1 hsame)
      · exact .inr (hkept (List.mem_append_right _ hmem))
    · split at hentry
      · exact .inr (hkept (List.mem_append_right _ hentry))
      · rcases List.mem_append.1 hentry with hmem | hnew
        · exact .inr (hkept (List.mem_append_right _ (List.mem_filter.1 hmem).1))
        · exact .inl (Prod.mk.inj (List.mem_singleton.1 hnew)).1

/-- Whether all keys of a table are texts. -/
def HasTextKeys (t : Table) : Prop :=
  ∀ e ∈ t.toList, ∃ n, e.1 = .text n

theorem HasTextKeys.setText {t : Table} (h : t.HasTextKeys) (n : Bytes) (u : Value) :
    (t.setText n u).HasTextKeys := by
  rintro ⟨k, v⟩ he
  rcases mem_of_toList_setText he with rfl | he
  · exact ⟨n, rfl⟩
  · exact h _ he

end Script.Table

namespace Render

variable {context : Nat} {h : BridgeHeap} {declared : OrderedMap String String}
  {attributes attributes' : List (String × Value)} {children : Option String} {b : Bridge}

/-! ## Attributes that do not count -/

/-- Whether attributes differ, for a view that declares some names, in no more than the order of
    those with different names, and in some that are not declared, nil or blank. -/
inductive Rearranged (declared : OrderedMap String String) :
    List (String × Value) → List (String × Value) → Prop
  | refl (attributes : List (String × Value)) : Rearranged declared attributes attributes
  | swap (front : List (String × Value)) {e e' : String × Value} (hne : e.1 ≠ e'.1)
      (rest : List (String × Value)) :
      Rearranged declared (front ++ e :: e' :: rest) (front ++ e' :: e :: rest)
  | drop (front : List (String × Value)) {e : String × Value}
      (he : declared.contains e.1 = false ∨ overridesDefault e.2 = false)
      (rest : List (String × Value)) : Rearranged declared (front ++ e :: rest) (front ++ rest)
  | symm {attributes attributes' : List (String × Value)}
      (h : Rearranged declared attributes attributes') : Rearranged declared attributes' attributes
  | trans {attributes attributes' attributes'' : List (String × Value)}
      (h : Rearranged declared attributes attributes')
      (h' : Rearranged declared attributes' attributes'') :
      Rearranged declared attributes attributes''

/-- What is given for a declared name counts by what is given for that name alone. -/
theorem Rearranged.lastGiven?_eq (hr : Rearranged declared attributes attributes') {name : String}
    (hname : declared.contains name = true) :
    lastGiven? name attributes = lastGiven? name attributes' := by
  induction hr with
  | refl => rfl
  | @swap front e e' hne rest =>
    have hone : ¬ ((e.1 == name) = true ∧ (e'.1 == name) = true) := fun ⟨he, he'⟩ =>
      hne ((beq_iff_eq.1 he).trans (beq_iff_eq.1 he').symm)
    unfold lastGiven?
    simp only [List.filter_append, List.filter_cons]
    split
    · next he =>
      have he' : ¬ (e'.1 == name && overridesDefault e'.2) = true := fun he' =>
        hone ⟨(Bool.and_eq_true_iff.1 he).1, (Bool.and_eq_true_iff.1 he').1⟩
      rw [if_neg he', if_neg he']
    · rfl
  | @drop front e he rest =>
    have hdropped : ¬ (e.1 == name && overridesDefault e.2) = true := by
      rw [Bool.and_eq_true, beq_iff_eq]
      rintro ⟨rfl, hoverrides⟩
      rcases he with hnot | hnot
      · exact absurd (hname.symm.trans hnot) nofun
      · exact absurd (hoverrides.symm.trans hnot) nofun
    unfold lastGiven?
    rw [List.filter_append, List.filter_append, List.filter_cons, if_neg hdropped]
  | symm _ ih => exact ih.symm
  | trans _ _ ih ih' => exact ih.trans ih'

/-! ## The variables as they are given -/

/-- What a context has to start with, when the bridge of the render is some value. -/
inductive InitialEntry (declared : OrderedMap String String) (attributes : List (String × Value))
    (children : Option String) (bridge : Value) : Value → Value → Prop
  | declared {name default : String} (hname : declared.get? name = some default)
      (hreserved : ¬ IsReserved name) : InitialEntry declared attributes children bridge
        (.ofString name) ((lastGiven? name attributes).getD (.ofString default))
  | content {source : String} (hsource : children = some source) :
      InitialEntry declared attributes children bridge
        (.ofString Vocabulary.childContentBinding) (.ofString source)
  | bridge : InitialEntry declared attributes children bridge
      (.ofString Vocabulary.bridgeBinding) bridge

/-- Whether the context of a bridge has what it starts with on a heap, and nothing else. -/
def IsInitial (declared : OrderedMap String String) (attributes : List (String × Value))
    (children : Option String) (b : Bridge) (h : BridgeHeap) : Prop :=
  ∃ ref, h.objects[ref]? = some (.host b) ∧ ∀ k v, (k, v) ∈ (h.table b.context).toList
    ↔ InitialEntry declared attributes children (.object ref) k v

theorem contains_of_get? {name default : String} (h : declared.get? name = some default) :
    declared.contains name = true := by
  obtain ⟨l₁, l₂, hl, -⟩ := List.lookup_eq_some_iff.1 h
  rw [OrderedMap.contains, hl]
  simp

theorem exists_of_contains {name : String} (h : declared.contains name = true) :
    ∃ default, declared.get? name = some default := by
  obtain ⟨e, he, hname⟩ := List.any_eq_true.1 h
  refine Option.isSome_iff_exists.1 (Option.isSome_iff_ne_none.2 fun hnone => ?_)
  have hne := List.lookup_eq_none_iff.1 hnone e he
  rw [beq_iff_eq.1 hname] at hne
  simp at hne

theorem InitialEntry.rearranged (hr : Rearranged declared attributes attributes') {bridge k v : Value}
    (h : InitialEntry declared attributes children bridge k v) :
    InitialEntry declared attributes' children bridge k v := by
  cases h with
  | declared hname hreserved =>
    rw [hr.lastGiven?_eq (contains_of_get? hname)]
    exact .declared hname hreserved
  | content hsource => exact .content hsource
  | bridge => exact .bridge

/-- Attributes that do not count, and the order of the others, make no difference. -/
theorem IsInitial.rearranged (hr : Rearranged declared attributes attributes')
    (hi : IsInitial declared attributes children b h) :
    IsInitial declared attributes' children b h := by
  obtain ⟨ref, href, hiff⟩ := hi
  exact ⟨ref, href, fun k v => (hiff k v).trans
    ⟨InitialEntry.rearranged hr, InitialEntry.rearranged hr.symm⟩⟩

/-- The bridge and the content come last, and stay. -/
theorem getText_bindVariables_reserved (hc : HasContext context h) :
    ∃ ref, let h' := bindVariables h context declared attributes children b
      h'.objects[ref]? = some (.host b)
      ∧ (h'.table context).getText bridgeName = .object ref
      ∧ (h'.table context).getText contentName = Expansion.contentValue children := by
  have hbound : HasContext context
      (bindAttributes (bindDefaults h context declared) context declared attributes) :=
    hasContext_bind hc
  have hcontent := hbound.contextSet Vocabulary.childContentBinding (Expansion.contentValue children)
  let h₂ := (bindAttributes (bindDefaults h context declared) context declared
    attributes).contextSet context Vocabulary.childContentBinding (Expansion.contentValue children)
  have hobject : HasContext context (h₂.newObject (.host b)).2 := ⟨hcontent.lt, hcontent.distinct⟩
  refine ⟨h₂.objects.size, Script.Heap.objects_newObject h₂ (.host b), ?_, ?_⟩
  · exact (hobject.getText_contextSet Vocabulary.bridgeBinding (.object h₂.objects.size) _).trans
      (if_pos rfl)
  · refine (hobject.getText_contextSet _ _ contentName).trans ?_
    rw [if_neg (by decide)]
    exact (hbound.getText_contextSet _ _ contentName).trans (if_pos rfl)

/-- The name of a declared attribute has the last value that counts, or its default. -/
theorem getText_bindVariables_last (hc : HasContext context h)
    (hnodup : (declared.map Prod.fst).Nodup) {name default : String}
    (hname : declared.get? name = some default) (hreserved : ¬ IsReserved name) :
    ((bindVariables h context declared attributes children b).table context).getText (utf8 name)
      = (lastGiven? name attributes).getD (.ofString default) := by
  have hdefaults : HasContext context (bindDefaults h context declared) :=
    List.foldlRecOn declared _ hc fun h hc e _ => hc.contextSet _ _
  rw [getText_bindVariables hc fun other hother hsame =>
    hreserved (by rwa [utf8_injective hsame]), getText_bindAttributes_eq hdefaults
      (contains_of_get? hname), getText_bindDefaults hc hnodup, hname]

theorem hasContext_bindVariables (hc : HasContext context h) :
    HasContext context (bindVariables h context declared attributes children b) :=
  bindVariables_induction hc (fun _ name v hc => hc.contextSet name v) fun _ _ hc =>
    ⟨hc.lt, hc.distinct⟩

theorem hasTextKeys_bindVariables (hc : HasContext context h)
    (hkeys : (h.table context).HasTextKeys) :
    ((bindVariables h context declared attributes children b).table context).HasTextKeys := by
  refine (bindVariables_induction
    (P := fun h => HasContext context h ∧ (h.table context).HasTextKeys) ⟨hc, hkeys⟩
    (fun h name v ⟨hc, hkeys⟩ => ⟨hc.contextSet name v, ?_⟩)
    fun h o ⟨hc, hkeys⟩ => ⟨⟨hc.lt, hc.distinct⟩, hkeys⟩).2
  rw [Expansion.table_contextSet hc.lt]
  exact hkeys.setText _ _

/-- A context that is empty has what it starts with when it has been given its variables. -/
theorem isInitial_bindVariables (hc : HasContext b.context h)
    (hnodup : (declared.map Prod.fst).Nodup) (hempty : h.contextIsEmpty b.context = true) :
    IsInitial declared attributes children b
      (bindVariables h b.context declared attributes children b) := by
  have hnone (n : Bytes) : (h.table b.context).getText n = .nil :=
    Script.Table.getText_of_isEmpty hc.distinct hempty
  have hstart : (h.table b.context).HasTextKeys := fun e he => by
    rw [List.isEmpty_iff.1 hempty] at he
    cases he
  generalize hbound : bindVariables h b.context declared attributes children b = h'
  obtain ⟨ref, href, hbridge, hcontent⟩ : ∃ ref, h'.objects[ref]? = some (.host b)
      ∧ (h'.table b.context).getText bridgeName = .object ref
      ∧ (h'.table b.context).getText contentName = Expansion.contentValue children :=
    hbound ▸ getText_bindVariables_reserved hc
  have hdeclared {name default : String} (hname : declared.get? name = some default)
      (hreserved : ¬ IsReserved name) : (h'.table b.context).getText (utf8 name)
        = (lastGiven? name attributes).getD (.ofString default) :=
    hbound ▸ getText_bindVariables_last hc hnodup hname hreserved
  have hkeys : (h'.table b.context).HasTextKeys := hbound ▸ hasTextKeys_bindVariables hc hstart
  have hbounds : HasContext b.context h' := hbound ▸ hasContext_bindVariables hc
  have hmem (n : Bytes) (v : Value) :
      (.text n, v) ∈ (h'.table b.context).toList ↔ (h'.table b.context).getText n = v ∧ v ≠ .nil :=
    Script.Table.text_mem_toList_iff hbounds.distinct
  refine ⟨ref, href, fun k v => ⟨fun hin => ?_, fun hentry => ?_⟩⟩
  · obtain ⟨n, rfl⟩ : ∃ n, k = .text n := hkeys _ hin
    obtain ⟨hget, hv⟩ := (hmem n v).1 hin
    by_cases hisBridge : n = bridgeName
    · subst hisBridge
      rw [← hget, hbridge]
      exact .bridge
    by_cases hisContent : n = contentName
    · subst hisContent
      rw [← hget, hcontent] at hv ⊢
      cases children with
      | none => exact absurd rfl hv
      | some source => exact .content rfl
    have hother (name : String) (hname : IsReserved name) : n ≠ utf8 name := by
      rcases hname with rfl | rfl
      · exact hisBridge
      · exact hisContent
    by_cases hname : ∃ name, declared.contains name = true ∧ n = utf8 name
    · obtain ⟨name, hname, rfl⟩ := hname
      obtain ⟨default, hdefault⟩ := exists_of_contains hname
      have hreserved : ¬ IsReserved name := fun hreserved => hother name hreserved rfl
      rw [← hget, hdeclared hdefault hreserved]
      exact .declared hdefault hreserved
    · refine absurd (hget.symm.trans ?_) hv
      rw [← hbound]
      refine getText_bindVariables_other hc (hnone n) fun name hor heq => ?_
      rcases hor with hcontains | hreserved
      · exact hname ⟨name, hcontains, heq⟩
      · exact hother name hreserved heq
  · cases hentry with
    | @declared name default hname hreserved =>
      refine (hmem (utf8 name) _).2 ⟨hdeclared hname hreserved, ?_⟩
      cases hlast : lastGiven? name attributes with
      | none => exact nofun
      | some u =>
        rintro rfl
        exact absurd (mem_of_lastGiven? hlast).2 nofun
    | @content source hsource =>
      refine (hmem contentName _).2 ⟨?_, nofun⟩
      rw [hcontent, hsource]
      rfl
    | bridge => exact (hmem bridgeName _).2 ⟨hbridge, nofun⟩

/-! ## When code starts -/

/-- The bridge that the code of a render gets. -/
def bridgeOf (r : Request) (context : Nat) : Bridge :=
  { engine := r.engine, view := r.view, context, sink := r.sink, depth := r.depth }

/-- Whether a turn of the engine is the one in which a render gets its context, with an engine and a
    view as they are then: an idle context is taken as the render starts, or one has been made. -/
inductive Acquires (levels : Nat) (r : Request) (context : Nat) (e : Engine) (v : View)
    (h : BridgeHeap) (w : World) : EngineTurn → Prop
  | idle {pool : Pool Nat} (he : w.engines[r.engine]? = some e) (hv : w.views[r.view]? = some v)
      (hown : v.engine = r.engine) (hdepth : r.depth ≤ e.config.maxNestingDepth)
      (htake : e.pool.take? = some (context, pool)) :
      Acquires levels r context e v h w (start levels r h w)
  | made {vs : List Value} (he : w.engines[r.engine]? = some e) (hv : w.views[r.view]? = some v)
      (hmade : Script.firstValue vs = .table context) :
      Acquires levels r context e v h w (resume (.acquiring r) (.ok vs) levels h w)

variable {levels : Nat} {r : Request} {e : Engine} {v : View} {w : World} {turn : EngineTurn}

/-- A context that a render gets is given its variables. -/
theorem Acquires.exists_runIn (ha : Acquires levels r context e v h w turn) :
    ∃ w', turn = runIn levels r context e.config.compile v h w' ∧ w'.views[r.view]? = some v := by
  cases ha with
  | @idle pool he hv hown hdepth htake =>
    refine ⟨w.modifyEngine r.engine fun e => { e with pool }, ?_, hv⟩
    simp only [start, he, hv, hown, ne_eq, not_true_eq_false, if_false, Nat.not_lt.2 hdepth,
      acquire, htake]
  | made he hv hmade =>
    refine ⟨w, ?_, hv⟩
    simp only [resume, acquired, hmade, he, hv]

end Render

/-- Whether a view has been made for an engine from a text. -/
def View.IsOf (engine : Nat) (v : View) : Prop :=
  ∃ uri text v₀, View.compile engine uri text = .ok v₀ ∧ v₀.SameBut v

theorem View.IsOf.nodup {engine : Nat} {v : View} (h : v.IsOf engine) :
    (v.defaults.map Prod.fst).Nodup := by
  obtain ⟨uri, text, v₀, hcompile, hsame⟩ := h
  have hdefaults : v.defaults = v₀.defaults := by
    rw [← hsame.same]
  rw [hdefaults]
  exact nodup_defaults_of_compile hcompile

/-- When the code of a view starts, in a context that was empty when the render got it, the context
    has exactly this: each declared name but two has the last value that was given for it of those
    that are neither nil nor blank, or else its default; the other two have the bridge of the render
    and the content, if there is any. Attributes that differ in no more than the order of those with
    different names, and in some that are not declared, nil or blank, give the same context. -/
theorem Render.startsInitial {s : RenderState} {r : Request} {context : Nat} {e : Engine} {v : View}
    {h : BridgeHeap} {w : World} {turn : EngineTurn}
    (ha : Acquires s.level r context e v h w turn) (hc : HasContext context h)
    (hempty : h.contextIsEmpty context = true) (hview : v.IsOf r.engine)
    (hlevel : s.level + 1 < Script.maxLevel) (hdepth : s.depth < Script.maxDepth)
    (hcode : v.IsReadable s.level e.config.compile) :
    ∃ t, Reaches Render.host (s.turn turn) t ∧ StartsCode r context s.stack t
      ∧ IsInitial v.defaults r.attributes r.children (bridgeOf r context) t.heap
      ∧ ∀ attributes, Rearranged v.defaults r.attributes attributes →
        IsInitial v.defaults attributes r.children (bridgeOf r context) t.heap := by
  obtain ⟨w', rfl, hv⟩ := ha.exists_runIn
  have hbound : IsInitial v.defaults r.attributes r.children (bridgeOf r context)
      (bindVariables h context v.defaults r.attributes r.children (bridgeOf r context)) :=
    isInitial_bindVariables (b := bridgeOf r context) hc hview.nodup hempty
  obtain ⟨t, hreaches, hstarts, htables, hobjects⟩ :=
    reaches_startsCode (r := r) (h := bindVariables h context v.defaults r.attributes r.children
      (bridgeOf r context)) context hlevel hdepth hv hcode
  have hinitial : IsInitial v.defaults r.attributes r.children (bridgeOf r context) t.heap := by
    obtain ⟨ref, href, hiff⟩ := hbound
    have htable : t.heap.table context = _ := congrArg (·.getD context {}) htables
    refine ⟨ref, hobjects ▸ href, fun k v => ?_⟩
    exact (iff_of_eq (congrArg (fun t : Script.Table => (k, v) ∈ t.toList) htable)).trans (hiff k v)
  exact ⟨t, hreaches, hstarts, hinitial, fun attributes hr => hinitial.rearranged hr⟩

namespace Render

/-- A card that declares a title, and a name that the engine gives a value itself. -/
def titledText : String :=
  "<x:view xmlns:x=\"xview\" x:title=\"D\" x:xview=\"R\"><p/></x:view>"

/-- A heap with a context that is idle, and what the engine keeps of it. -/
def idleHeap : BridgeHeap :=
  (Script.Heap.start.newTable {}).2

def idleEngine : Engine :=
  { config := {}, loader := .memory 0, validator := none
    pool := { capacity := 1, idle := [(Script.Heap.start : BridgeHeap).tables.size] }, runtime := 0 }

/-- A render of the card, for which two titles are given that count and one that does not. -/
def titledRequest : Request :=
  { engine := 0, view := 0, sink := 0
    attributes := [("title", .ofString "A"), ("note", .ofString "N"), ("title", .ofString "B"),
      ("title", .ofString " ")] }

/-- The last title that counts is the title that the card starts with. -/
theorem startsInitial_titled : ∃ (w : World) (t : RenderState),
    Reaches Render.host (State.turn ⟨idleHeap, w, [], .finished, 0, 0⟩
      (start 0 titledRequest idleHeap w)) t
    ∧ (.ofString "title", .ofString "B")
      ∈ (t.heap.table (Script.Heap.start : BridgeHeap).tables.size).toList := by
  have hcheck : ((View.compile 0 "/card.xview" titledText).toOption.any fun v =>
      v.defaults.get? "title" == some "D" && v.executable.isNone && v.engine == 0
        && isReadable 1 v.uri (Script.functionSource v.source)) = true := by
    decide +kernel
  obtain ⟨v, hv, hcheck⟩ := (Option.any_eq_true _ _).1 hcheck
  simp only [Bool.and_eq_true, beq_iff_eq, Option.isNone_iff_eq_none] at hcheck
  obtain ⟨⟨⟨htitle, hnone⟩, hengine⟩, hreads⟩ := hcheck
  have hcompile : View.compile 0 "/card.xview" titledText = .ok v := by
    revert hv
    cases View.compile 0 "/card.xview" titledText with
    | ok v' => exact fun hv => congrArg _ (Option.some.inj hv)
    | error e => exact nofun
  let w : World := { engines := #[idleEngine], views := #[v] }
  have hcode : v.IsReadable 0 idleEngine.config.compile := by
    rw [View.IsReadable, hnone]
    exact isReadable_of_true hreads
  have hlt : (Script.Heap.start : BridgeHeap).tables.size < idleHeap.tables.size := by
    simp [idleHeap, Script.Heap.newTable]
  obtain ⟨t, hreaches, -, ⟨ref, -, hiff⟩, -⟩ := startsInitial
    (s := ⟨idleHeap, w, [], .finished, 0, 0⟩) (r := titledRequest) (h := idleHeap) (w := w)
    (.idle rfl rfl hengine (Nat.zero_le _) rfl) ⟨hlt, .nil⟩ rfl
    ⟨_, _, v, hcompile, v.sameBut_refl⟩ (show 0 + 1 < Script.maxLevel by decide)
    (show 0 < Script.maxDepth by decide) hcode
  refine ⟨w, t, hreaches, (hiff _ _).2 ?_⟩
  have hentry : InitialEntry v.defaults titledRequest.attributes none (.object ref)
      (.ofString "title") _ := .declared htitle (by decide)
  have hcounts : overridesDefault (.ofString "B") = true := by decide +kernel
  have hblank : overridesDefault (.ofString " ") = false := by decide +kernel
  have hlast : lastGiven? "title" titledRequest.attributes = some (.ofString "B") := by
    simp [lastGiven?_nil, lastGiven?_cons, titledRequest, hcounts, hblank]
  rw [hlast] at hentry
  exact hentry

end Render

end ScriptedViews

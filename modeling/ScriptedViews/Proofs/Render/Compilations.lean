import ScriptedViews.Proofs.Render.CallScope
import ScriptedViews.Proofs.Render.Histories

set_option autoImplicit false

/-! # Code that is compiled

An engine that compiles views compiles a view when it is rendered first, and the runtime counts what
has been compiled. A view that has been compiled keeps its code for good. That counts views as long
as no view is compiled while it is being compiled already, which takes a source that does not only
make a function: then the view is compiled twice, and the code that was there first is kept. While a
source is being compiled its name is known, and afterwards the name of the one around it. -/

namespace ScriptedViews

/-! ## What has been compiled -/

/-- The views that have been compiled for an engine, the last of them first. -/
def compiledOf (engine : Nat) : List ViewEvent → List Nat
  | [] => []
  | .compiled i view :: L => if i = engine then view :: compiledOf engine L else compiledOf engine L
  | .loaded _ _ _ _ :: L => compiledOf engine L
  | .cleared _ :: L => compiledOf engine L

/-- The view of an engine that is being compiled for a render. -/
def Pending.preparing? (engine : Nat) : Pending → Option Nat
  | .preparing r _ _ => if r.engine = engine then some r.view else none
  | _ => none

/-- The views of an engine that are being compiled, the innermost first. -/
def preparingIn (engine : Nat) (R : List Pending) : List Nat :=
  R.filterMap (Pending.preparing? engine)

/-- The name of the source that was being compiled for an engine before some renders were. -/
def nameBefore (engine : Nat) : List Pending → Option String → Option String
  | [], name => name
  | .preparing r _ previous :: R, name =>
    nameBefore engine R (if r.engine = engine then previous else name)
  | _ :: R, name => nameBefore engine R name

namespace World

/-- How many sources have been compiled on a runtime. -/
def compilations (w : World) (runtime : Nat) : Nat :=
  (w.runtimes[runtime]?.map Runtime.compilations).getD 0

/-- The views of an engine whose code has been prepared. -/
def preparedViews (w : World) (engine : Nat) : List Nat :=
  (List.range w.views.size).filter fun view =>
    w.views[view]?.any fun v => v.engine = engine && v.isPrepared

/-! ## Runtimes -/

variable {w : World} {runtime other : Nat} {name : Option String}

theorem getElem?_modifyRuntime (w : World) (runtime other : Nat) (f : Runtime → Runtime) :
    (w.modifyRuntime runtime f).runtimes[other]?
      = if runtime = other then w.runtimes[other]?.map f else w.runtimes[other]? :=
  Array.getElem?_modify

theorem compilations_modifyRuntime {f : Runtime → Runtime}
    (hf : ∀ rt, (f rt).compilations = rt.compilations) :
    (w.modifyRuntime runtime f).compilations other = w.compilations other := by
  rw [compilations, compilations, getElem?_modifyRuntime]
  split
  · cases w.runtimes[other]? <;> simp [hf]
  · rfl

theorem sourceName?_modifyRuntime {f : Runtime → Runtime}
    (hf : ∀ rt, (f rt).sourceName = rt.sourceName) :
    (w.modifyRuntime runtime f).sourceName? other = w.sourceName? other := by
  rw [sourceName?, sourceName?, getElem?_modifyRuntime]
  split
  · cases w.runtimes[other]? <;> simp [hf]
  · rfl

theorem sourceName?_nameSource (hruntime : runtime < w.runtimes.size) :
    (w.nameSource runtime name).sourceName? runtime = name := by
  rw [sourceName?, nameSource, getElem?_modifyRuntime, if_pos rfl,
    Array.getElem?_eq_getElem hruntime]
  rfl

theorem sourceName?_nameSource_ne (hne : runtime ≠ other) :
    (w.nameSource runtime name).sourceName? other = w.sourceName? other := by
  rw [sourceName?, nameSource, getElem?_modifyRuntime, if_neg hne]
  rfl

/-- One more source has been compiled. -/
theorem compilations_succ (hruntime : runtime < w.runtimes.size) :
    (w.modifyRuntime runtime fun rt =>
      { rt with compilations := rt.compilations + 1 }).compilations runtime
      = w.compilations runtime + 1 := by
  rw [compilations, compilations, getElem?_modifyRuntime, if_pos rfl,
    Array.getElem?_eq_getElem hruntime]
  rfl

theorem compilations_succ_ne (hne : runtime ≠ other) :
    (w.modifyRuntime runtime fun rt =>
      { rt with compilations := rt.compilations + 1 }).compilations other
      = w.compilations other := by
  rw [compilations, compilations, getElem?_modifyRuntime, if_neg hne]

/-- Whether engines have the settings and runtimes that they had, and there are as many runtimes. -/
structure RunsLike (w w' : World) : Prop where
  size : w'.engines.size = w.engines.size
  engines : ∀ (j : Nat) (e : Engine), w.engines[j]? = some e →
    ∃ e', w'.engines[j]? = some e' ∧ e'.config = e.config ∧ e'.runtime = e.runtime
  runtimes : w'.runtimes.size = w.runtimes.size

namespace RunsLike

variable {w' : World}

theorem of_eq (hengines : w'.engines = w.engines) (hruntimes : w'.runtimes.size = w.runtimes.size) :
    w.RunsLike w' :=
  ⟨by rw [hengines], fun j e he => ⟨e, by rw [hengines, he], rfl, rfl⟩, hruntimes⟩

theorem modifyEngine (w : World) (i : Nat) {f : Engine → Engine}
    (hf : ∀ e, (f e).config = e.config ∧ (f e).runtime = e.runtime) :
    w.RunsLike (w.modifyEngine i f) := by
  refine ⟨size_modifyEngine _ _ _, fun j e he => ?_, rfl⟩
  rw [getElem?_modifyEngine, he]
  split
  · exact ⟨_, rfl, hf e⟩
  · exact ⟨e, rfl, rfl, rfl⟩

theorem back (h : w.RunsLike w') {j : Nat} {e' : Engine} (he' : w'.engines[j]? = some e') :
    ∃ e, w.engines[j]? = some e ∧ e'.config = e.config ∧ e'.runtime = e.runtime := by
  have hlt : j < w.engines.size := h.size ▸ (Array.getElem?_eq_some_iff.1 he').1
  obtain ⟨e₁, he₁, hsame⟩ := h.engines j _ (Array.getElem?_eq_getElem hlt)
  cases he'.symm.trans he₁
  exact ⟨_, Array.getElem?_eq_getElem hlt, hsame⟩

end RunsLike

end World

section Changes

variable {o : Occasion} {s s' : Stage}

theorem Act.runsLike (ha : Act o s s') : s.world.RunsLike s'.world := by
  cases ha with
  | loaded hl =>
    obtain ⟨hsize, hengines⟩ := World.engines_load hl
    refine ⟨hsize, fun j e he => ?_, ?_⟩
    · obtain ⟨e', he', hsame, -⟩ := hengines j e he
      exact ⟨e', he', hsame.config, hsame.runtime⟩
    · exact congrArg _ (World.load_leaves hl).1
  | taken | left => exact .modifyEngine _ _ (by intro _; exact ⟨rfl, rfl⟩)
  | named | failed => exact .of_eq rfl (World.size_modifyRuntime _ _ _)
  | compiled =>
    exact .of_eq rfl ((World.size_modifyRuntime _ _ _).trans (World.size_modifyRuntime _ _ _))
  | _ => exact .of_eq rfl rfl

theorem World.Outside.runsLike (ho : World.Outside s s') : s.world.RunsLike s'.world := by
  cases ho with
  | released | cleared => exact .modifyEngine _ _ (by intro _; exact ⟨rfl, rfl⟩)
  | heap => exact .of_eq rfl (World.size_modifyRuntime _ _ _)
  | _ => exact .of_eq rfl rfl

/-! ## Engines with runtimes of their own -/

/-- Whether an engine, which is like an earlier one, has a runtime of its own, renders are those of
    engines and their views, and views are compiled for engines that compile. -/
structure Stage.RunsApart (i : Nat) (e₀ : Engine) (s : Stage) : Prop where
  engine : ∃ e, s.world.engines[i]? = some e ∧ e.config = e₀.config ∧ e.runtime = e₀.runtime
  own : ∀ (j : Nat) (e : Engine), s.world.engines[j]? = some e → e.runtime = e₀.runtime → j = i
  runtime : e₀.runtime < s.world.runtimes.size
  asked : ∀ r ∈ s.active, (∃ e, s.world.engines[r.engine]? = some e)
    ∧ ∃ v, s.world.views[r.view]? = some v ∧ v.engine = r.engine
  compiling : ∀ (r : Request) (c : Nat) (previous : Option String),
    .preparing r c previous ∈ s.renders →
      ∃ e, s.world.engines[r.engine]? = some e ∧ e.config.compile = true

variable {i : Nat} {e₀ : Engine}

/-- A view that is being compiled was so before, or is one that has not been prepared. -/
theorem Act.preparing (ha : Act o s s') {r : Request} {c : Nat} {previous : Option String}
    (hmem : .preparing r c previous ∈ s'.renders) :
    .preparing r c previous ∈ s.renders ∨ ∃ e v, s.world.engines[r.engine]? = some e
      ∧ e.config.compile = true ∧ s.world.views[r.view]? = some v ∧ v.executable = none := by
  cases ha with
  | named he hcompile hv hnone =>
    obtain h | h := List.mem_cons.1 hmem
    · cases h
      exact .inr ⟨_, _, he, hcompile, hv, hnone⟩
    · exact .inl (List.mem_cons_of_mem _ h)
  | loaded | published | wrote => exact .inl hmem
  | abandoned | left => exact .inl (List.mem_cons_of_mem _ hmem)
  | entered =>
    obtain h | h := List.mem_cons.1 hmem
    · cases h
    · exact .inl h
  | _ =>
    obtain h | h := List.mem_cons.1 hmem
    · cases h
    · exact .inl (List.mem_cons_of_mem _ h)

namespace Stage.RunsApart

theorem runtimeOf (h : s.RunsApart i e₀) : s.world.runtimeOf i = e₀.runtime := by
  obtain ⟨e, he, -, hruntime⟩ := h.engine
  rw [World.runtimeOf_eq he, hruntime]

/-- Nothing is compiled on the runtime for other engines. -/
theorem runtimeOf_ne (h : s.RunsApart i e₀) {r : Request} (hr : r ∈ s.active)
    (hne : r.engine ≠ i) : s.world.runtimeOf r.engine ≠ e₀.runtime := by
  obtain ⟨e, he⟩ := (h.asked r hr).1
  rw [World.runtimeOf_eq he]
  exact fun heq => hne (h.own _ e he heq)

/-- It stays so when engines and views stay what they are, and renders do not. -/
theorem of_like (h : s.RunsApart i e₀) (hlike : s.world.RunsLike s'.world)
    (hasked : ∀ r ∈ s'.active, (∃ e, s'.world.engines[r.engine]? = some e)
      ∧ ∃ v, s'.world.views[r.view]? = some v ∧ v.engine = r.engine)
    (hcompiling : ∀ (r : Request) (c : Nat) (previous : Option String),
      .preparing r c previous ∈ s'.renders → .preparing r c previous ∈ s.renders
        ∨ ∃ e, s.world.engines[r.engine]? = some e ∧ e.config.compile = true) :
    s'.RunsApart i e₀ where
  engine := by
    obtain ⟨e, he, hconfig, hruntime⟩ := h.engine
    obtain ⟨e', he', hconfig', hruntime'⟩ := hlike.engines i e he
    exact ⟨e', he', hconfig'.trans hconfig, hruntime'.trans hruntime⟩
  own j e' he' heq := by
    obtain ⟨e, he, -, hruntime⟩ := hlike.back he'
    exact h.own j e he (hruntime ▸ heq)
  runtime := hlike.runtimes ▸ h.runtime
  asked := hasked
  compiling r c previous hmem := by
    have hcompile : ∃ e, s.world.engines[r.engine]? = some e ∧ e.config.compile = true :=
      (hcompiling r c previous hmem).elim (h.compiling r c previous) id
    obtain ⟨e, he, hon⟩ := hcompile
    obtain ⟨e', he', hconfig, -⟩ := hlike.engines _ e he
    exact ⟨e', he', hconfig ▸ hon⟩

end Stage.RunsApart

theorem Act.runsApart (ha : Act o s s') (h : s.RunsApart i e₀) : s'.RunsApart i e₀ := by
  refine h.of_like ha.runsLike (fun r hr => ?_) fun r c previous hmem => ?_
  · have hold (hr : r ∈ s.active) : (∃ e, s'.world.engines[r.engine]? = some e)
        ∧ ∃ v, s'.world.views[r.view]? = some v ∧ v.engine = r.engine := by
      obtain ⟨⟨e, he⟩, v, hv, hengine⟩ := h.asked r hr
      obtain ⟨e', he', -⟩ := ha.engines _ e he
      obtain ⟨v', hv', hsame⟩ := ha.views _ v hv
      exact ⟨⟨e', he'⟩, v', hv', hsame.engine.trans hengine⟩
    obtain hactive | ⟨r₀, hactive⟩ | ⟨r₀, e, v, hactive, -, he, hv, hengine, -⟩ := ha.active
    · exact hold (hactive ▸ hr)
    · exact hold (hactive ▸ List.mem_cons_of_mem _ hr)
    · rw [hactive] at hr
      obtain rfl | hr := List.mem_cons.1 hr
      · exact ⟨⟨e, he⟩, v, hv, hengine⟩
      · exact hold hr
  · obtain h | ⟨e, -, he, hcompile, -⟩ := ha.preparing hmem
    · exact .inl h
    · exact .inr ⟨e, he, hcompile⟩

theorem World.Outside.views (ho : World.Outside s s') (j : Nat) (v : View)
    (hv : s.world.views[j]? = some v) : s'.world.views[j]? = some v := by
  cases ho with
  | @made L R w i uri text v' hv' => exact World.views_addView hv v'
  | _ => exact hv

theorem World.Outside.runsApart (ho : World.Outside s s') (h : s.RunsApart i e₀) :
    s'.RunsApart i e₀ := by
  have hviews := ho.views
  have hlike := ho.runsLike
  have hrenders : s'.renders = s.renders := by cases ho <;> rfl
  refine h.of_like hlike (fun r hr => ?_) fun r c previous hmem => .inl (hrenders ▸ hmem)
  rw [Stage.active, hrenders] at hr
  obtain ⟨⟨e, he⟩, v, hv, hengine⟩ := h.asked r hr
  obtain ⟨e', he', -⟩ := hlike.engines _ e he
  exact ⟨⟨e', he'⟩, v, hviews _ v hv, hengine⟩

/-! ## Names -/

/-- Whether the name of the source around is known for every source of an engine that is being
    compiled, up to the outermost, which has none around. -/
def Stage.NamesSources (i : Nat) (e₀ : Engine) (s : Stage) : Prop :=
  nameBefore i s.renders (s.world.sourceName? e₀.runtime) = none

/-- A source that is being compiled has its name known then. -/
theorem Act.namesSources (ha : Act o s s') (hs : s.RunsApart i e₀) (h : s.NamesSources i e₀) :
    s'.NamesSources i e₀ := by
  have hother {r : Request} (hr : r ∈ s.active) (hne : r.engine ≠ i) (name : Option String) :
      (s.world.nameSource (s.world.runtimeOf r.engine) name).sourceName? e₀.runtime
        = s.world.sourceName? e₀.runtime :=
    World.sourceName?_nameSource_ne (hs.runtimeOf_ne hr hne)
  have hback {r : Request} (hr : r ∈ s.active) (previous : Option String) :
      (s.world.nameSource (s.world.runtimeOf r.engine) previous).sourceName? e₀.runtime
        = if r.engine = i then previous else s.world.sourceName? e₀.runtime := by
    split
    · next heq =>
      rw [heq, hs.runtimeOf]
      exact World.sourceName?_nameSource hs.runtime
    · next hne => exact hother hr hne _
  unfold Stage.NamesSources at h ⊢
  cases ha with
  | loaded hl =>
    rw [World.sourceName?, (World.load_leaves hl).1]
    exact h
  | @named L R w r c e v he hcompile hv hnone =>
    rw [nameBefore]
    split
    · next heq =>
      rw [heq, hs.runtimeOf]
      exact h
    · next hne => exact (hother List.mem_cons_self hne _).symm ▸ h
  | failed => exact (congrArg _ (hback List.mem_cons_self _)).trans h
  | compiled =>
    refine (congrArg _ ?_).trans h
    exact (World.sourceName?_modifyRuntime (by intro _; rfl)).trans (hback List.mem_cons_self _)
  | _ => exact h

theorem World.Outside.namesSources (ho : World.Outside s s') (h : s.NamesSources i e₀) :
    s'.NamesSources i e₀ := by
  cases ho with
  | heap runtime heap =>
    exact (congrArg _ (World.sourceName?_modifyRuntime (by intro _; rfl))).trans h
  | _ => exact h

/-! ## Counts -/

/-- Whether an engine has compiled some views, each of which has been prepared, and has prepared no
    others by compiling them. -/
structure World.CountsCompiled (w : World) (i : Nat) (e₀ : Engine) (views : List Nat) : Prop where
  count : w.compilations e₀.runtime = views.length
  compiled : ∀ view ∈ views, ∃ v, w.views[view]? = some v ∧ v.engine = i ∧ v.isPrepared = true
  prepared : e₀.config.compile = true → ∀ (view : Nat) (v : View), w.views[view]? = some v →
    v.engine = i → v.isPrepared = true → view ∈ views
  off : e₀.config.compile = false → views = []

theorem View.SameBut.isPrepared {v v' : View} (h : v.SameBut v') (hp : v.isPrepared = true) :
    v'.isPrepared = true := by
  obtain ⟨x, hx⟩ := Option.isSome_iff_exists.1 hp
  exact Option.isSome_iff_exists.2 ⟨x, h.keeps x hx⟩

theorem View.isPrepared_prepared (v : View) (x : Script.Executable) :
    (v.prepared x).isPrepared = true := by
  unfold prepared isPrepared
  cases v.executable <;> rfl

/-- Preparing the code of a view leaves the views of other engines alone. -/
theorem World.views_of_modifyView {w : World} {view other : Nat} {v v' : View}
    {x : Script.Executable} (hv : w.views[view]? = some v) (hne : v.engine ≠ i)
    (hv' : (w.modifyView view fun v => v.prepared x).views[other]? = some v') (hi : v'.engine = i) :
    w.views[other]? = some v' := by
  rw [World.HasOwnViews.getElem?_modifyView] at hv'
  split at hv'
  · next heq =>
    rw [← heq, hv] at hv'
    cases hv'
    exact absurd hi hne
  · exact hv'

namespace World.CountsCompiled

variable {w w' : World} {views : List Nat}

/-- It has compiled them still, as long as nothing is compiled for it. -/
theorem of_same (h : w.CountsCompiled i e₀ views)
    (hcount : w'.compilations e₀.runtime = w.compilations e₀.runtime)
    (hviews : ∀ (j : Nat) (v : View), w.views[j]? = some v →
      ∃ v', w'.views[j]? = some v' ∧ v.SameBut v')
    (hnew : e₀.config.compile = true → ∀ (j : Nat) (v' : View), w'.views[j]? = some v' →
      v'.engine = i → v'.isPrepared = true → w.views[j]? = some v') :
    w'.CountsCompiled i e₀ views where
  count := hcount.trans h.count
  compiled view hmem := by
    obtain ⟨v, hv, hengine, hprepared⟩ := h.compiled view hmem
    obtain ⟨v', hv', hsame⟩ := hviews view v hv
    exact ⟨v', hv', hsame.engine.trans hengine, hsame.isPrepared hprepared⟩
  prepared hon view v' hv' hengine hprepared :=
    h.prepared hon view v' (hnew hon view v' hv' hengine hprepared) hengine hprepared
  off := h.off

/-- One more has been compiled. -/
theorem compile (h : w.CountsCompiled i e₀ views) (hon : e₀.config.compile = true)
    (hcount : w'.compilations e₀.runtime = w.compilations e₀.runtime + 1) {view : Nat} {v : View}
    (hv : w.views[view]? = some v) (hengine : v.engine = i) (x : Script.Executable)
    (hviews : w'.views = (w.modifyView view fun v => v.prepared x).views) :
    w'.CountsCompiled i e₀ (view :: views) where
  count := by rw [hcount, h.count, List.length_cons]
  compiled other hmem := by
    rw [hviews, World.HasOwnViews.getElem?_modifyView]
    split
    · next heq =>
      subst heq
      exact ⟨v.prepared x, by rw [hv]; rfl, hengine, v.isPrepared_prepared x⟩
    · next hne =>
      exact h.compiled other ((List.mem_cons.1 hmem).resolve_left fun heq => hne heq.symm)
  prepared _ other v' hv' hengine' hprepared := by
    rw [hviews, World.HasOwnViews.getElem?_modifyView] at hv'
    split at hv'
    · next heq => exact heq ▸ List.mem_cons_self
    · exact List.mem_cons_of_mem _ (h.prepared hon other v' hv' hengine' hprepared)
  off hoff := absurd (hon.symm.trans hoff) nofun

end World.CountsCompiled

/-- What is compiled for an engine is counted. -/
theorem Act.counts (ha : Act o s s') (hs : s.RunsApart i e₀)
    (h : s.world.CountsCompiled i e₀ (compiledOf i s.log)) :
    s'.world.CountsCompiled i e₀ (compiledOf i s'.log) := by
  have hviews := ha.views
  cases ha with
  | loaded hl =>
    refine h.of_same ?_ hviews fun _ j v hv _ hprepared => ?_
    · rw [World.compilations, (World.load_leaves hl).1]
      rfl
    · obtain hold | hnone := World.unprepared_load hl j v hv
      · exact hold
      · rw [View.isPrepared, hnone] at hprepared
        cases hprepared
  | named | failed =>
    exact h.of_same (World.compilations_modifyRuntime (by intro _; rfl)) hviews
      fun _ _ _ hv _ _ => hv
  | @compiled L R w r c previous f ho =>
    obtain ⟨-, v, hv, hengine⟩ := hs.asked r List.mem_cons_self
    have hname : (w.nameSource (w.runtimeOf r.engine) previous).compilations e₀.runtime
        = w.compilations e₀.runtime := World.compilations_modifyRuntime (by intro _; rfl)
    by_cases heq : r.engine = i
    · obtain ⟨e, he, hon⟩ := hs.compiling r c previous List.mem_cons_self
      obtain ⟨e', he', hconfig, hruntime⟩ := hs.engine
      cases he.symm.trans (heq ▸ he')
      have hsize : e₀.runtime < (w.nameSource (w.runtimeOf r.engine) previous).runtimes.size :=
        (World.size_modifyRuntime _ _ _).symm ▸ hs.runtime
      have hown : w.runtimeOf r.engine = e₀.runtime := heq ▸ hs.runtimeOf
      rw [compiledOf, if_pos heq]
      refine h.compile (hconfig ▸ hon) ?_ hv (hengine.trans heq) (.compiled f) rfl
      rw [← hname, ← World.compilations_succ hsize, hown]
      rfl
    · rw [compiledOf, if_neg heq]
      refine h.of_same ?_ hviews fun _ j v' hv' hi _ => ?_
      · rw [← hname]
        exact World.compilations_succ_ne (hs.runtimeOf_ne List.mem_cons_self heq)
      · exact World.views_of_modifyView hv (hengine ▸ heq) hv' hi
  | @published L R w r c e x he hoff =>
    refine h.of_same rfl hviews fun hon j v' hv' hi _ => ?_
    obtain ⟨-, v, hv, hengine⟩ := hs.asked r List.mem_cons_self
    refine World.views_of_modifyView hv (fun heq => ?_) hv' hi
    obtain ⟨e', he', hconfig, -⟩ := hs.engine
    rw [← heq, hengine, he] at he'
    cases he'
    exact absurd ((hconfig ▸ hon).symm.trans hoff) (by decide)
  | _ => exact h.of_same rfl hviews fun _ _ _ hv _ _ => hv

theorem World.Outside.counts (ho : World.Outside s s')
    (h : s.world.CountsCompiled i e₀ (compiledOf i s.log)) :
    s'.world.CountsCompiled i e₀ (compiledOf i s'.log) := by
  have hviews (j : Nat) (v : View) (hv : s.world.views[j]? = some v) :
      ∃ v', s'.world.views[j]? = some v' ∧ v.SameBut v' := ⟨v, ho.views j v hv, v.sameBut_refl⟩
  cases ho with
  | heap =>
    exact h.of_same (World.compilations_modifyRuntime (by intro _; rfl)) hviews
      fun _ _ _ hv _ _ => hv
  | made hv =>
    refine h.of_same rfl hviews fun _ j v' hv' _ hprepared => ?_
    obtain hold | rfl := World.eq_of_views_addView hv'
    · exact hold
    · rw [View.isPrepared, (Expansion.isRead_of_compile hv).executable] at hprepared
      cases hprepared
  | _ => exact h.of_same rfl hviews fun _ _ _ hv _ _ => hv

/-! ## One after the other -/

/-- Whether no view of an engine has been compiled twice, and none that is being compiled has been
    compiled before. -/
structure Stage.CompilesOnce (i : Nat) (s : Stage) : Prop where
  nodup : (compiledOf i s.log).Nodup
  fresh : ∀ view ∈ preparingIn i s.renders, view ∉ compiledOf i s.log

theorem preparingIn_cons (p : Pending) (R : List Pending) :
    preparingIn i (p :: R) = (p.preparing? i).toList ++ preparingIn i R := by
  rw [preparingIn, List.filterMap_cons]
  cases p.preparing? i <;> rfl

/-- Unless a view is compiled while it is being compiled already, it is compiled once. -/
theorem Act.compiledOnce (ha : Act o s s')
    (ho : ∀ R, o.compiles R → (preparingIn i R).Nodup)
    (hcounts : s.world.CountsCompiled i e₀ (compiledOf i s.log)) (h : s.CompilesOnce i) :
    s'.CompilesOnce i := by
  cases ha with
  | loaded => exact ⟨h.nodup, h.fresh⟩
  | @named L R w r c e v he hcompile hv hnone =>
    refine ⟨h.nodup, fun view hmem hcompiled => ?_⟩
    rw [preparingIn_cons] at hmem
    obtain hmem | hmem := List.mem_append.1 hmem
    · obtain ⟨v', hv', -, hprepared⟩ := hcounts.compiled view hcompiled
      rw [Option.mem_toList, Pending.preparing?] at hmem
      split at hmem
      · cases hmem
        cases hv.symm.trans hv'
        rw [View.isPrepared, hnone] at hprepared
        cases hprepared
      · cases hmem
    · exact h.fresh view hmem hcompiled
  | failed => exact ⟨h.nodup, fun view hmem => h.fresh view (by
      rw [preparingIn_cons]; exact List.mem_append_right _ hmem)⟩
  | @compiled L R w r c previous f hcompiles =>
    have hfresh : ∀ view ∈ preparingIn i R, view ∉ compiledOf i L := fun view hmem =>
      h.fresh view (by rw [preparingIn_cons]; exact List.mem_append_right _ hmem)
    by_cases heq : r.engine = i
    · have hcons : preparingIn i (.preparing r c previous :: R) = r.view :: preparingIn i R := by
        rw [preparingIn_cons, Pending.preparing?, if_pos heq]
        rfl
      have hnodup := List.nodup_cons.1 (hcons ▸ ho _ hcompiles)
      have hnew : r.view ∉ compiledOf i L := h.fresh r.view (hcons ▸ List.mem_cons_self)
      have hcompiled : compiledOf i (.compiled r.engine r.view :: L)
          = r.view :: compiledOf i L := by rw [compiledOf, if_pos heq]
      refine ⟨hcompiled ▸ List.nodup_cons.2 ⟨hnew, h.nodup⟩, fun view hmem hin => ?_⟩
      obtain rfl | hin := List.mem_cons.1 (hcompiled ▸ hin)
      · exact hnodup.1 hmem
      · exact hfresh view hmem hin
    · have hcompiled : compiledOf i (.compiled r.engine r.view :: L) = compiledOf i L := by
        rw [compiledOf, if_neg heq]
      exact ⟨hcompiled ▸ h.nodup, fun view hmem => hcompiled ▸ hfresh view hmem⟩
  | _ => exact ⟨h.nodup, h.fresh⟩

theorem World.Outside.compiledOnce (ho : World.Outside s s') (h : s.CompilesOnce i) :
    s'.CompilesOnce i := by
  cases ho <;> exact ⟨h.nodup, h.fresh⟩

/-! ## Code that has been prepared -/

theorem World.Outside.keeps (ho : World.Outside s s') {view : Nat} {v : View}
    (h : s.Keeps view v) : s'.Keeps view v := by
  obtain ⟨v', hv', hsame⟩ := h
  exact ⟨v', ho.views view v' hv', hsame⟩

/-- A view that has been prepared is not compiled once more. -/
theorem Act.count_preparing (ha : Act o s s') {view : Nat} {v : View}
    (hv : s.world.views[view]? = some v) (hprepared : v.isPrepared = true) (engine : Nat) :
    (preparingIn engine s'.renders).count view ≤ (preparingIn engine s.renders).count view := by
  have hrest (p : Pending) (R : List Pending) :
      (preparingIn engine R).count view ≤ (preparingIn engine (p :: R)).count view := by
    rw [preparingIn_cons, List.count_append]
    exact Nat.le_add_left _ _
  cases ha with
  | @named L R w r c e v' he hcompile hv' hnone =>
    have hne : r.view ≠ view := by
      intro heq
      rw [heq, hv] at hv'
      cases hv'
      rw [View.isPrepared, hnone] at hprepared
      cases hprepared
    rw [preparingIn_cons, List.count_append, Pending.preparing?]
    refine Nat.le_of_eq (Nat.add_eq_right.2 ?_)
    split
    · exact List.count_singleton.trans (if_neg (by simpa using hne))
    · rfl
  | failed | compiled => exact hrest _ _
  | _ => exact Nat.le_refl _

end Changes

namespace RenderState

variable {s : RenderState}

/-- A view has been compiled when the call that compiles it for a render of it, which has come that
    far, has given a function. -/
theorem event?_eq_compiled_iff {engine view : Nat} :
    s.event? = some (.compiled engine view) ↔ ∃ r c previous K vs,
      s.stack = .host (.preparing r c previous) :: K ∧ s.control = .values vs
        ∧ (Script.firstValue vs).isFunction = true ∧ r.engine = engine ∧ r.view = view := by
  constructor
  · intro h
    unfold event? at h
    split at h
    · unfold loadedEvent? at h
      split at h
      · cases h
      · split at h <;> cases h
    · split at h
      · next vs p K hc hs =>
        unfold Pending.resumedEvent? at h
        split at h
        · next _ _ r c previous vs' heq =>
          cases heq
          unfold compiledEvent? at h
          split at h
          · next hf =>
            cases h
            exact ⟨r, c, previous, K, vs, hs, hc, hf, rfl, rfl⟩
          · cases h
        · cases h
      · cases h
  · rintro ⟨r, c, previous, K, vs, hs, hc, hf, rfl, rfl⟩
    have hnone : s.viewCall? = none := by
      simp only [viewCall?, Script.State.methodCall?, hs, hc]
    simp only [event?, hnone, hs, hc, Pending.resumedEvent?, compiledEvent?, hf, if_true]

/-- A step leaves views as they are but for their code, and compiles none once more. -/
theorem keeps_step (hsound : s.IsSound) {view : Nat} {v : View}
    (hv : s.world.views[view]? = some v) :
    (∃ v', (s.step Render.host).world.views[view]? = some v' ∧ v.SameBut v')
      ∧ (v.isPrepared = true → ∀ engine,
        (preparingIn engine (rendersOn (s.step Render.host).stack)).count view
          ≤ (preparingIn engine (rendersOn s.stack)).count view) := by
  have hkept (a b : Stage) (ha : Act s.occasion a b)
      (h : a.Keeps view v ∧ (v.isPrepared = true → ∀ engine,
        (preparingIn engine a.renders).count view
          ≤ (preparingIn engine (rendersOn s.stack)).count view)) :
      b.Keeps view v ∧ (v.isPrepared = true → ∀ engine,
        (preparingIn engine b.renders).count view
          ≤ (preparingIn engine (rendersOn s.stack)).count view) := by
    refine ⟨ha.keeps h.1, fun hprepared engine => ?_⟩
    obtain ⟨v', hv', hsame⟩ := h.1
    exact Nat.le_trans (ha.count_preparing hv' (hsame.isPrepared hprepared) engine)
      (h.2 hprepared engine)
  exact Acts.keeps (hkept _ _) (acts_step hsound [])
    ⟨⟨v, hv, v.sameBut_refl⟩, fun _ _ => Nat.le_refl _⟩

end RenderState

/-! ## Whole histories -/

namespace World

variable {w w₀ : World} {i : Nat} {e₀ : Engine}

/-- Whether an engine has a runtime of its own, on which nothing has been compiled, and no view that
    has been prepared. -/
structure IsNew (w : World) (i : Nat) (e : Engine) : Prop where
  engine : w.engines[i]? = some e
  own : ∀ (j : Nat) (e' : Engine), w.engines[j]? = some e' → e'.runtime = e.runtime → j = i
  uncounted : w.compilations e.runtime = 0
  unnamed : w.sourceName? e.runtime = none
  unprepared : ∀ (view : Nat) (v : View), w.views[view]? = some v → v.engine = i →
    v.isPrepared = false

/-- What is known of an engine that has been new, at a stage. -/
structure IsCompiling (i : Nat) (e₀ : Engine) (s : Stage) : Prop where
  apart : s.RunsApart i e₀
  names : s.NamesSources i e₀
  counts : s.world.CountsCompiled i e₀ (compiledOf i s.log)

theorem IsNew.isCompiling (hnew : w.IsNew i e₀) (hw : w.Settled) :
    IsCompiling i e₀ ⟨[], [], w⟩ where
  apart := ⟨⟨e₀, hnew.engine, rfl, rfl⟩, hnew.own, hw.runtimes i e₀ hnew.engine, nofun, nofun⟩
  names := hnew.unnamed
  counts := ⟨hnew.uncounted, nofun, fun _ view v hv hengine hprepared =>
    absurd ((hnew.unprepared view v hv hengine).symm.trans hprepared) nofun, fun _ => rfl⟩

theorem IsCompiling.act {o : Occasion} {s s' : Stage} (ha : Act o s s')
    (h : IsCompiling i e₀ s) : IsCompiling i e₀ s' :=
  ⟨ha.runsApart h.apart, ha.namesSources h.apart h.names, ha.counts h.apart h.counts⟩

theorem IsCompiling.outside {s s' : Stage} (ho : Outside s s') (h : IsCompiling i e₀ s) :
    IsCompiling i e₀ s' :=
  ⟨ho.runsApart h.apart, ho.namesSources h.names, ho.counts h.counts⟩

/-- There are as many prepared views of an engine as it has compiled, if it has compiled none
    twice. -/
theorem CountsCompiled.length_preparedViews {views : List Nat} (h : w.CountsCompiled i e₀ views)
    (hon : e₀.config.compile = true) (hnodup : views.Nodup) :
    (w.preparedViews i).length = views.length := by
  have hmem (view : Nat) : view ∈ w.preparedViews i ↔ view ∈ views := by
    simp only [preparedViews, List.mem_filter, List.mem_range, Option.any_eq_true,
      Bool.and_eq_true, decide_eq_true_eq]
    constructor
    · rintro ⟨-, v, hv, hengine, hprepared⟩
      exact h.prepared hon view v hv hengine hprepared
    · intro hview
      obtain ⟨v, hv, hengine, hprepared⟩ := h.compiled view hview
      exact ⟨(Array.getElem?_eq_some_iff.1 hv).1, v, hv, hengine, hprepared⟩
  have hranges : (w.preparedViews i).Nodup := List.nodup_range.filter _
  exact ((List.perm_ext_iff_of_nodup hranges hnodup).2 hmem).length_eq

/-- Whatever calls come, an engine that has been new and has a runtime of its own has counted the
    views that it has compiled, at any time of any render, too. If it compiles views, these are the
    ones that have been prepared, and as many as have been counted unless one was compiled while it
    was being compiled already. A view keeps its code for good and is not compiled once more. While
    a source is compiled, the name of the one around it is put away, and there is none in the end. -/
theorem Calls.compilesOnce {P : BridgeHeap → Prop} {Q : RenderState → Prop} {L : List ViewEvent}
    (hw : w₀.Reached P) (hnew : w₀.IsNew i e₀) (h : w₀.Calls Q L w) :
    w.CountsCompiled i e₀ (compiledOf i L)
    ∧ w.sourceName? e₀.runtime = none
    ∧ (e₀.config.compile = true → (∀ s, Q s → (preparingIn i (rendersOn s.stack)).Nodup) →
      w.compilations e₀.runtime = (w.preparedViews i).length)
    ∧ (∀ (view : Nat) (v : View), w.views[view]? = some v →
      ∀ (Q' : RenderState → Prop) (L' : List ViewEvent) (w' : World), w.Calls Q' L' w' →
        ∃ v', w'.views[view]? = some v' ∧ v.SameBut v')
    ∧ ∀ (engine : Nat) (e : Engine), w.engines[engine]? = some e →
      ∀ (view sink : Nat) (attributes : List (String × Json)) (children : Option String) (n : Nat),
        let start := w.rendering engine view sink attributes children
        let s : RenderState := start.stepMany Render.host n
        s.world.CountsCompiled i e₀ (compiledOf i (RenderState.events start n ++ L))
        ∧ (∀ other, s.event? = some (.compiled i other) ↔ ∃ r c previous K vs,
          s.stack = .host (.preparing r c previous) :: K ∧ s.control = .values vs
            ∧ (Script.firstValue vs).isFunction = true ∧ r.engine = i ∧ r.view = other)
        ∧ nameBefore i (rendersOn s.stack) (s.world.sourceName? e₀.runtime) = none
        ∧ ∀ (other : Nat) (v : View), s.world.views[other]? = some v →
          (∃ v', (s.step Render.host).world.views[other]? = some v' ∧ v.SameBut v')
          ∧ (v.isPrepared = true →
            (preparingIn i (rendersOn (s.step Render.host).stack)).count other
              ≤ (preparingIn i (rendersOn s.stack)).count other) := by
  have hsettled := (h.reached hw).settled
  have hstart := hnew.isCompiling hw.settled
  have hend : IsCompiling i e₀ ⟨L, [], w⟩ :=
    h.keeps (C := fun _ => True) (fun _ _ => trivial) (fun _ => IsCompiling.act)
      IsCompiling.outside hw hstart
  refine ⟨hend.counts, hend.names, fun hon hQ => ?_, fun view v hv Q' L' w' h' => ?_,
    fun engine e he view sink attributes children n => ?_⟩
  · have honce : IsCompiling i e₀ ⟨L, [], w⟩ ∧ Stage.CompilesOnce i ⟨L, [], w⟩ :=
      h.keeps (I := fun s => IsCompiling i e₀ s ∧ s.CompilesOnce i)
        (C := fun R => (preparingIn i R).Nodup) hQ
        (fun ho ha hI => ⟨hI.1.act ha, ha.compiledOnce ho hI.1.counts hI.2⟩)
        (fun ho hI => ⟨hI.1.outside ho, ho.compiledOnce hI.2⟩) hw
        ⟨hstart, .nil, nofun⟩
    rw [hend.counts.length_preparedViews hon honce.2.nodup]
    exact hend.counts.count
  · exact h'.keeps (I := Stage.Keeps view v) (C := fun _ => True) (fun _ _ => trivial)
      (fun _ ha => ha.keeps) (fun ho => ho.keeps) (h.reached hw) ⟨v, hv, v.sameBut_refl⟩
  · have hduring := keeps_rendering (C := fun _ => True) (fun _ => IsCompiling.act)
      IsCompiling.outside hsettled he view sink attributes children n (fun _ _ => trivial) hend
    refine ⟨hduring.counts, fun other => RenderState.event?_eq_compiled_iff, hduring.names,
      fun other v hv => ?_⟩
    obtain ⟨hkept, hcount⟩ := RenderState.keeps_step
      (hsettled.underway he view sink attributes children n).sound hv
    exact ⟨hkept, fun hprepared => hcount hprepared i⟩

/-! ## Pages -/

/-- Tell whether the only engine compiles views and has compiled none. -/
def isUncompiled (w : World) : Bool :=
  w.engines.size == 1 && w.views.all (fun v => !v.isPrepared)
    && w.engines[0]?.any fun e => e.config.compile && w.compilations e.runtime == 0
      && w.sourceName? e.runtime == none

theorem exists_isNew (h : w.isUncompiled = true) : ∃ e, w.IsNew 0 e ∧ e.config.compile = true := by
  simp only [isUncompiled, Bool.and_eq_true, beq_iff_eq, Option.any_eq_true] at h
  obtain ⟨⟨hsize, hviews⟩, e, he, ⟨hon, huncounted⟩, hunnamed⟩ := h
  refine ⟨e, ⟨he, fun j e' he' _ => ?_, huncounted, hunnamed, fun view v hv _ => ?_⟩, hon⟩
  · have hlt := (Array.getElem?_eq_some_iff.1 he').1
    omega
  · obtain ⟨hlt, rfl⟩ := Array.getElem?_eq_some_iff.1 hv
    simpa using Array.all_eq_true.1 hviews view hlt

/-- Tell whether a render of the page comes to an end, and how many views have been compiled and
    prepared then. -/
def compilesPage (p : RenderState → Bool) (compiled prepared : Nat) (w : World) : Bool :=
  w.isUncompiled && holdsThroughout p
    (fun s => w.engines[0]?.any (fun e => s.world.compilations e.runtime == compiled)
      && (s.world.preparedViews 0).length == prepared) 250 (w.rendering 0 0 0 [] none)

theorem exists_of_compilesPage {p : RenderState → Bool} {compiled prepared : Nat}
    (h : w.compilesPage p compiled prepared = true) :
    ∃ e r w', w.IsNew 0 e ∧ e.config.compile = true
      ∧ (∀ n, p ((w.rendering 0 0 0 [] none).stepMany Render.host n) = true)
      ∧ w.render 250 0 0 0 [] none = (some r, w') ∧ w'.compilations e.runtime = compiled
      ∧ (w'.preparedViews 0).length = prepared := by
  obtain ⟨hnew, h⟩ := Bool.and_eq_true_iff.1 h
  obtain ⟨e, hnew, hon⟩ := exists_isNew hnew
  obtain ⟨hp, ⟨o, ho⟩, hq⟩ := of_holdsThroughout h
  have hrender := render_eq hnew.engine 250 0 0 [] none
  dsimp only at hrender
  rw [ho] at hrender
  rw [hnew.engine, Bool.and_eq_true, Option.any_some, beq_iff_eq, beq_iff_eq] at hq
  generalize (w.rendering 0 0 0 [] none).stepMany Render.host 250 = s at hq hrender
  refine ⟨e, _, _, hnew, hon, hp, hrender, ?_, hq.2⟩
  exact (compilations_modifyRuntime (by intro _; rfl)).trans hq.1

/-- The page and the box are compiled, one after the other. -/
theorem compilesOnce_boxed : ∃ (e : Engine) (L : List ViewEvent) (w : World),
    (pageOf Expansion.boxedViews).Calls (fun s => (preparingIn 0 (rendersOn s.stack)).Nodup) L w
      ∧ w.compilations e.runtime = 2 ∧ (w.preparedViews 0).length = 2
      ∧ w.sourceName? e.runtime = none := by
  have hcheck : (pageOf Expansion.boxedViews).compilesPage
      (fun s => decide (preparingIn 0 (rendersOn s.stack)).Nodup) 2 2 = true := by
    decide +kernel
  have hw : (pageOf Expansion.boxedViews).Reached fun _ => True := reached_pageOf _
  generalize pageOf Expansion.boxedViews = w₀ at *
  obtain ⟨e, r, w, hnew, hon, hapart, hend, hcompiled, -⟩ := exists_of_compilesPage hcheck
  have hcalls : w₀.Calls (fun s => (preparingIn 0 (rendersOn s.stack)).Nodup) _ w :=
    Calls.start.render hnew.engine (fun n => of_decide_eq_true (hapart n)) hend
  obtain ⟨-, hnone, hcount, -⟩ := World.Calls.compilesOnce hw hnew hcalls
  have hlength := hcount hon fun _ => id
  exact ⟨e, _, w, hcalls, hcompiled, hlength.symm.trans hcompiled, hnone⟩

/-- A page that calls a view whose code, while it is compiled, has the page call the view again. -/
def oddViews : ViewStore :=
  [("/odd.xview",
      "<x:view xmlns:x=\"xview\"><x:script>end, again(), function()</x:script></x:view>".toUTF8),
   ("/page.xview",
      ("<x:view xmlns:x=\"xview\" xmlns:u=\"/\"><x:script>local bridge, G = xview, _G  "
        ++ "G.again = function() if not G.once then G.once = true  "
        ++ "bridge:execute('/', 'odd') end end</x:script><u:odd/></x:view>").toUTF8)]

/-- A view that is compiled while it is being compiled already is compiled twice. -/
theorem compilesOnce_odd : ∃ (e : Engine) (L : List ViewEvent) (w : World),
    (pageOf oddViews).IsNew 0 e ∧ e.config.compile = true
      ∧ (pageOf oddViews).Calls (fun _ => True) L w
      ∧ w.compilations e.runtime = 3 ∧ (w.preparedViews 0).length = 2 := by
  have hcheck : (pageOf oddViews).compilesPage (fun _ => true) 3 2 = true := by
    decide +kernel
  generalize pageOf oddViews = w₀ at *
  obtain ⟨e, r, w, hnew, hon, -, hend, hcompiled, hprepared⟩ := exists_of_compilesPage hcheck
  exact ⟨e, _, w, hnew, hon, Calls.start.render hnew.engine (fun _ => trivial) hend, hcompiled,
    hprepared⟩

end World

end ScriptedViews

import ScriptedViews.Proofs.Render.CallScope
import ScriptedViews.Proofs.Render.Happenings
import ScriptedViews.Proofs.Render.Rejections

set_option autoImplicit false

/-! # How deep renders are nested

A bridge knows how deep the render is nested that it was made for, and a call through it starts a
render that is one deeper, if the engine allows that. So no render is deeper than its engine allows.
How many of them there are at a time is another matter: code that a view has handed over may call
through its own bridge while deeper renders are active. As long as every call goes through a bridge
that is as deep as what is active, depth grows from render to render, and bounds their number. -/

namespace ScriptedViews

open Script (Value State)

/-! ## Depth along a stack -/

variable {o : Occasion} {s s' : Stage}

/-- Whether no render is deeper than its engine allows. -/
def Stage.IsWithin (s : Stage) : Prop :=
  ∀ r ∈ s.active, ∃ e, s.world.engines[r.engine]? = some e ∧ r.depth ≤ e.config.maxNestingDepth

/-- Whether renders of the same engine are the deeper the further inside they are. -/
def Stage.IsDeepening (s : Stage) : Prop :=
  s.active.Pairwise fun r r' => r.engine = r'.engine → r'.depth < r.depth

theorem Act.isWithin (ha : Act o s s') (h : s.IsWithin) : s'.IsWithin := by
  have hstill (r : Request) (hr : r ∈ s.active) : ∃ e, s'.world.engines[r.engine]? = some e
      ∧ r.depth ≤ e.config.maxNestingDepth := by
    obtain ⟨e, he, hdepth⟩ := h r hr
    obtain ⟨e', he', hsame⟩ := ha.engines _ e he
    exact ⟨e', he', hsame.config ▸ hdepth⟩
  intro r hr
  obtain hactive | ⟨r₀, hactive⟩ | ⟨r₀, e, v, hactive, -, he, -, -, hdepth⟩ := ha.active
  · exact hstill r (hactive ▸ hr)
  · exact hstill r (hactive ▸ List.mem_cons_of_mem r₀ hr)
  · rw [hactive] at hr
    rcases List.mem_cons.1 hr with rfl | hr
    · exact ⟨e, he, hdepth⟩
    · exact hstill r hr

/-- Depth grows as long as renders only start above those that are not as deep. -/
theorem Act.isDeepening (ho : ∀ r R, o.enters r R → ∀ r' ∈ R.filterMap Pending.request?,
    r.engine = r'.engine → r'.depth < r.depth) (ha : Act o s s') (h : s.IsDeepening) :
    s'.IsDeepening := by
  obtain hactive | ⟨r₀, hactive⟩ | ⟨r₀, e, v, hactive, henters, -⟩ := ha.active
  · rw [Stage.IsDeepening, hactive]
    exact h
  · rw [Stage.IsDeepening, hactive] at h
    exact h.of_cons
  · rw [Stage.IsDeepening, hactive]
    exact List.pairwise_cons.2 ⟨ho r₀ _ henters, h⟩

/-- The renders of an engine among some. -/
def ofEngine (engine : Nat) (rs : List Request) : List Request :=
  rs.filter fun r => r.engine = engine

theorem length_le_of_pairwise {r : Request} {rs : List Request}
    (h : (r :: rs).Pairwise fun r r' => r'.depth < r.depth) : rs.length ≤ r.depth := by
  induction rs generalizing r with
  | nil => exact Nat.zero_le _
  | cons r' rs ih =>
    obtain ⟨hr, hrs⟩ := List.pairwise_cons.1 h
    have hlength := ih hrs
    have hdeeper := hr r' List.mem_cons_self
    rw [List.length_cons]
    omega

/-- If depth grows, the innermost render of an engine is at least as deep as others of it are
    active. -/
theorem Stage.IsDeepening.length_le (h : s.IsDeepening) (engine : Nat) :
    ofEngine engine s.active = [] ∨ ∃ r ∈ s.active, r.engine = engine
      ∧ (ofEngine engine s.active).length ≤ r.depth + 1 := by
  have hmem (r : Request) (hr : r ∈ ofEngine engine s.active) :
      r ∈ s.active ∧ r.engine = engine := by
    simpa [ofEngine] using hr
  have hdepths : (ofEngine engine s.active).Pairwise fun r r' => r'.depth < r.depth :=
    (List.Pairwise.filter _ h).imp_of_mem fun {r r'} hr hr' hdeeper =>
      hdeeper ((hmem r hr).2.trans (hmem r' hr').2.symm)
  cases hof : ofEngine engine s.active with
  | nil => exact .inl rfl
  | cons r rs =>
    rw [hof] at hmem hdepths
    obtain ⟨hr, hengine⟩ := hmem r List.mem_cons_self
    exact .inr ⟨r, hr, hengine, Nat.succ_le_succ (length_le_of_pairwise hdepths)⟩

/-! ## Calls -/

namespace ViewCall

/-- Whether a call starts a render if that may be nested as deep: somebody holds the engine, the
    view can be loaded, and what is given has names. -/
structure IsReady (c : ViewCall) (s : RenderState) (e : Engine) : Prop where
  engine : s.world.engines[c.bridge.engine]? = some e
  held : e.isHeld = true
  loads : ∃ view w, s.world.load c.bridge.engine c.target = .ok (view, w)
  named : ∃ scope, Bridge.addAttributes (s.heap.contextEntries c.bridge.context)
    (c.given.elim [] fun ref => (s.heap.table ref).toList) = some scope

/-- Whether a call fails because its render would be nested too deep, and leaves everything alone
    but for loading the view. -/
structure IsTooDeep (c : ViewCall) (s : RenderState) (e : Engine) : Prop where
  step : s.step Render.host = State.turn { s with stack := c.stack } (c.turn s)
  fails : FailsWith (c.turn s) (.nestingTooDeep c.target e.config.maxNestingDepth)
  alone : LeavesAlone c.target s.heap s.world (c.turn s)

variable {c : ViewCall} {s : RenderState} {e : Engine}

theorem IsReady.isTooDeep (h : c.IsReady s e) (hcall : s.viewCall? = some c)
    (hviews : s.world.HasOwnViews) (hdepth : e.config.maxNestingDepth ≤ c.bridge.depth) :
    c.IsTooDeep s e := by
  obtain ⟨view, w, hl⟩ := h.loads
  obtain ⟨scope, hscope⟩ := h.named
  obtain ⟨-, v, hv, hengine, huri⟩ := hviews.load hl
  obtain ⟨e', he', hsame, -⟩ := (World.engines_load hl).2 _ e h.engine
  have hheld : (s.world.engines[c.bridge.engine]?.any Engine.isHeld) = true := by
    rw [h.engine]
    exact h.held
  have hdeep : e.config.maxNestingDepth < c.bridge.depth + 1 := by omega
  have hfails : c.turn s
      = Render.failView s.heap w (.nestingTooDeep c.target e.config.maxNestingDepth) := by
    rw [target] at hl huri
    unfold turn Render.callView
    simp only [hheld, Bool.not_true, Bool.false_eq_true, if_false, hl]
    cases hgiven : c.given with
    | none =>
      rw [hgiven, Option.elim_none] at hscope
      simp [hscope, Render.start, he', hv, hengine, hdeep, huri, hsame.config, target]
    | some ref =>
      rw [hgiven, Option.elim_some] at hscope
      simp [hscope, Render.start, he', hv, hengine, hdeep, huri, hsame.config, target]
  have hf : FailsWith (c.turn s) (.nestingTooDeep c.target e.config.maxNestingDepth) := by
    rw [hfails]
    rfl
  exact ⟨(RenderState.viewCall?_spec hcall).2, hf, leavesAlone_callView hf trivial⟩

end ViewCall

/-- Whether a view that is called next, if there is one, is called through a bridge that is as deep
    as any render of its engine that is active. -/
def CallsInward (s : RenderState) : Prop :=
  ∀ c, s.viewCall? = some c → ∀ r ∈ activeOn s.stack, r.engine = c.bridge.engine →
    r.depth ≤ c.bridge.depth

/-! ## At any time of a render -/

variable {w : World} {engine : Nat} {e : Engine}

theorem World.Settled.isWithin (hw : w.Settled) (he : w.engines[engine]? = some e)
    (view sink : Nat) (attributes : List (String × Json)) (children : Option String) (n : Nat) :
    let s := (w.rendering engine view sink attributes children).stepMany Render.host n
    Stage.IsWithin ⟨[], rendersOn s.stack, s.world⟩ :=
  hw.keeps_rendering (I := fun a => Stage.IsWithin ⟨[], a.renders, a.world⟩) he view sink attributes
    children [] (fun _ hr => absurd hr List.not_mem_nil) (fun ha h => ha.isWithin h) n
    fun _ _ _ _ ha h => ha.isWithin h

theorem World.Settled.isDeepening (hw : w.Settled) (he : w.engines[engine]? = some e)
    (view sink : Nat) (attributes : List (String × Json)) (children : Option String) (n : Nat)
    (hcalls : ∀ m < n, CallsInward
      ((w.rendering engine view sink attributes children).stepMany Render.host m)) :
    let s := (w.rendering engine view sink attributes children).stepMany Render.host n
    Stage.IsDeepening ⟨[], rendersOn s.stack, s.world⟩ := by
  refine hw.keeps_rendering (I := Stage.IsDeepening) he view sink attributes
    children [] .nil (fun ha h => ha.isDeepening ?_ h) n fun m hlt _ _ ha h => ha.isDeepening ?_ h
  · rintro - R ⟨-, rfl⟩ r' hr'
    cases hr'
  · rintro r R ⟨rfl, c, -, hcall, hengine, hdepth, -⟩ r' hr' hsame
    rw [filterMap_request?_rendersOn] at hr'
    have := hcalls m hlt c hcall r' hr' (hsame.symm.trans hengine)
    omega

/-- No render is nested deeper than its engine allows, and a call through a bridge that is as deep
    as that fails, whoever makes it, with the URI of the view and what is allowed. As long as all
    calls go through bridges as deep as the renders that are active, an engine has at most one more
    render active than it allows nested ones, and the next call fails then. -/
theorem World.Reached.boundsNesting {P : BridgeHeap → Prop} (hw : w.Reached P)
    (he : w.engines[engine]? = some e) (view sink : Nat) (attributes : List (String × Json))
    (children : Option String) :
    let s (n : Nat) : RenderState :=
      (w.rendering engine view sink attributes children).stepMany Render.host n
    (∀ n, ∀ r ∈ activeOn (s n).stack, ∃ e, (s n).world.engines[r.engine]? = some e
      ∧ r.depth ≤ e.config.maxNestingDepth)
    ∧ (∀ n c e, (s n).viewCall? = some c → c.IsReady (s n) e →
      e.config.maxNestingDepth ≤ c.bridge.depth → c.IsTooDeep (s n) e)
    ∧ ∀ n, (∀ m ≤ n, CallsInward (s m)) → ∀ i e, (s n).world.engines[i]? = some e →
      (ofEngine i (activeOn (s n).stack)).length ≤ e.config.maxNestingDepth + 1
      ∧ ((ofEngine i (activeOn (s n).stack)).length = e.config.maxNestingDepth + 1 →
        ∀ c, (s n).viewCall? = some c → c.bridge.engine = i → c.IsReady (s n) e →
          c.IsTooDeep (s n) e) := by
  intro s
  have hwithin (n : Nat) : ∀ r ∈ activeOn (s n).stack, ∃ e,
      (s n).world.engines[r.engine]? = some e ∧ r.depth ≤ e.config.maxNestingDepth := by
    have h := hw.settled.isWithin he view sink attributes children n
    rwa [Stage.IsWithin, Stage.active, filterMap_request?_rendersOn] at h
  have hdeep (n : Nat) (c : ViewCall) (e : Engine) (hcall : (s n).viewCall? = some c)
      (hready : c.IsReady (s n) e) (hdepth : e.config.maxNestingDepth ≤ c.bridge.depth) :
      c.IsTooDeep (s n) e :=
    hready.isTooDeep hcall
      (hw.hasOwnViews.rendering hw.settled he view sink attributes children n) hdepth
  refine ⟨hwithin, hdeep, fun n hcalls i e' he' => ?_⟩
  have hdeepening : ofEngine i (activeOn (s n).stack) = [] ∨ ∃ r ∈ activeOn (s n).stack,
      r.engine = i ∧ (ofEngine i (activeOn (s n).stack)).length ≤ r.depth + 1 := by
    have h := (hw.settled.isDeepening he view sink attributes children n
      fun m hlt => hcalls m (Nat.le_of_lt hlt)).length_le i
    rwa [Stage.active, filterMap_request?_rendersOn] at h
  obtain hnone | ⟨r, hr, rfl, hlength⟩ := hdeepening
  · rw [hnone, List.length_nil]
    exact ⟨Nat.zero_le _, fun hfull => by omega⟩
  · obtain ⟨e₁, he₁, hdepth⟩ := hwithin n r hr
    obtain rfl := Option.some.inj (he'.symm.trans he₁)
    refine ⟨by omega, fun hfull c hcall hengine hready => hdeep n c e' hcall hready ?_⟩
    have := hcalls n (Nat.le_refl n) c hcall r hr hengine.symm
    omega

namespace ViewCall

variable {c : ViewCall} {s : RenderState}

/-- Tell whether a call starts a render if that may be nested as deep. -/
def isReady (c : ViewCall) (s : RenderState) : Bool :=
  (s.world.load c.bridge.engine c.target).toOption.isSome
    && s.world.engines[c.bridge.engine]?.any Engine.isHeld
    && (Bridge.addAttributes (s.heap.contextEntries c.bridge.context)
      (c.given.elim [] fun ref => (s.heap.table ref).toList)).isSome

theorem exists_isReady (h : c.isReady s = true) : ∃ e, c.IsReady s e := by
  unfold isReady at h
  simp only [Bool.and_eq_true, Option.any_eq_true] at h
  obtain ⟨⟨hloads, e, he, hheld⟩, hnamed⟩ := h
  obtain ⟨scope, hscope⟩ := Option.isSome_iff_exists.1 hnamed
  obtain ⟨⟨view, w⟩, hl⟩ := exists_of_isSome hloads
  exact ⟨e, he, hheld, ⟨view, w, hl⟩, scope, hscope⟩

end ViewCall

/-- Tell whether views are called through bridges as deep as the active renders up to some steps
    on. -/
def callsInwardUpTo : Nat → RenderState → Bool
  | n, s =>
    (match s.viewCall? with
      | some c => (activeOn s.stack).all fun r =>
        r.engine != c.bridge.engine || r.depth ≤ c.bridge.depth
      | none => true)
    && match n with
      | 0 => true
      | n + 1 => callsInwardUpTo n (s.step Render.host)

theorem callsInward_of_upTo {n : Nat} {s : RenderState} (h : callsInwardUpTo n s = true) :
    ∀ m ≤ n, CallsInward (s.stepMany Render.host m) := by
  have hnow {n : Nat} {s : RenderState} (h : callsInwardUpTo n s = true) : CallsInward s := by
    intro c hcall r hr hengine
    unfold callsInwardUpTo at h
    rw [hcall, Bool.and_eq_true, List.all_eq_true] at h
    simpa [hengine] using h.1 r hr
  induction n generalizing s with
  | zero =>
    intro m hm
    obtain rfl := Nat.le_zero.1 hm
    exact hnow h
  | succ n ih =>
    intro m hm
    cases m with
    | zero => exact hnow h
    | succ m =>
      unfold callsInwardUpTo at h
      exact ih (Bool.and_eq_true_iff.1 h).2 m (Nat.le_of_succ_le_succ hm)

namespace World

/-- An engine of some settings for the first store of views. -/
def setupBy (config : Config) : Setup :=
  { loader := some (.memory 0), config }

/-- The world of some views with an engine of some settings, where the page has been loaded. -/
def pageBy (config : Config) (views : ViewStore) : World :=
  let w := ((withViews views).createEngine 100 [] (setupBy config)).2.2
  match w.load 0 "/page.xview" with
  | .ok (_, w) => w
  | .error _ => w

theorem reached_pageBy {P : BridgeHeap → Prop} {config : Config} (views : ViewStore)
    (hcapacity : config.contextPoolCapacity = 0)
    (hmade : ((withViews views).createEngine 100 [] (setupBy config)).1.isSome = true) :
    (pageBy config views).Reached P := by
  obtain ⟨r, hr⟩ := Option.isSome_iff_exists.1 hmade
  have hstart : (withViews views).Reached P := (Reached.start.sources _).sink {}
  have hnone : ¬ 0 < config.contextPoolCapacity := by omega
  have hw := hstart.createEngine (s := setupBy config) (fun e he => absurd he List.not_mem_nil)
    (fun _ _ _ _ hlt => absurd hlt hnone) hr
  unfold pageBy
  generalize ((withViews views).createEngine 100 [] (setupBy config)).2.2 = w at hw
  dsimp only
  split
  · next hl => exact hw.load hl
  · exact hw

/-- Settings that allow views to be called by others, but not to call any themselves then. -/
def shallow : Config :=
  { contextPoolCapacity := 0, maxNestingDepth := 1 }

/-- A page that calls itself. -/
def selfViews : ViewStore :=
  [("/page.xview", "<x:view xmlns:x=\"xview\" xmlns:u=\"/\"><u:page/></x:view>".toUTF8)]

/-- Tell whether some renders are active of the only engine, which allows one to be nested. -/
def isFilled (count : Nat) (s : RenderState) : Bool :=
  (ofEngine 0 (activeOn s.stack)).length == count
    && s.world.engines[0]?.any fun e => e.config.maxNestingDepth == 1

theorem exists_isFilled {count : Nat} {s : RenderState} (h : isFilled count s = true) :
    ∃ e, s.world.engines[0]? = some e ∧ e.config.maxNestingDepth = 1
      ∧ (ofEngine 0 (activeOn s.stack)).length = count := by
  simp only [isFilled, Bool.and_eq_true, beq_iff_eq, Option.any_eq_true] at h
  obtain ⟨hlength, e, he, hdepth⟩ := h
  exact ⟨e, he, hdepth, hlength⟩

/-- Tell whether a ready call comes next of the only engine. -/
def callsFirst (s : RenderState) : Bool :=
  match s.viewCall? with
  | some c => c.isReady s && c.bridge.engine == 0
  | none => false

/-- The page calls itself once, and the next call fails. -/
theorem boundsNesting_self : ∃ c e,
    let s : RenderState :=
      ((pageBy shallow selfViews).rendering 0 0 0 [] none).stepMany Render.host 127
    s.viewCall? = some c ∧ e.config.maxNestingDepth = 1
      ∧ (ofEngine 0 (activeOn s.stack)).length = 2 ∧ c.IsTooDeep s e := by
  have hcheck : ((pageBy shallow selfViews).engines[0]?.isSome
      && callsInwardUpTo 127 ((pageBy shallow selfViews).rendering 0 0 0 [] none)
      && isFilled 2 (((pageBy shallow selfViews).rendering 0 0 0 [] none).stepMany Render.host 127)
      && callsFirst (((pageBy shallow selfViews).rendering 0 0 0 [] none).stepMany Render.host 127))
      = true := by
    decide +kernel
  have hw : (pageBy shallow selfViews).Reached fun _ => True := reached_pageBy _ rfl rfl
  generalize pageBy shallow selfViews = w at *
  simp only [Bool.and_eq_true] at hcheck
  obtain ⟨⟨⟨hengine, hinward⟩, hfilled⟩, hcalls⟩ := hcheck
  obtain ⟨e₀, he₀⟩ := Option.isSome_iff_exists.1 hengine
  obtain ⟨-, -, hbounds⟩ := World.Reached.boundsNesting hw he₀ 0 0 [] none
  have hbound := hbounds 127 (callsInward_of_upTo hinward) 0
  dsimp only at hbound
  generalize (w.rendering 0 0 0 [] none).stepMany Render.host 127 = s at *
  obtain ⟨e, he, hdepth, hlength⟩ := exists_isFilled hfilled
  unfold callsFirst at hcalls
  split at hcalls
  · next c hcall =>
    obtain ⟨hready, hzero⟩ := Bool.and_eq_true_iff.1 hcalls
    obtain ⟨e', hready⟩ := ViewCall.exists_isReady hready
    have he' := hready.engine
    rw [beq_iff_eq.1 hzero] at he'
    obtain rfl := Option.some.inj (he.symm.trans he')
    exact ⟨c, e, hcall, hdepth, hlength, (hbound e he).2 (by rw [hlength, hdepth]) c hcall
      (beq_iff_eq.1 hzero) hready⟩
  · cases hcalls

/-- A page that gives a card a function, which calls a leaf through the bridge of the page. -/
def enteredViews : ViewStore :=
  [("/page.xview",
      ("<x:view xmlns:x=\"xview\" xmlns:u=\"/\"><x:script>local bridge = xview  "
        ++ "function enter() bridge:execute('/', 'leaf') end</x:script>"
        ++ "<u:card run=\"enter\"/></x:view>").toUTF8),
   ("/card.xview",
      ("<x:view xmlns:x=\"xview\" xmlns:u=\"/\" x:run=\"-\"><x:script>run()</x:script>"
        ++ "</x:view>").toUTF8),
   ("/leaf.xview", "<p>leaf</p>".toUTF8)]

/-- Through a bridge that is not as deep as what is active, one render more becomes active than is
    allowed. -/
theorem boundsNesting_entered : ∃ e,
    let s : RenderState :=
      ((pageBy shallow enteredViews).rendering 0 0 0 [] none).stepMany Render.host 170
    s.world.engines[0]? = some e ∧ e.config.maxNestingDepth = 1
      ∧ (ofEngine 0 (activeOn s.stack)).length = 3 := by
  have hfilled : isFilled 3 (((pageBy shallow enteredViews).rendering 0 0 0 [] none).stepMany
      Render.host 170) = true := by
    decide +kernel
  exact exists_isFilled hfilled

end World

end ScriptedViews

/-
What discovery carries from pass to pass, and how its parts belong together.

* `Search.Extends` : nothing that was written down is lost or moved;
* `Pass.Enlists` : a step that enters and leaves no context processes names and lists handles;
* `Search.Tallied` : names that were processed, handles, found contexts and built contexts, as they
  have to fit;
* `Pass.Records`, `Builder.visit_records` : a visit keeps them fitting;
* `RootContext.search_tallied` : **at the end of every pass they fit, and they only grow**.

## Design notes

Between the look at what was processed and the moment in which a context is processed, its builder
declares whatever it likes.  So the relation is about two moments of the visit of one context, with
the visit of a sub-context as one step, and it says of the inner visit all that the outer one needs.
-/
import TestTree.Proofs.Arrivals
import TestTree.Proofs.Duplicates
import TestTree.Proofs.Footsteps

namespace TestTree

open scoped List

/-! ### Growth -/

namespace Search

variable {s t u : Search}

/-- Whatever `s` has written down is in `t` at the same place. -/
structure Extends (s t : Search) : Prop where
  processed : s.processed <+: t.processed
  investigated : s.investigated <+: t.investigated
  found : s.found <+: t.found
  tests : s.tests <+: t.tests
  entered : s.entered <+: t.entered

theorem Extends.refl (s : Search) : s.Extends s :=
  ⟨List.prefix_rfl, List.prefix_rfl, List.prefix_rfl, List.prefix_rfl, List.prefix_rfl⟩

theorem Extends.trans (h : s.Extends t) (k : t.Extends u) : s.Extends u where
  processed := h.processed.trans k.processed
  investigated := h.investigated.trans k.investigated
  found := h.found.trans k.found
  tests := h.tests.trans k.tests
  entered := h.entered.trans k.entered

/-- Looking a context up adds it to those that were entered, unless it is there; there it is in any
case. -/
theorem mem_intern (s : Search) (place : Place) (site : Location) :
    s.entered <+: (s.intern place site).2.entered ∧
      (s.intern place site).1 ∈ (s.intern place site).2.entered := by
  rw [intern]
  split
  · rename_i c hc
    exact ⟨List.prefix_rfl, List.mem_of_find?_eq_some hc⟩
  · exact ⟨List.prefix_append _ _, List.mem_append_right _ List.mem_cons_self⟩

end Search

/-! ### Steps that enter no context -/

namespace Pass

variable {s : PassScope} {x y z : Pass} {names more : List NamePath} {hs ks : List Handle}

/-- A part of the visit of a context, which goes from `x` to `y` and enters nothing, processes
`names` and lists `hs`. -/
structure EnlistsBy (x y : Pass) (names : List NamePath) (hs : List Handle) : Prop where
  context : y.visit.context = x.visit.context
  listener : y.world.listener = x.world.listener
  search : ∃ afterSuite direct fatal, y.search = { x.search with
    processed := x.search.processed ++ names, tests := x.search.tests ++ hs,
    afterSuite, direct, fatal }
  container : ∀ h ∈ hs, h.test.container = x.visit.context
  /-- Each name is the one of a handle, unless the listener panics. -/
  named : x.world.listener.Calm → hs.map (·.test.path) = names

/-- A part of the visit of a context goes from `x` to `y` and enters nothing. -/
def Enlists (x y : Pass) : Prop :=
  ∃ names hs, x.EnlistsBy y names hs

theorem Enlists.trans (h : x.Enlists y) (k : y.Enlists z) : x.Enlists z := by
  obtain ⟨names, hs, h⟩ := h
  obtain ⟨more, ks, k⟩ := k
  refine ⟨names ++ more, hs ++ ks, k.context.trans h.context, k.listener.trans h.listener,
    ?_, ?_, ?_⟩
  · obtain ⟨_, _, _, hy⟩ := h.search
    obtain ⟨_, _, _, hz⟩ := k.search
    rw [hz, hy]
    exact ⟨_, _, _, by simp only [List.append_assoc]; rfl⟩
  · intro t ht
    rcases List.mem_append.mp ht with ht | ht
    · exact h.container t ht
    · exact (k.container t ht).trans h.context
  · intro hcalm
    rw [List.map_append, h.named hcalm, k.named (h.listener ▸ hcalm)]

/-- A step that processes and lists nothing. -/
theorem enlists_still (hc : y.visit.context = x.visit.context)
    (hl : y.world.listener = x.world.listener)
    (hs : ∃ afterSuite direct fatal, y.search = { x.search with afterSuite, direct, fatal }) :
    x.Enlists y := by
  obtain ⟨afterSuite, direct, fatal, hs⟩ := hs
  refine ⟨[], [], hc, hl, ⟨afterSuite, direct, fatal, ?_⟩, nofun, fun _ => rfl⟩
  rw [List.append_nil, List.append_nil]
  exact hs

/-- A step that processes a name and lists a handle of that name. -/
theorem enlists_listed {name : String} {h : Handle} (hc : y.visit.context = x.visit.context)
    (hl : y.world.listener = x.world.listener)
    (hs : ∃ afterSuite direct fatal, y.search = { x.search with
      processed := x.search.processed ++ [x.visit.context.path ++ [name]],
      tests := x.search.tests ++ [h], afterSuite, direct, fatal })
    (hh : h.test.container = x.visit.context ∧ h.test.name = name) : x.Enlists y := by
  refine ⟨_, [h], hc, hl, hs, fun k hk => ?_, fun _ => ?_⟩
  · rw [List.mem_singleton.mp hk]
    exact hh.1
  · obtain ⟨⟨c, n, site⟩, cell⟩ := h
    obtain ⟨rfl, rfl⟩ := hh
    rfl

theorem enlists_perform (x : Pass) (b : Basic) : x.Enlists (x.perform s.scope b).state := by
  rw [state_perform]
  exact enlists_still rfl rfl ⟨_, _, _, rfl⟩

theorem enlists_closet (x : Pass) (c : Closet Closure) : x.Enlists (x.withCloset c) :=
  enlists_still rfl rfl ⟨_, _, _, rfl⟩

theorem enlists_declareAfterSuite (x : Pass) (callback : Callback) :
    x.Enlists (x.declareAfterSuite s callback) := by
  rw [declareAfterSuite]
  split
  · exact enlists_still rfl rfl ⟨_, _, _, rfl⟩
  · exact enlists_still rfl rfl ⟨_, _, _, rfl⟩

theorem enlists_declareTest (x : Pass) (name : String) (site : Location) (body : Body) :
    x.Enlists (x.declareTest s name site body).state := by
  have hc := (files_declareTest (s := s) x name site body).context
  have hl := (grows_declareTest s x name site body).listener
  by_cases hname : name ∈ x.visit.names
  · rw [declareTest_taken hname] at hc hl ⊢
    exact enlists_still hc hl ⟨_, _, _, rfl⟩
  by_cases hp : x.isProcessed name = true
  · rw [declareTest_processed hname hp] at hc hl ⊢
    exact enlists_still hc hl ⟨_, _, _, rfl⟩
  by_cases hran : x.visit.ran = true
  · rw [declareTest_replayed hname hp hran] at hc hl ⊢
    exact enlists_listed hc hl ⟨_, _, _, rfl⟩ ⟨rfl, rfl⟩
  · rw [declareTest_direct hname hp hran] at hc hl ⊢
    exact enlists_listed hc hl ⟨_, _, _, rfl⟩ ⟨rfl, rfl⟩

/-- A listener that does not panic is told of a result that is known. -/
theorem complete_calm_cases (x : Pass) (o : Outcome) :
    (¬ x.world.listener.Calm ∧ ∃ p w, x.complete o = ⟨.panicked p, { x with world := w }⟩) ∨
      ∃ w, x.complete o
        = ⟨.finished, { x with world := w }.addTest ⟨o.test, x.world.cells.length⟩⟩ := by
  rcases x.complete_cases o with ⟨p, w, hc⟩ | ⟨w, hc, -⟩
  · refine .inl ⟨fun hcalm => ?_, p, w, hc⟩
    rw [complete_calm (hcalm _)] at hc
    cases congrArg Ran.ending hc
  · exact .inr ⟨w, hc⟩

theorem enlists_declarePending (x : Pass) (name : String) (site : Location) :
    x.Enlists (x.declarePending name site).state := by
  have hc := (files_declarePending x name site).context
  have hl := (grows_declarePending x name site).listener
  by_cases hname : name ∈ x.visit.names
  · rw [declarePending_taken hname] at hc hl ⊢
    exact enlists_still hc hl ⟨_, _, _, rfl⟩
  by_cases hp : x.isProcessed name = true
  · rw [declarePending_processed hname hp] at hc hl ⊢
    exact enlists_still hc hl ⟨_, _, _, rfl⟩
  · rw [declarePending_new hname hp] at hc hl ⊢
    rcases complete_calm_cases ((x.within (x.parentVisit name)).process name)
      ⟨⟨x.visit.context, name, site⟩, .pending⟩ with ⟨hpanic, p, w, heq⟩ | ⟨w, heq⟩
    · -- the name is processed, and nothing is listed
      rw [heq] at hc hl ⊢
      refine ⟨[x.visit.context.path ++ [name]], [], hc, hl, ?_, nofun,
        fun hcalm => absurd hcalm hpanic⟩
      refine ⟨x.search.afterSuite, x.search.direct, x.search.fatal, ?_⟩
      rw [List.append_nil]
      rfl
    · rw [heq] at hc hl ⊢
      exact enlists_listed hc hl ⟨_, _, _, rfl⟩ ⟨rfl, rfl⟩

theorem enlists_outside {name : String} {site : Location} {r : Ran BuildError Pass}
    (hr : x.enter? s name site = .inl r) : x.Enlists r.state := by
  have hc := (files_outside hr).context
  rcases outside_cases hr with ⟨e, rfl⟩ | ⟨-, hs, hw, -⟩
  · exact enlists_still rfl rfl ⟨_, _, _, rfl⟩
  · exact enlists_still hc (by rw [hw]) ⟨_, _, _, hs⟩

theorem enlists_fails (x : Pass) (name : String) (site : Location) (failure : Failure) :
    x.Enlists (x.fails name site failure).state := by
  have hl := (grows_fails x name site failure).listener
  rw [fails] at hl ⊢
  rcases x.complete_calm_cases ⟨⟨x.visit.context, name, site⟩, .failed failure⟩ with
    ⟨-, p, w, heq⟩ | ⟨w, heq⟩
  · rw [heq] at hl ⊢
    exact enlists_still rfl hl ⟨_, _, _, rfl⟩
  · rw [heq] at hl ⊢
    exact enlists_listed rfl hl ⟨_, _, _, rfl⟩ ⟨rfl, rfl⟩

/-- A context that fails is processed when its handle is listed. -/
theorem enlists_leaveFailed (x : Pass) (name : String) (site : Location) (mark : Nat)
    (failure : Failure) : x.Enlists (leaveFailed name site mark failure x).state := by
  by_cases hd : x.search.direct.isSome = true
  · rw [leaveFailed_owned hd]
    exact enlists_fails _ _ _ _
  · rw [leaveFailed_swept hd]
    exact (enlists_closet x _).trans (enlists_fails _ _ _ _)

end Pass

/-! ### Names, handles and contexts -/

namespace Search

variable {s t : Search} {root : NamePath}

/-- What was built was entered, the root apart, and what was found was built. -/
structure Built (s : Search) (root : NamePath) : Prop where
  found : ∀ c ∈ s.found, c.path ∈ s.investigated ∧ c ∈ s.entered
  investigated : ∀ path ∈ s.investigated, path ≠ root → ∃ c ∈ s.entered, c.path = path

/-- The names that were processed are those of the handles and those of the contexts that were
found, and no two of these have one name. -/
structure Tallied (s : Search) (root : NamePath) : Prop extends s.Built root where
  processed : ∀ path, path ∈ s.processed ↔
    (∃ h ∈ s.tests, h.test.path = path) ∨ ∃ c ∈ s.found, c.path = path
  apart : ∀ h ∈ s.tests, ∀ c ∈ s.found, h.test.path ≠ c.path
  tests : (s.tests.map (·.test.path)).Nodup
  contexts : (s.found.map Context.path).Nodup

/-- More contexts were entered, and nothing else. -/
theorem Built.entered (h : s.Built root) (hf : t.found = s.found)
    (hi : t.investigated = s.investigated) (he : s.entered <+: t.entered) : t.Built root where
  found c hc := by
    rw [hf] at hc
    rw [hi]
    exact ⟨(h.found c hc).1, he.subset (h.found c hc).2⟩
  investigated path hp hne := by
    rw [hi] at hp
    obtain ⟨c, hc, hpath⟩ := h.investigated path hp hne
    exact ⟨c, he.subset hc, hpath⟩

/-- The same, as the steps of a visit keep it: each handle and each context that was found has used
up a name that was processed, and no name is left. -/
structure Squared (s : Search) (root : NamePath) : Prop extends s.Filed, s.Built root where
  used : s.named ~ s.processed

theorem Squared.tallied (h : s.Squared root) : s.Tallied root where
  toBuilt := h.toBuilt
  processed path := by
    rw [← h.used.mem_iff, Search.named, List.mem_append, List.mem_map, List.mem_map]
  apart k hk c hc heq :=
    (List.nodup_append.mp h.nodup).2.2 _ (List.mem_map_of_mem hk) _ (List.mem_map_of_mem hc) heq
  tests := h.nodup.of_append_left
  contexts := h.nodup.of_append_right

end Search

namespace Pass

variable {s : PassScope} {x y z : Pass}

/-- The visit of a context goes from `x` to `y`: what was written down stays, and still fits. -/
structure Records (x y : Pass) : Prop where
  context : y.visit.context = x.visit.context
  listener : y.world.listener = x.world.listener
  grows : x.search.Extends y.search
  used : x.world.listener.Calm → x.search.named ~ x.search.processed →
    y.search.named ~ y.search.processed
  built : ∀ root, x.search.Built root → y.search.Built root

theorem Records.trans (h : x.Records y) (k : y.Records z) : x.Records z where
  context := k.context.trans h.context
  listener := k.listener.trans h.listener
  grows := h.grows.trans k.grows
  used hcalm hx := k.used (h.listener ▸ hcalm) (h.used hcalm hx)
  built root hx := k.built root (h.built root hx)

theorem Enlists.records (h : x.Enlists y) : x.Records y := by
  obtain ⟨names, hs, h⟩ := h
  obtain ⟨_, _, _, hsearch⟩ := h.search
  refine ⟨h.context, h.listener, ?_, fun hcalm hx => ?_, fun root hx => ?_⟩
  · rw [hsearch]
    exact ⟨List.prefix_append _ _, List.prefix_rfl, List.prefix_rfl, List.prefix_append _ _,
      List.prefix_rfl⟩
  · have hnamed : y.search.named ~ x.search.named ++ names := by
      rw [hsearch, ← h.named hcalm]
      simp only [Search.named, List.map_append, List.append_assoc]
      exact List.perm_append_comm.append_left _
    have hprocessed : y.search.processed = x.search.processed ++ names := by rw [hsearch]
    rw [hprocessed]
    exact hnamed.trans (hx.append_right names)
  · rw [hsearch]
    exact hx.entered rfl rfl List.prefix_rfl

theorem extends_entered {name : String} {site : Location} (hy : x.enter? s name site = .inr y) :
    x.search.Extends y.search ∧ y.visit.context ∈ y.search.entered := by
  obtain ⟨hp, ht, hf⟩ := search_entered hy
  obtain ⟨hi, -, -⟩ := investigated_entered hy
  obtain ⟨hname, hproc, hran⟩ := of_entered hy
  rw [enter?_new hname hproc hran] at hy
  cases hy
  obtain ⟨hpre, hmem⟩ := x.search.mem_intern (x.place name) site
  refine ⟨⟨?_, ?_, ?_, ?_, hpre⟩, hmem⟩
  · exact hp ▸ List.prefix_rfl
  · exact hi ▸ List.prefix_rfl
  · exact hf ▸ List.prefix_rfl
  · exact ht ▸ List.prefix_rfl

/-- A context that was built is found under the name that is processed. -/
theorem records_leaveFinished {name : String} {v : Visit} (hv : v.context ∈ x.search.entered)
    (hpath : v.context.path = x.visit.context.path ++ [name]) :
    x.Records (x.leaveFinished name v) := by
  have hp := processed_leaveFinished x name v
  have hf := found_leaveFinished x name v
  have ht := tests_leaveFinished x name v
  have he := entered_leaveFinished x name v
  have hi := (investigated_leaveFinished x name v).2
  have hc := congrArg Visit.context (visit_leaveFinished x name v)
  refine ⟨hc, by rw [world_leaveFinished],
    ⟨?_, ?_, ?_, ?_, ?_⟩, fun _ hx => ?_, fun root hx => ⟨fun c hc => ?_, fun path hm hne => ?_⟩⟩
  · exact hp ▸ List.prefix_append _ _
  · exact hi ▸ List.prefix_append _ _
  · exact hf ▸ List.prefix_append _ _
  · exact ht ▸ List.prefix_rfl
  · exact he ▸ List.prefix_rfl
  · cases hl : v.left with
    | true =>
      rw [hl, if_pos rfl, List.append_nil] at hp hf
      rw [Search.named, ht, hf, hp]
      exact hx
    | false =>
      rw [hl, if_neg Bool.false_ne_true] at hp hf
      rw [Search.named_found ht hf, hp, hpath]
      exact hx.append_right _
  · rw [hf, List.mem_append] at hc
    rw [hi, he, List.mem_append]
    rcases hc with hc | hc
    · exact ⟨.inl (hx.found c hc).1, (hx.found c hc).2⟩
    · cases hl : v.left with
      | true => simp [hl] at hc
      | false =>
        obtain rfl : c = v.context := by simpa [hl] using hc
        exact ⟨.inr List.mem_cons_self, hv⟩
  · rw [hi, List.mem_append, List.mem_singleton] at hm
    rw [he]
    rcases hm with hm | rfl
    · exact hx.investigated path hm hne
    · exact ⟨v.context, hv, rfl⟩

theorem records_leave {name : String} {site : Location} {r : Ran BuildError Pass}
    (hy : x.enter? s name site = .inr y) (h : y.Records r.state) (mark : Nat) :
    x.Records (leave (x.parentVisit name) name site mark r).state := by
  obtain ⟨hgrows, hmem⟩ := extends_entered hy
  obtain ⟨hp, ht, hf⟩ := search_entered hy
  obtain ⟨hi, -, -⟩ := investigated_entered hy
  have hlistener := (grows_enter hy).listener
  have hback : x.Records (r.state.within (x.parentVisit name)) := by
    refine ⟨rfl, h.listener.trans hlistener, hgrows.trans h.grows, fun hcalm hx => ?_,
      fun root hx => ?_⟩
    · refine h.used (hlistener ▸ hcalm) ?_
      rw [Search.named, ht, hf, hp]
      exact hx
    · exact h.built root (hx.entered hf hi hgrows.entered)
  rw [leave]
  rcases r.ending with _ | (e | c) | p
  · refine hback.trans (records_leaveFinished ?_ ?_)
    · rw [h.context]
      exact h.grows.entered.subset hmem
    · rw [h.context]
      exact (entered_eq hy).1
  · exact hback
  · exact hback.trans (enlists_leaveFailed _ _ _ _ _).records
  · exact hback.trans (enlists_leaveFailed _ _ _ _ _).records

theorem records_levelRelation (s : PassScope) : LevelRelation s Records where
  refl x := (enlists_closet x x.closet).records
  trans := Records.trans
  perform x b := (enlists_perform x b).records
  register x _ _ _ := (enlists_closet x _).records
  say x line := (enlists_closet x ⟨x.shelf, x.world.book.say s.scope.root line⟩).records
  declareTest x name site body := (enlists_declareTest x name site body).records
  declarePending x name site := (enlists_declarePending x name site).records
  declareAfterSuite x callback := (enlists_declareAfterSuite x callback).records
  outside h := (enlists_outside h).records
  leave := records_leave

end Pass

/-- **A visit keeps fitting what was written down.** -/
theorem Builder.visit_records (s : PassScope) (b : Builder) (x : Pass) :
    x.Records (b.visit s x).state :=
  b.visit_level (Pass.records_levelRelation s) x

/-! ### Passes -/

namespace RootContext

variable {r : RootContext} {search : Search} {as : List Arrival} {w w₀ : World} {n : Nat}

/-- A pass adds to what discovery carries, and behind it everything fits. -/
theorem squared_runPass (h : search.Squared r.context.path) (hw : w.listener.Calm) :
    (r.runPass search w).search.Squared r.context.path ∧
      search.Extends (r.runPass search w).search := by
  have hrecords := r.builder.visit_records ⟨r, ⟨r.index, w.book.invocations⟩, w.shelves.length⟩
    (r.opened search w)
  have hbuilt := hrecords.built _ h.toBuilt
  have hgrows := hrecords.grows
  refine ⟨⟨filed_runPass h.toFiled, hbuilt.entered rfl rfl List.prefix_rfl, ?_⟩, ?_⟩
  · exact hrecords.used hw h.used
  · exact ⟨hgrows.processed, hgrows.investigated, hgrows.found, hgrows.tests, hgrows.entered⟩

/-- The root counts as built. -/
theorem squared_handOn {e : PassEnd} (h : e.search.Squared r.context.path) :
    (r.handOn e).Squared r.context.path ∧ e.search.Extends (r.handOn e) := by
  have hbuilt : (r.handOn e).Built r.context.path := by
    refine ⟨fun c hc => ?_, fun path hp hne => ?_⟩
    · obtain ⟨hbuilt, hentered⟩ := h.toBuilt.found c hc
      exact ⟨List.mem_append_left _ hbuilt, hentered⟩
    · rcases List.mem_append.mp hp with hp | hp
      · exact h.investigated path hp hne
      · exact absurd (List.mem_singleton.mp hp) hne
  exact ⟨⟨h.toFiled.congr rfl rfl rfl, hbuilt, h.used⟩,
    { Search.Extends.refl e.search with investigated := List.prefix_append _ _ }⟩

theorem Tours.squared (h : r.Tours (·.listener.Calm) search as) :
    search.Squared r.context.path := by
  induction h with
  | first => exact ⟨⟨List.nodup_nil, List.Subperm.refl _⟩, ⟨nofun, nofun⟩, List.Perm.refl _⟩
  | next _ b hw ih =>
    have hpass := squared_runPass (r := r.building b) ih hw
    exact (squared_handOn (r := r) hpass.1).1

/-- **What discovery carries fits at the end of every pass, and only grows.**  If the listener does
not panic, then in every pass of a discovery the names that were processed are those of the handles
and those of the contexts that were found, each once; what was found was built and entered, and what
was built was entered, the root apart.  This holds before and after the root counts as built, and it
holds as well if every pass runs another builder of the root, in a world of its own. -/
theorem search_tallied (r : RootContext) :
    (∀ {w₀ n search w}, w₀.listener.Calm → r.Begins w₀ n search w →
      let e := r.runPass search w
      (e.search.Tallied r.context.path ∧ search.Extends e.search) ∧
        (r.handOn e).Tallied r.context.path ∧ e.search.Extends (r.handOn e)) ∧
    ∀ {search as}, r.Tours (·.listener.Calm) search as → ∀ b {w : World}, w.listener.Calm →
      let e := (r.building b).runPass search w
      (e.search.Tallied r.context.path ∧ search.Extends e.search) ∧
        (r.handOn e).Tallied r.context.path ∧ e.search.Extends (r.handOn e) := by
  have htour : ∀ {search as}, r.Tours (·.listener.Calm) search as → ∀ b {w : World},
      w.listener.Calm →
      let e := (r.building b).runPass search w
      (e.search.Tallied r.context.path ∧ search.Extends e.search) ∧
        (r.handOn e).Tallied r.context.path ∧ e.search.Extends (r.handOn e) := by
    intro search as h b w hw e
    obtain ⟨hpass, hgrows⟩ := squared_runPass (r := r.building b) h.squared hw
    obtain ⟨hnext, hkeeps⟩ := squared_handOn (r := r) hpass
    exact ⟨⟨hpass.tallied, hgrows⟩, hnext.tallied, hkeeps⟩
  refine ⟨fun hw₀ h => ?_, htour⟩
  exact htour (h.tours fun k => k.calm hw₀) r.builder (h.calm hw₀)

/-- A root whose first invocation declares other contexts than its second one, and which discards
errors. -/
def fickleRoot : RootContext :=
  ⟨0, "root", false, .site 0,
    .basic (.incr "n") <|
    .branch ⟨"n", .less, 2⟩
      (.context "c" (.site 1)
        (.test "a" (.site 2) .done false <| .context "d" (.site 3) .done false .done) false <|
       .context "e" (.site 4) .done false .done)
      (.context "c" (.site 5)
        (.context "d" (.site 6) (.test "b" (.site 7) .done false .done) false <|
         .context "d" (.site 8) .done true .done) false <|
       .pending "e" (.site 9) false .done)
      .done⟩

/-- The second pass builds the context `c` that the first one left, and lists `e` as pending. -/
theorem search_tallied_fickleRoot :
    ∃ search w, fickleRoot.Begins (.fresh (.held 1) .silent .lazy) 1 search w ∧
      search.found = [] ∧ (fickleRoot.runPass search w).search.Tallied ["root"] ∧
      search.Extends (fickleRoot.runPass search w).search ∧
      (fickleRoot.runPass search w).search.processed
        = [["root", "c", "a"], ["root", "c", "d", "b"], ["root", "c", "d"], ["root", "c"],
          ["root", "e"]] := by
  have hfirst : fickleRoot.Begins (.fresh (.held 1) .silent .lazy) 0 {} _ := .first
  have hbegins := hfirst.next rfl rfl rfl
  obtain ⟨⟨htallied, hgrows⟩, -⟩ := fickleRoot.search_tallied.1 (fun _ => rfl) hbegins
  exact ⟨_, _, hbegins, rfl, htallied, hgrows, rfl⟩

end RootContext

end TestTree

/-
What identifies a test, and where two tests are taken for one.

* `Context.same_iff`, `Description.same_iff` : sameness is equality of paths;
* `Search.Filed` : whatever is listed or found was processed under its own name, once;
* `Builder.visit_files`, `RootContext.Begins.filed` : no visit and no pass lists a name twice;
* `RootContext.discover_identifies` : **the tests of a discovery are told apart by their
  descriptions, but for the failed test that stands for the root**;
* `echoRoot_twice` : a root that fails, with a test of its own name.

## Design notes

Handles are listed in five places, four of which look at what was processed.  The fifth is the end of
discovery: the root that failed is listed without a look, under its name in itself, where a test may
have been declared.
-/
import Mathlib.Data.List.Perm.Subperm
import TestTree.Proofs.Cancelling
import TestTree.Proofs.PassCount

namespace TestTree

open scoped List

/-! ### Sameness -/

/-- Paths that end in a name are equal if what is before it is, and the names are. -/
theorem append_singleton_inj {p q : NamePath} {m n : String} :
    p ++ [m] = q ++ [n] ↔ p = q ∧ m = n := by
  constructor
  · intro h
    obtain ⟨hp, hn⟩ := List.append_inj' h rfl
    exact ⟨hp, List.singleton_inj.mp hn⟩
  · rintro ⟨rfl, rfl⟩
    rfl

/-- **Contexts are the same if and only if their paths are.** -/
theorem Context.same_iff {a b : Context} : a.same b = true ↔ a.path = b.path := by
  induction a generalizing b with
  | root n l =>
    cases b with
    | root m k => simp [same, path]
    | child q m k =>
      have hq := q.path_ne_nil
      simp [same, path, List.singleton_eq_append_iff, hq]
  | child p n l ih =>
    cases b with
    | root m k =>
      have hp := p.path_ne_nil
      simp [same, path, List.append_eq_singleton_iff, hp]
    | child q m k =>
      rw [path, path, append_singleton_inj, same, Bool.and_eq_true, ih, beq_iff_eq, and_comm]

/-- **Descriptions are the same if and only if their paths are.** -/
theorem Description.same_iff {d e : Description} : (d == e) = true ↔ d.path = e.path := by
  have hc : (d.container == e.container) = true ↔ d.container.path = e.container.path :=
    Context.same_iff
  show d.same e = true ↔ d.container.path ++ [d.name] = e.container.path ++ [e.name]
  rw [append_singleton_inj, same, Bool.and_eq_true, beq_iff_eq, hc, and_comm]

/-! ### What is listed was processed -/

namespace Search

variable {s t : Search}

/-- The names of the handles that are listed, and of the contexts that are found. -/
def named (s : Search) : List NamePath :=
  s.tests.map (·.test.path) ++ s.found.map Context.path

/-- Nothing was processed twice, and whatever is listed or found was processed under its own name, for
which nothing else is listed or found. -/
structure Filed (s : Search) : Prop where
  processed : s.processed.Nodup
  named : s.named <+~ s.processed

theorem Filed.nodup (h : s.Filed) : s.named.Nodup := by
  obtain ⟨l, hl, hsub⟩ := h.named
  exact hl.nodup_iff.mp (h.processed.sublist hsub)

/-- A step that processes nothing, and lists and finds nothing. -/
theorem Filed.congr (h : s.Filed) (hp : t.processed = s.processed) (ht : t.tests = s.tests)
    (hf : t.found = s.found) : t.Filed := by
  refine ⟨by rw [hp]; exact h.processed, ?_⟩
  rw [Search.named, ht, hf, hp]
  exact h.named

/-- A step that processes one new name, under which it may list or find something. -/
theorem Filed.process {path : NamePath} (h : s.Filed) (hn : path ∉ s.processed)
    (hp : t.processed = s.processed ++ [path]) (hl : t.named <+~ s.named ++ [path]) : t.Filed := by
  constructor
  · rw [hp]
    exact List.nodup_append_comm.mp (List.nodup_cons.mpr ⟨hn, h.processed⟩)
  · rw [hp]
    exact hl.trans (h.named.append (List.Subperm.refl _))

/-- One more handle. -/
theorem named_listed {k : Handle} (ht : t.tests = s.tests ++ [k]) (hf : t.found = s.found) :
    t.named ~ s.named ++ [k.test.path] := by
  rw [named, named, ht, hf, List.map_append, List.append_assoc, List.append_assoc]
  exact List.perm_append_comm.append_left _

/-- One more context. -/
theorem named_found {c : Context} (ht : t.tests = s.tests) (hf : t.found = s.found ++ [c]) :
    t.named = s.named ++ [c.path] := by
  rw [named, named, ht, hf, List.map_append, List.append_assoc]
  rfl

end Search

namespace Pass

variable {s : PassScope} {x y z : Pass}

/-- The visit of a context goes from `x` to `y`: what it processes is inside the context, and each
name is still listed once at most. -/
structure Files (x y : Pass) : Prop where
  context : y.visit.context = x.visit.context
  inside : ∃ new, y.search.processed = x.search.processed ++ new ∧
    ∀ path ∈ new, ∃ name, x.visit.context.path ++ [name] <+: path
  filed : x.search.Filed → y.search.Filed

theorem Files.trans (h : x.Files y) (k : y.Files z) : x.Files z where
  context := k.context.trans h.context
  inside := by
    obtain ⟨new, hnew, hin⟩ := h.inside
    obtain ⟨more, hmore, kin⟩ := k.inside
    refine ⟨new ++ more, by rw [hmore, hnew, List.append_assoc], fun path hpath => ?_⟩
    rcases List.mem_append.mp hpath with hpath | hpath
    · exact hin path hpath
    · rw [← h.context]
      exact kin path hpath
  filed hx := k.filed (h.filed hx)

/-- A step that processes nothing. -/
theorem files_of_eq (hc : y.visit.context = x.visit.context)
    (hp : y.search.processed = x.search.processed) (ht : y.search.tests = x.search.tests)
    (hf : y.search.found = x.search.found) : x.Files y where
  context := hc
  inside := ⟨[], by rw [hp, List.append_nil], fun _ h => absurd h List.not_mem_nil⟩
  filed hx := hx.congr hp ht hf

/-- A step that processes one new name. -/
theorem files_new {name : String} (hn : ¬ x.isProcessed name = true)
    (hc : y.visit.context = x.visit.context)
    (hp : y.search.processed = x.search.processed ++ [x.visit.context.path ++ [name]])
    (hl : y.search.named <+~ x.search.named ++ [x.visit.context.path ++ [name]]) : x.Files y where
  context := hc
  inside := by
    refine ⟨_, hp, fun path hpath => ⟨name, ?_⟩⟩
    obtain rfl := List.mem_singleton.mp hpath
    exact List.prefix_rfl
  filed hx := hx.process (fun h => hn (isProcessed_iff.mpr h)) hp hl

theorem files_listed {name : String} {h : Handle} (hn : ¬ x.isProcessed name = true)
    (hc : y.visit.context = x.visit.context)
    (hp : y.search.processed = x.search.processed ++ [x.visit.context.path ++ [name]])
    (ht : y.search.tests = x.search.tests ++ [h])
    (hh : h.test.path = x.visit.context.path ++ [name]) (hf : y.search.found = x.search.found) :
    x.Files y := by
  have hl := Search.named_listed ht hf
  rw [hh] at hl
  exact files_new hn hc hp hl.subperm

theorem files_declareTest (x : Pass) (name : String) (site : Location) (body : Body) :
    x.Files (x.declareTest s name site body).state := by
  by_cases hname : name ∈ x.visit.names
  · rw [declareTest_taken hname]
    exact files_of_eq rfl rfl rfl rfl
  by_cases hp : x.isProcessed name = true
  · rw [declareTest_processed hname hp]
    exact files_of_eq rfl rfl rfl rfl
  by_cases hran : x.visit.ran = true
  · rw [declareTest_replayed hname hp hran]
    exact files_listed hp rfl rfl rfl rfl rfl
  · rw [declareTest_direct hname hp hran]
    exact files_listed hp rfl rfl rfl rfl rfl

theorem files_declarePending (x : Pass) (name : String) (site : Location) :
    x.Files (x.declarePending name site).state := by
  by_cases hname : name ∈ x.visit.names
  · rw [declarePending_taken hname]
    exact files_of_eq rfl rfl rfl rfl
  by_cases hp : x.isProcessed name = true
  · rw [declarePending_processed hname hp]
    exact files_of_eq rfl rfl rfl rfl
  · rw [declarePending_new hname hp]
    rcases complete_cases ((x.within (x.parentVisit name)).process name)
      ⟨⟨x.visit.context, name, site⟩, .pending⟩ with ⟨p, w, hc⟩ | ⟨w, hc, -⟩
    · -- a listener that panics leaves a name that is processed and stands for nothing
      rw [hc]
      exact files_new hp rfl rfl (List.sublist_append_left _ _).subperm
    · rw [hc]
      exact files_listed hp rfl rfl rfl rfl rfl

theorem files_outside {name : String} {site : Location} {r : Ran BuildError Pass}
    (hr : x.enter? s name site = .inl r) : x.Files r.state := by
  by_cases hname : name ∈ x.visit.names
  · rw [enter?_taken hname] at hr
    cases hr
    exact files_of_eq rfl rfl rfl rfl
  by_cases hp : x.isProcessed name = true
  · rw [enter?_processed hname hp] at hr
    cases hr
    exact files_of_eq rfl rfl rfl rfl
  by_cases hran : x.visit.ran = true
  · rw [enter?_skipped hname hp hran] at hr
    cases hr
    exact files_of_eq rfl rfl rfl rfl
  · rw [enter?_new hname hp hran] at hr
    cases hr

/-- A context that is entered has processed, listed and found nothing yet. -/
theorem search_entered {name : String} {site : Location} (hy : x.enter? s name site = .inr y) :
    y.search.processed = x.search.processed ∧ y.search.tests = x.search.tests ∧
      y.search.found = x.search.found := by
  obtain ⟨hname, hp, hran⟩ := of_entered hy
  rw [enter?_new hname hp hran] at hy
  cases hy
  obtain ⟨_, hs⟩ := x.search.intern_entered (x.place name) site
  have hp := congrArg Search.processed hs
  have ht := congrArg Search.tests hs
  have hf := congrArg Search.found hs
  exact ⟨hp, ht, hf⟩

theorem files_fails {name : String} (hn : ¬ x.isProcessed name = true) (site : Location)
    (failure : Failure) : x.Files (x.fails name site failure).state := by
  rw [fails]
  rcases complete_cases x ⟨⟨x.visit.context, name, site⟩, .failed failure⟩ with
    ⟨p, w, hc⟩ | ⟨w, hc, -⟩
  · rw [hc]
    exact files_of_eq rfl rfl rfl rfl
  · rw [hc]
    exact files_listed hn rfl rfl rfl rfl rfl

theorem files_leaveFailed {name : String} (hn : ¬ x.isProcessed name = true) (site : Location)
    (mark : Nat) (failure : Failure) : x.Files (leaveFailed name site mark failure x).state := by
  by_cases hd : x.search.direct.isSome = true
  · rw [leaveFailed_owned hd]
    exact files_fails hn _ _
  · rw [leaveFailed_swept hd]
    have hswept : x.Files (x.swept mark) := files_of_eq rfl rfl rfl rfl
    have hfails := files_fails (x := x.swept mark) hn site
      (failure.withTeardown (x.world.book.sweep (x.shelf.since mark)).1)
    exact hswept.trans hfails

theorem files_leave {name : String} {site : Location} {r : Ran BuildError Pass}
    (hy : x.enter? s name site = .inr y) (h : y.Files r.state) (mark : Nat) :
    x.Files (leave (x.parentVisit name) name site mark r).state := by
  obtain ⟨-, hn, -⟩ := of_entered hy
  obtain ⟨hpath, -, -, -⟩ := entered_eq hy
  obtain ⟨hyp, hyt, hyf⟩ := search_entered hy
  obtain ⟨new, hnew, hin⟩ := h.inside
  rw [hyp] at hnew
  rw [hpath] at hin
  let back := r.state.within (x.parentVisit name)
  have hback : x.Files back := by
    refine ⟨rfl, ⟨new, hnew, fun path hp => ?_⟩, fun hx => h.filed (hx.congr hyp hyt hyf)⟩
    obtain ⟨inner, hi⟩ := hin path hp
    exact ⟨name, (List.prefix_append _ _).trans hi⟩
  -- what was processed inside is longer than the name of the context
  have hfresh : ¬ back.isProcessed name = true := by
    rw [isProcessed_iff]
    show x.visit.context.path ++ [name] ∉ r.state.search.processed
    rw [hnew, List.mem_append, not_or]
    refine ⟨fun hx => hn (isProcessed_iff.mpr hx), fun hp => ?_⟩
    obtain ⟨inner, hi⟩ := hin _ hp
    have hlen := hi.length_le
    simp at hlen
  rw [leave]
  rcases r.ending with _ | (e | c) | p
  · refine hback.trans ?_
    have hp := processed_leaveFinished back name r.state.visit
    have hf := found_leaveFinished back name r.state.visit
    have ht := tests_leaveFinished back name r.state.visit
    have hc := congrArg Visit.context (visit_leaveFinished back name r.state.visit)
    cases hl : r.state.visit.left with
    | true =>
      rw [hl, if_pos rfl, List.append_nil] at hp hf
      exact files_of_eq hc hp ht hf
    | false =>
      rw [hl, if_neg Bool.false_ne_true] at hp hf
      have hnamed := Search.named_found ht hf
      rw [h.context, hpath] at hnamed
      exact files_new hfresh hc hp (hnamed ▸ List.Subperm.refl _)
  · exact hback
  · exact hback.trans (files_leaveFailed hfresh _ _ _)
  · exact hback.trans (files_leaveFailed hfresh _ _ _)

theorem files_levelRelation (s : PassScope) : LevelRelation s Files where
  refl _ := files_of_eq rfl rfl rfl rfl
  trans := Files.trans
  perform x b := by
    rw [state_perform]
    exact files_of_eq rfl rfl rfl rfl
  register _ _ _ _ := files_of_eq rfl rfl rfl rfl
  say _ _ := files_of_eq rfl rfl rfl rfl
  declareTest := files_declareTest
  declarePending := files_declarePending
  declareAfterSuite x callback := by
    rw [declareAfterSuite]
    split
    · exact files_of_eq rfl rfl rfl rfl
    · exact files_of_eq rfl rfl rfl rfl
  outside := files_outside
  leave := files_leave

end Pass

/-- **No visit lists a name twice.** -/
theorem Builder.visit_files (s : PassScope) (b : Builder) (x : Pass) :
    x.Files (b.visit s x).state :=
  b.visit_level (Pass.files_levelRelation s) x

/-! ### Passes and their end -/

theorem World.completed_ok {w v : World} {o : Outcome} {h : Handle}
    (hc : w.completed o = (.ok h, v)) :
    h = ⟨o.test, w.cells.length⟩ ∧ v.cells = w.cells ++ [.done o] := by
  rw [completed] at hc
  split at hc
  · cases hc
  · rename_i z hz
    cases hc
    have hcells : z.cells = w.cells := congrArg (fun p => p.2.cells) hz.symm
    exact ⟨by rw [hcells], by rw [hcells]⟩

namespace RootContext

variable {r : RootContext} {w₀ w v : World} {search : Search} {n : Nat}

theorem filed_runPass (h : search.Filed) : (r.runPass search w).search.Filed := by
  let s : PassScope := ⟨r, ⟨r.index, w.book.invocations⟩, w.shelves.length⟩
  exact ((r.builder.visit_files s (r.opened search w)).filed h).congr rfl rfl rfl

/-- **No pass lists a name twice, or one that an earlier pass listed.** -/
theorem Begins.filed (h : r.Begins w₀ n search w) : search.Filed := by
  induction h with
  | first => exact ⟨List.nodup_nil, List.Subperm.refl _⟩
  | next _ _ _ _ ih => exact (filed_runPass ih).congr rfl rfl rfl

/-- The failed test that stands for a root whose builder failed. -/
def ownTest (r : RootContext) : Description :=
  ⟨r.context, r.name, r.location⟩

theorem origin_failure? {e : Ending BuildError} {f : Failure} (h : failure? e = some f) :
    f.origin = .contextBuild := by
  cases e with
  | finished => cases h
  | failed e =>
    cases e with
    | structural e => cases h
    | failed c => cases h; rfl
  | panicked p => cases h; rfl

/-- What the result of a discovery has from its last pass, which ended as `e`. -/
structure ResultOf (r : RootContext) (e : PassEnd) (d : Discovery) (v : World) : Prop where
  fatal : fatal? e = none
  cells : e.world.cells <+: v.cells
  contexts : d.contexts = r.context :: e.search.foundInOrder.mergeSort
    fun a b => a.location.le b.location
  /-- All that comes on top is the test that stands for a root that failed. -/
  tests : ∃ own : Option Handle, d.tests = e.search.tests ++ own.toList ∧
    ∀ h, own = some h → h.test = r.ownTest ∧
      ∃ f, f.origin = .contextBuild ∧ v.cell h.cell = .done ⟨r.ownTest, .failed f⟩

theorem finish_resultOf {e : PassEnd} {d : Discovery} {search : Search}
    (hd : r.finish n search w = (.ok (.ok d), v)) (hf : fatal? e = none)
    (hs : search.found = e.search.found ∧ search.entered = e.search.entered)
    (hc : e.world.cells <+: w.cells)
    (ht : ∃ own : Option Handle, search.tests = e.search.tests ++ own.toList ∧
      ∀ h, own = some h → h.test = r.ownTest ∧
        ∃ f, f.origin = .contextBuild ∧ w.cell h.cell = .done ⟨r.ownTest, .failed f⟩) :
    r.ResultOf e d v := by
  cases hd
  refine ⟨hf, hc, ?_, ht⟩
  rw [Search.foundInOrder, Search.foundInOrder, hs.1, hs.2]

theorem finishFailed_resultOf {e : PassEnd} {d : Discovery} {f : Failure} (hf : fatal? e = none)
    (ho : f.origin = .contextBuild) (hc : w.cells = e.world.cells)
    (hd : r.finishFailed n f e.search w = (.ok (.ok d), v)) : r.ResultOf e d v := by
  rw [finishFailed] at hd
  split at hd
  · cases hd
  · rename_i h z hz
    obtain ⟨rfl, hcells⟩ := World.completed_ok hz
    refine finish_resultOf hd hf ⟨rfl, rfl⟩ ?_ ⟨some _, rfl, ?_⟩
    · rw [hcells, hc]
      exact List.prefix_append _ _
    · intro h hh
      cases hh
      exact ⟨rfl, f, ho, World.cell_last hcells⟩

/-- **A discovery that gives a result has all of its last pass, and the failed test that stands for
the root if its builder failed.** -/
theorem Ends.resultOf {e : PassEnd} {d : Discovery}
    {a : Except Payload (Except StructuralError Discovery) × World} (h : r.Ends n e a)
    (ha : a = (.ok (.ok d), v)) : r.ResultOf e d v := by
  cases h with
  | aborted hf =>
    rw [abort] at ha
    split at ha
    · cases ha
    · cases ha
  | @failedDirect f k hf he hd =>
    exact finishFailed_resultOf hf (origin_failure? he) (World.cells_release _ _) ha
  | @failedSwept f hf he hd =>
    have ho : f.origin = .contextBuild := origin_failure? he
    exact finishFailed_resultOf (f := f.withTeardown (e.world.closeShelf e.shelf).1)
      (w := (e.world.closeShelf e.shelf).2) hf ho rfl ha
  | finished hf he hl =>
    refine finish_resultOf ha hf ⟨rfl, rfl⟩ ?_ ⟨none, (List.append_nil _).symm, by rintro _ ⟨⟩⟩
    exact r.cells_behind e ▸ List.prefix_rfl

/-- The one of several handles with different descriptions that has a given one. -/
theorem find?_of_nodup {hs : List Handle} (hn : (hs.map (·.test.path)).Nodup) {k : Handle}
    (hk : k ∈ hs) : hs.find? (fun h => h.test == k.test) = some k := by
  have hsome : (hs.find? fun h => h.test == k.test).isSome :=
    List.find?_isSome.mpr ⟨k, hk, Description.same_iff.mpr rfl⟩
  obtain ⟨j, hj⟩ := Option.isSome_iff_exists.mp hsome
  have hsame : (j.test == k.test) = true := by simpa using List.find?_some hj
  have hpath := Description.same_iff.mp hsame
  rw [hj, List.inj_on_of_nodup_map hn (List.mem_of_find?_eq_some hj) hk hpath]

/-- **The tests of a discovery are told apart by their descriptions**, whatever the builder does in
different passes, but for the failed test that stands for a root whose builder failed.  A lookup gives
the one test with a description, and whatever is done with the handles, there is no second outcome
for it. -/
theorem discover_identifies (r : RootContext) {w v : World} {d : Discovery}
    (hd : r.discover w = (.ok (.ok d), v)) :
    ∃ (hs : List Handle) (own : Option Handle), d.tests = hs ++ own.toList ∧
      hs.Pairwise (fun h k => (h.test == k.test) = false) ∧
      (∀ h, own = some h → h.test = r.ownTest ∧
        ∃ f, f.origin = .contextBuild ∧ v.cell h.cell = .done ⟨r.ownTest, .failed f⟩) ∧
      (∀ k ∈ hs, d.handle? k.test = some k) ∧
      ∀ us later : List Use, ∀ h ∈ hs, ∀ k ∈ hs, (h.test == k.test) = true → ∀ o,
        (v.useAll us).outcome? h = some o → ((v.useAll us).useAll later).outcome? k = some o := by
  obtain ⟨n, search, z, hbegins, hends⟩ := r.discover_ends w
  have hresult := hends.resultOf hd
  obtain ⟨own, htests, hown⟩ := hresult.tests
  let hs := (r.runPass search z).search.tests
  have hnodup : (hs.map (·.test.path)).Nodup := (filed_runPass hbegins.filed).nodup.of_append_left
  have hfind : ∀ k ∈ hs, hs.find? (fun h => h.test == k.test) = some k :=
    fun k hk => find?_of_nodup hnodup hk
  refine ⟨hs, own, htests, ?_, hown, fun k hk => ?_, fun us later h hh k hk hsame o ho => ?_⟩
  · refine (List.pairwise_map.mp hnodup).imp fun hne => Bool.eq_false_iff.mpr fun hsame => ?_
    exact hne (Description.same_iff.mp hsame)
  · rw [Discovery.handle?, htests, List.find?_append, hfind k hk]
    rfl
  · obtain rfl : h = k :=
      List.inj_on_of_nodup_map hnodup hh hk (Description.same_iff.mp hsame)
    rcases (v.useAll us).useAll_cell later h.cell with hcell | ⟨hcell, -⟩
    · rwa [World.outcome?, hcell]
    · -- what has an outcome is not waiting to be run
      rw [World.outcome?] at ho
      cases hc : (v.useAll us).cell h.cell with
      | suspended u => rw [hc] at ho; cases ho
      | _ => rw [hc] at hcell; cases hcell

end RootContext

/-! ### A root with a test of its own name -/

/-- A root that declares a test of its own name, and then fails. -/
def echoRoot : RootContext :=
  ⟨0, "root", false, .site 0,
    .test "root" (.site 1) .done false <| .basic (.fail ⟨.text "no", .sorted⟩) .done⟩

/-- **A root that fails is listed under a description that a test of it may have**: two handles have
the same description, one of them waits to be run and the other one has failed, and the lookup finds
the first one only. -/
theorem echoRoot_twice :
    ∃ d v h k, echoRoot.discover (.fresh (.held 1) .silent .lazy) = (.ok (.ok d), v) ∧
      d.tests = [h, k] ∧ (h.test == k.test) = true ∧ d.handle? k.test = some h ∧
      h.cell ≠ k.cell ∧ v.outcome? h = none ∧ (v.outcome? k).isSome = true :=
  ⟨_, _, _, _, rfl, rfl, by decide, rfl, by decide, rfl, rfl⟩

/-- The lookup is right about the test that was declared. -/
theorem discover_identifies_echoRoot :
    ∃ d v, echoRoot.discover (.fresh (.held 1) .silent .lazy) = (.ok (.ok d), v) ∧
      ∃ hs own, d.tests = hs ++ Option.toList own ∧ ∀ k ∈ hs, d.handle? k.test = some k := by
  refine ⟨_, _, rfl, ?_⟩
  obtain ⟨hs, own, htests, -, -, hfind, -⟩ := echoRoot.discover_identifies
    (w := .fresh (.held 1) .silent .lazy) rfl
  exact ⟨hs, own, htests, hfind⟩

end TestTree

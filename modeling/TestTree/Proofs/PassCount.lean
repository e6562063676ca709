/-
How many passes a discovery makes, by the handles that it makes.

* `World.isPending` : the test of a handle is pending, and nothing will ever be run for it;
* `Pass.Advances`, `Builder.visit_advances` : a visit that meets a test, or a context that fails, has
  made a handle that is not pending;
* `RootContext.passes_bounded` : **a discovery makes at most one pass more than it has made handles
  that are not pending**, and ends.

## Design notes

A pass only leaves contexts behind a test that it has met, and the first test that a pass meets is a
new one.  So the measure is not in the loop over the passes; it is in what one visit does to `ran`.
-/
import TestTree.Proofs.Custody
import TestTree.Proofs.PassBound

namespace TestTree

/-! ### Pending handles -/

namespace World

variable {v w : World} {hs : List Handle} {h : Handle}

/-- The outcome of a handle is known, and it is that the test is not to be run. -/
def isPending (w : World) (h : Handle) : Bool :=
  (w.outcome? h).any (·.result.isPending)

theorem isPending_congr (hc : w.cell h.cell = v.cell h.cell) : w.isPending h = v.isPending h := by
  rw [isPending, isPending, outcome?, outcome?, hc]

/-- How many of some handles are not pending. -/
def nonPending (w : World) (hs : List Handle) : Nat :=
  hs.countP fun h => !w.isPending h

/-- Making handles changes nothing for the ones that were made before. -/
theorem isPending_of_isPrefix (hc : v.cells <+: w.cells) (hh : h.cell < v.cells.length) :
    w.isPending h = v.isPending h :=
  isPending_congr (cell_of_isPrefix hc hh)

theorem isPending_suspended {u : TestUnit} (hc : w.cell h.cell = .suspended u) :
    w.isPending h = false := by
  rw [isPending, outcome?, hc]
  rfl

theorem isPending_failed {d : Description} {f : Failure}
    (hc : w.cell h.cell = .done ⟨d, .failed f⟩) : w.isPending h = false := by
  rw [isPending, outcome?, hc]
  rfl

/-- The last cell. -/
theorem cell_last {c : Cell TestUnit Outcome} (hw : w.cells = v.cells ++ [c]) :
    w.cell v.cells.length = c := by
  rw [cell, hw, List.getElem?_concat_length]
  rfl

end World

/-! ### What a visit adds -/

namespace Pass

variable {s : PassScope} {x y z : Pass} {hs ks : List Handle}

/-- The visit of a context goes from `x` to `y`: if it has met a test on the way, or a context that
failed, then one of the handles that it made is not pending. -/
def Advances (x y : Pass) : Prop :=
  ∃ hs, x.GrowsBy y hs ∧ (x.visit.ran = true → y.visit.ran = true) ∧
    (y.visit.ran = true → x.visit.ran = true ∨ ∃ h ∈ hs, y.world.isPending h = false)

/-- A handle that was made on the way, and is not pending, stays so. -/
theorem GrowsBy.keeps (h : x.GrowsBy y hs) (k : y.Grows z)
    (hp : ∃ h ∈ hs, y.world.isPending h = false) : ∃ h ∈ hs, z.world.isPending h = false := by
  obtain ⟨t, ht, hpending⟩ := hp
  refine ⟨t, ht, ?_⟩
  rw [World.isPending_of_isPrefix k.cells (h.makes.lt ht).2]
  exact hpending

theorem GrowsBy.trans (h : x.GrowsBy y hs) (k : y.GrowsBy z ks) : x.GrowsBy z (hs ++ ks) where
  tests := by rw [k.tests, h.tests, List.append_assoc]
  makes := h.makes.trans k.makes
  direct d hd := by
    rw [List.mem_append]
    rcases k.direct d hd with hd | hd
    · exact (h.direct d hd).imp_right .inl
    · exact .inr (.inr hd)

theorem Advances.trans (h : x.Advances y) (k : y.Advances z) : x.Advances z := by
  obtain ⟨hs, hgrows, hkeep, hran⟩ := h
  obtain ⟨ks, kgrows, kkeep, kran⟩ := k
  refine ⟨hs ++ ks, hgrows.trans kgrows, fun hx => kkeep (hkeep hx), fun hz => ?_⟩
  rcases kran hz with hy | ⟨t, ht, hp⟩
  · refine (hran hy).imp_right fun hnew => ?_
    obtain ⟨t, ht, hp⟩ := hgrows.keeps ⟨ks, kgrows⟩ hnew
    exact ⟨t, List.mem_append_left _ ht, hp⟩
  · exact .inr ⟨t, List.mem_append_right _ ht, hp⟩

/-- A step that meets no test. -/
theorem advances_of_grows (h : x.Grows y) (hr : y.visit.ran = x.visit.ran) : x.Advances y := by
  obtain ⟨hs, hgrows⟩ := h
  refine ⟨hs, hgrows, fun hx => ?_, fun hy => .inl ?_⟩
  · rw [hr, hx]
  · rw [← hr, hy]

/-- A step that makes one handle, which is not pending. -/
theorem advances_new {h : Handle} (hg : x.Grows y) (ht : y.search.tests = x.search.tests ++ [h])
    (hr : y.visit.ran = true) (hp : y.world.isPending h = false) : x.Advances y := by
  obtain ⟨hs, hgrows⟩ := hg
  obtain rfl : hs = [h] := List.append_cancel_left (hgrows.tests.symm.trans ht)
  exact ⟨_, hgrows, fun _ => hr, fun _ => .inr ⟨h, List.mem_cons_self, hp⟩⟩

theorem advances_declareTest (x : Pass) (name : String) (site : Location) (body : Body) :
    x.Advances (x.declareTest s name site body).state := by
  have hg := grows_declareTest s x name site body
  by_cases hname : name ∈ x.visit.names
  · rw [declareTest_taken hname] at hg ⊢
    exact advances_of_grows hg rfl
  by_cases hp : x.isProcessed name = true
  · rw [declareTest_processed hname hp] at hg ⊢
    exact advances_of_grows hg rfl
  by_cases hran : x.visit.ran = true
  · rw [declareTest_replayed hname hp hran] at hg ⊢
    exact advances_of_grows hg rfl
  · rw [declareTest_direct hname hp hran] at hg ⊢
    exact advances_new hg rfl rfl (World.isPending_suspended (World.cell_last rfl))

theorem advances_declarePending (x : Pass) (name : String) (site : Location) :
    x.Advances (x.declarePending name site).state := by
  have hg := grows_declarePending x name site
  by_cases hname : name ∈ x.visit.names
  · rw [declarePending_taken hname] at hg ⊢
    exact advances_of_grows hg rfl
  by_cases hp : x.isProcessed name = true
  · rw [declarePending_processed hname hp] at hg ⊢
    exact advances_of_grows hg rfl
  · rw [declarePending_new hname hp] at hg ⊢
    obtain ⟨hv, -⟩ := complete_same ((x.within (x.parentVisit name)).process name)
      ⟨⟨x.visit.context, name, site⟩, .pending⟩
    have hr := congrArg Visit.ran hv
    exact advances_of_grows hg hr

theorem advances_outside {name : String} {site : Location} {r : Ran BuildError Pass}
    (hr : x.enter? s name site = .inl r) : x.Advances r.state := by
  have hg := (grows_visitRelation s).outside hr
  by_cases hname : name ∈ x.visit.names
  · rw [enter?_taken hname] at hr
    cases hr
    exact advances_of_grows hg rfl
  by_cases hp : x.isProcessed name = true
  · rw [enter?_processed hname hp] at hr
    cases hr
    exact advances_of_grows hg rfl
  by_cases hran : x.visit.ran = true
  · rw [enter?_skipped hname hp hran] at hr
    cases hr
    exact advances_of_grows hg rfl
  · rw [enter?_new hname hp hran] at hr
    cases hr

/-- A handle for a known outcome, unless the listener panics. -/
theorem complete_cases (x : Pass) (o : Outcome) :
    (∃ p w, x.complete o = ⟨.panicked p, { x with world := w }⟩) ∨
      ∃ w, x.complete o = ⟨.finished, { x with world := w }.addTest ⟨o.test, x.world.cells.length⟩⟩ ∧
        w.cells = x.world.cells ++ [.done o] := by
  cases hp : x.world.listener.panic? (.finished o) with
  | some p =>
    refine .inl ⟨p, { x.world with book := x.world.book.add (.notified (.finished o)) }, ?_⟩
    rw [complete, World.completed, World.notify, Notebook.notify, hp]
  | none => exact .inr ⟨_, complete_calm hp, World.cells_completed hp⟩

/-- A context that fails becomes a handle that is not pending, unless the listener panics. -/
theorem advances_fails (x : Pass) (name : String) (site : Location) (failure : Failure) :
    x.Advances (x.fails name site failure).state := by
  have hg := grows_fails x name site failure
  rw [fails] at hg ⊢
  rcases x.complete_cases ⟨⟨x.visit.context, name, site⟩, .failed failure⟩ with
    ⟨p, w, hc⟩ | ⟨w, hc, hw⟩
  · rw [hc] at hg ⊢
    exact advances_of_grows hg rfl
  · rw [hc] at hg ⊢
    exact advances_new hg rfl rfl (World.isPending_failed (World.cell_last hw))

/-- Behind a context, all that is left of a test that was met inside is that the context met it. -/
theorem advances_leave {name : String} {site : Location} {r : Ran BuildError Pass}
    (hy : x.enter? s name site = .inr y) (h : y.Advances r.state) (mark : Nat) :
    x.Advances (leave (x.parentVisit name) name site mark r).state := by
  obtain ⟨hs, hgrows, -, hran⟩ := h
  obtain ⟨-, -, hyr, -⟩ := entered_eq hy
  let back := r.state.within (x.parentVisit name)
  have hback : x.Grows back := (grows_enter hy).trans (Grows.trans ⟨hs, hgrows⟩ (grows_within _ _))
  have hfailed : ∀ failure, x.Advances (leaveFailed name site mark failure back).state := by
    intro failure
    have hx : x.Advances back := advances_of_grows hback rfl
    by_cases hd : back.search.direct.isSome = true
    · rw [leaveFailed_owned hd]
      exact hx.trans (advances_fails _ _ _ _)
    · rw [leaveFailed_swept hd]
      have hswept : back.Advances (back.swept mark) :=
        advances_of_grows (grows_book rfl rfl rfl
          (Notebook.bodies_of_deeds (Notebook.deeds_sweep _ _)) (Notebook.invocations_sweep _ _)) rfl
      exact hx.trans (hswept.trans (advances_fails _ _ _ _))
  rw [leave]
  rcases r.ending with _ | (e | c) | p
  · obtain ⟨hs₀, hgrows₀⟩ := grows_enter hy
    obtain ⟨hs₁, hgrows₁⟩ := grows_leaveFinished back name r.state.visit
    have hinside : r.state.GrowsBy (back.leaveFinished name r.state.visit) hs₁ :=
      ⟨hgrows₁.tests, hgrows₁.makes, hgrows₁.direct⟩
    show x.Advances (back.leaveFinished name r.state.visit)
    have hv : (back.leaveFinished name r.state.visit).visit.ran
        = (x.visit.ran || r.state.visit.ran) := congrArg Visit.ran (visit_leaveFinished _ _ _)
    refine ⟨hs₀ ++ (hs ++ hs₁), hgrows₀.trans (hgrows.trans hinside), fun hx => ?_, fun hz => ?_⟩
    · rw [hv, hx, Bool.true_or]
    · rw [hv, Bool.or_eq_true] at hz
      refine hz.imp_right fun hr => ?_
      -- the context was entered without a test that had been met
      have hnew := (hran hr).resolve_left (by rw [hyr]; exact Bool.false_ne_true)
      obtain ⟨t, ht, hp⟩ := hgrows.keeps ⟨hs₁, hinside⟩ hnew
      exact ⟨t, List.mem_append_right _ (List.mem_append_left _ ht), hp⟩
  · exact advances_of_grows hback rfl
  · exact hfailed _
  · exact hfailed _

theorem advances_levelRelation (s : PassScope) : LevelRelation s Advances where
  refl x := advances_of_grows (grows_of_eq rfl rfl rfl) rfl
  trans := Advances.trans
  perform x b := advances_of_grows ((grows_visitRelation s).perform x b) (by rw [state_perform]; rfl)
  register x label res close :=
    advances_of_grows ((grows_visitRelation s).register x label res close) rfl
  say x line := advances_of_grows ((grows_visitRelation s).say x line) rfl
  declareTest := advances_declareTest
  declarePending := advances_declarePending
  declareAfterSuite x callback := by
    have hg := (grows_visitRelation s).declareAfterSuite x callback
    refine advances_of_grows hg ?_
    rw [declareAfterSuite]
    split <;> rfl
  outside := advances_outside
  leave := advances_leave

end Pass

/-- **A visit that meets a test, or a context that fails, has made a handle that is not pending**,
unless a test had been met before. -/
theorem Builder.visit_advances (s : PassScope) (b : Builder) (x : Pass) :
    x.Advances (b.visit s x).state :=
  b.visit_level (Pass.advances_levelRelation s) x

/-! ### The number of passes -/

namespace RootContext

variable {r : RootContext} {w₀ w : World} {search : Search} {n : Nat}

/-- **A pass that leaves contexts has made a handle that is not pending.** -/
theorem runPass_advances (hl : (r.runPass search w).left = true) :
    ∃ hs, (r.runPass search w).search.tests = search.tests ++ hs ∧
      ∃ h ∈ hs, (r.runPass search w).world.isPending h = false := by
  let s : PassScope := ⟨r, ⟨r.index, w.book.invocations⟩, w.shelves.length⟩
  have hprogress := r.builder.visit_progress (s := s) (r.opened search w)
  have hran := (hprogress.left hl).resolve_left Bool.false_ne_true
  obtain ⟨hs, hgrows, -, hnew⟩ := r.builder.visit_advances s (r.opened search w)
  obtain ⟨h, hh, hp⟩ := (hnew hran).resolve_left Bool.false_ne_true
  -- putting the shelf back changes no cell
  exact ⟨hs, hgrows.tests, h, hh, hp⟩

/-- A pass is one invocation of the root's builder. -/
theorem invocations_runPass (r : RootContext) (search : Search) (w : World) :
    (r.runPass search w).world.book.invocations = w.book.invocations + 1 := by
  obtain ⟨hs, hgrows⟩ := r.builder.visit_grows
    ⟨r, ⟨r.index, w.book.invocations⟩, w.shelves.length⟩ (r.opened search w)
  exact hgrows.makes.invocations

theorem invocations_behind (r : RootContext) (e : PassEnd) :
    (r.behind e).book.invocations = e.world.book.invocations := by
  rw [behind]
  split
  · rename_i h _
    obtain ⟨_, _, hw, -, hi, -⟩ := World.release_eq e.world h
    rw [hw]
    exact hi
  · obtain ⟨book, hw, hr⟩ := e.world.closeWarning_eq e.shelf
      "teardown after discovery pass failed: " r.context.display
    rw [hw]
    exact hr.invocations.trans (Notebook.invocations_sweep _ _)

/-- As many passes as have begun, as many invocations of the root's builder there were. -/
theorem Begins.invocations (h : r.Begins w₀ n search w) :
    w.book.invocations = w₀.book.invocations + n := by
  induction h with
  | first => rfl
  | next _ _ _ _ ih => rw [invocations_behind, invocations_runPass, ih, Nat.add_assoc]

theorem cells_behind (r : RootContext) (e : PassEnd) : (r.behind e).cells = e.world.cells := by
  rw [behind]
  split
  · exact World.cells_release _ _
  · obtain ⟨book, hw, hr⟩ := e.world.closeWarning_eq e.shelf
      "teardown after discovery pass failed: " r.context.display
    rw [hw]
    exact hr.cells

/-- Later passes take nothing from the handles that are not pending, and each pass that leaves
contexts adds one. -/
theorem nonPending_runPass (hd : search.direct = none)
    (hlt : ∀ h ∈ search.tests, h.cell < w.cells.length) :
    let e := r.runPass search w
    w.nonPending search.tests ≤ e.world.nonPending e.search.tests ∧
      (e.left = true →
        w.nonPending search.tests + 1 ≤ e.world.nonPending e.search.tests) := by
  intro e
  obtain ⟨hs, htests, hadds, -⟩ := r.runPass_adds search w hd
  have hold : e.world.nonPending search.tests = w.nonPending search.tests :=
    List.countP_congr fun h hh => by
      rw [World.isPending_of_isPrefix hadds.cells (hlt h hh)]
  have hsum : e.world.nonPending e.search.tests
      = w.nonPending search.tests + e.world.nonPending hs := by
    rw [htests, World.nonPending, List.countP_append, ← hold]
    rfl
  refine ⟨by omega, fun hl => ?_⟩
  obtain ⟨ks, hks, h, hh, hp⟩ := runPass_advances hl
  obtain rfl : hs = ks := List.append_cancel_left (htests.symm.trans hks)
  have hpos : 0 < e.world.nonPending hs :=
    List.countP_pos_iff.mpr ⟨h, hh, by rw [hp]; rfl⟩
  omega

/-- Behind `n` passes there are at least `n` handles that are not pending. -/
theorem Begins.le_nonPending (h : r.Begins w₀ n search w) : n ≤ w.nonPending search.tests := by
  induction h with
  | first => exact Nat.zero_le _
  | @next n search w h _ _ hl ih =>
    obtain ⟨hadds, hd, -⟩ := h.adds
    let e := r.runPass search w
    have hnew : w.nonPending search.tests + 1 ≤ e.world.nonPending e.search.tests :=
      (nonPending_runPass hd fun k hk => (hadds.lt hk).2).2 hl
    have hcell := World.cell_congr (r.cells_behind e)
    have hbehind : (r.behind e).nonPending e.search.tests = e.world.nonPending e.search.tests :=
      List.countP_congr fun k _ => by rw [World.isPending_congr (congrFun hcell k.cell)]
    show n + 1 ≤ (r.behind e).nonPending e.search.tests
    omega

/-- Behind `n` passes at least `n` declarations of the builder are processed. -/
theorem Begins.le_declarations (h : r.Begins w₀ n search w) :
    n + r.unprocessed search ≤ r.builder.declarations := by
  induction h with
  | first =>
    rw [Nat.zero_add]
    exact r.unprocessed_le _
  | @next n search w _ _ _ hl ih =>
    have hless : r.unprocessed (r.handOn (r.runPass search w)) < r.unprocessed search :=
      unprocessed_runPass hl
    omega

/-- Fuel for one pass more than there are declarations is enough. -/
theorem discoverFrom_enough : ∀ (fuel more n : Nat) (search : Search) (w : World),
    r.unprocessed search < fuel →
      r.discoverFrom (fuel + more) n search w = r.discoverFrom fuel n search w := by
  intro fuel
  induction fuel with
  | zero => intro more n search w h; exact absurd h (Nat.not_lt_zero _)
  | succ fuel ih =>
    intro more n search w h
    rw [Nat.add_right_comm, discoverFrom, discoverFrom]
    rcases r.conclude?_cases (n + 1) (r.runPass search w) with ⟨-, -, hl, hnone⟩ | ⟨res, hsome, -⟩
    · rw [hnone]
      have hless : r.unprocessed (r.handOn (r.runPass search w)) < r.unprocessed search :=
        unprocessed_runPass hl
      exact ih more (n + 1) (r.handOn (r.runPass search w)) (r.behind (r.runPass search w))
        (by omega)
    · rw [hsome]

/-- **Discovery makes at most one pass more than it has made handles that are not pending.**  Each
pass that leaves contexts for another one has made such a handle.  So behind its last pass, with which
the builder of the root has been invoked `n + 1` times, there are at least `n` of them; nor are there
more passes than declarations in the builder, and one.  With fuel for so many, discovery always ends
behind its last pass, and more fuel changes nothing. -/
theorem passes_bounded (r : RootContext) (w : World) :
    (∀ search v, (r.runPass search v).left = true →
      ∃ hs, (r.runPass search v).search.tests = search.tests ++ hs ∧
        ∃ h ∈ hs, (r.runPass search v).world.isPending h = false) ∧
    (∃ n search v, r.Begins w n search v ∧
      r.Ends (n + 1) (r.runPass search v) (r.discover w) ∧
      (r.runPass search v).world.book.invocations = w.book.invocations + (n + 1) ∧
      n ≤ (r.runPass search v).world.nonPending (r.runPass search v).search.tests ∧
      n ≤ r.builder.declarations) ∧
    ∀ fuel, r.builder.declarations < fuel → r.discoverFrom fuel 0 {} w = r.discover w := by
  refine ⟨fun search v hl => runPass_advances hl, ?_, fun fuel hfuel => ?_⟩
  · obtain ⟨n, search, v, hbegins, hends⟩ := r.discover_ends w
    obtain ⟨hadds, hd, -⟩ := hbegins.adds
    have hpending := hbegins.le_nonPending
    have hkept := (nonPending_runPass (r := r) hd fun k hk => (hadds.lt hk).2).1
    have hdeclared := hbegins.le_declarations
    refine ⟨n, search, v, hbegins, hends, ?_, by omega, by omega⟩
    rw [invocations_runPass, hbegins.invocations, Nat.add_assoc]
  · obtain ⟨more, rfl⟩ := Nat.exists_eq_add_of_le (Nat.succ_le_of_lt hfuel)
    exact discoverFrom_enough _ more 0 {} w (Nat.lt_succ_of_le (r.unprocessed_le {}))

end RootContext

end TestTree

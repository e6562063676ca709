/-
Discovery of a root whose builder declares a plan.

* `RootContext.findings` : what discovery of a plan finds: a first scan, then what is left;
* `RootContext.runPass_passes` : one pass;
* `RootContext.discover_finds` : **discovery lists exactly the findings of the plan, in their
  order**.

## Design notes

The passes go on as long as contexts are left, and each of them makes the plan that is left smaller
(`Plan.size_after_lt`); the fuel of discovery is more than its size.
-/
import TestTree.Proofs.PlanVisit

namespace TestTree

theorem Search.stands_new {p : Plan} (h : p.IsNew) : ∀ c, Search.Stands {} c p p := by
  induction p with
  | stop e => intro c; exact .stop
  | test n site body next ih => intro c; exact .test List.not_mem_nil (ih h c)
  | pending n site next ih => intro c; exact .pending List.not_mem_nil (ih h c)
  | context n site known inner next ihi ih =>
    intro c
    obtain ⟨rfl, hi, hn⟩ := h
    exact .context List.not_mem_nil rfl (ihi hi _) (ih hn c)

/-! ### What is found in a world -/

/-- The tests of the handles that are made for findings. -/
theorem Finding.tests_of_held {root : RootContext} {cells : List (Cell TestUnit Outcome)}
    {hs : List Handle} : ∀ {fs : List Finding},
      List.Forall₂ (HeldBy root cells) (fs.filter isTest) hs →
      hs.map Handle.test = fs.filterMap test? := by
  intro fs
  induction fs generalizing hs with
  | nil => intro h; cases h; rfl
  | cons f rest ih =>
    intro h
    -- every finding but a context has a handle
    have hrest : ∀ {d : Description} {k : Handle} {ks : List Handle}, k.test = d →
        List.Forall₂ (HeldBy root cells) (rest.filter isTest) ks →
        (k :: ks).map Handle.test = d :: rest.filterMap test? := by
      intro d k ks hd hks
      rw [List.map_cons, hd, ih hks]
    cases f with
    | context c => exact ih h
    | test d body => cases h with | cons hk hks => exact hrest hk.1 hks
    | pending d => cases h with | cons hk hks => exact hrest hk.1 hks
    | failed d c => cases h with | cons hk hks => exact hrest hk.1 hks

/-- The handles `hs` were made for the findings `fs` between two worlds. -/
structure World.Lists (r : RootContext) (v w : World) (fs : List Finding) (hs : List Handle) :
    Prop where
  adds : v.Adds w hs
  held : List.Forall₂ (Finding.HeldBy r w.cells) (fs.filter Finding.isTest) hs

namespace World.Lists

variable {r : RootContext} {u v w : World} {fs gs : List Finding} {hs ks : List Handle}

theorem trans (h : Lists r u v fs hs) (k : Lists r v w gs ks) :
    Lists r u w (fs ++ gs) (hs ++ ks) where
  adds := h.adds.trans k.adds
  held := by
    rw [List.filter_append]
    exact List.rel_append (h.held.imp fun _ _ hf => hf.mono k.adds.cells) k.held

theorem of_adds (h : v.Adds w []) : Lists r v w [] [] :=
  ⟨h, .nil⟩

theorem release (h : Lists r u v fs hs) {k : Handle} (hk : k ∈ hs) :
    Lists r u (v.release k) fs hs where
  adds := h.adds.release hk
  held := by
    rw [cells_release]
    exact h.held

theorem then_adds (h : Lists r u v fs hs) (k : v.Adds w []) : Lists r u w fs hs := by
  have := h.trans (of_adds (r := r) k)
  rwa [List.append_nil, List.append_nil] at this

end World.Lists

namespace RootContext

variable {r : RootContext} {p q : Plan}

/-- What discovery finds, if `q` is left of the plan `p`: what a scan finds, and behind it what is
found in contexts that were left.  If the root's builder fails there is only one scan, and the root
becomes a failed test in itself. -/
def findingsFrom (r : RootContext) (q : Plan) : List Finding :=
  q.first r.context false ++
    match q.failure? with
    | some c => [.failed ⟨r.context, r.name, r.location⟩ c]
    | none => q.rest r.context false

/-- What discovery of a plan finds. -/
def findings (r : RootContext) (p : Plan) : List Finding :=
  r.findingsFrom p

/-! ### One pass -/

/-- What one pass does, if `q` is left of the plan `p`. -/
structure Passes (r : RootContext) (p q : Plan) (t : Search) (w : World) (e : PassEnd) : Prop where
  ending : e.ending = p.buildEnding
  left : e.left = q.leaves false
  entered : e.search.entered
    = t.entered ++ (q.first r.context false).filterMap Finding.context?
  found : e.search.found = t.found ++ q.closed r.context false
  stands : e.search.Stands r.context p (q.after false)
  fatal : e.search.fatal = none
  unset : e.search.direct = none
  lists : ∃ hs, e.search.tests = t.tests ++ hs ∧ (∀ h, e.direct = some h → h ∈ hs) ∧
    World.Lists r w e.world (q.first r.context false) hs

theorem runPass_passes (h : r.builder.Declares p) (hd : p.Distinct) {t : Search} {w : World}
    (hw : p.CalmFor w.listener r.context) (ht : t.Stands r.context p q) (hfatal : t.fatal = none)
    (hdirect : t.direct = none) : r.Passes p q t w (r.runPass t w) := by
  let s : PassScope := ⟨r, ⟨r.index, w.book.invocations⟩, w.shelves.length⟩
  let x : Pass := r.opened t w
  have hx : x.Ready p q := ⟨ht, hd, fun _ _ hn => absurd hn List.not_mem_nil, hw⟩
  have k : Pass.Scans s x p q (r.builder.visit s x) := h.visit_scans rfl hx
  obtain ⟨hs, hg⟩ := k.grows
  have hadds : w.Adds (r.runPass t w).world hs := by
    -- a pass begins with a new shelf and ends with putting it back
    have hbegin : w.Adds x.world [] := World.adds_book rfl
    have hend : (r.builder.visit s x).state.world.Adds (r.runPass t w).world [] :=
      World.adds_book rfl
    have := hbegin.trans (hg.makes.toAdds.trans hend)
    rwa [List.nil_append, List.append_nil] at this
  -- the handles that were made are the ones that are listed
  obtain ⟨ks, hts, hheld⟩ := k.tests
  obtain rfl : ks = hs := List.append_cancel_left (hts.symm.trans hg.tests)
  constructor
  · exact k.ending
  · exact k.left
  · exact k.entered
  · exact k.found
  · exact k.stands.congr fun _ _ _ _ => ⟨Iff.rfl, rfl⟩
  · exact k.fatal.trans hfatal
  · rfl
  · refine ⟨ks, hts, ?_, hadds, hheld⟩
    intro d hd
    refine (hg.direct d hd).resolve_left fun hn => ?_
    rw [show x.search.direct = none from hdirect] at hn
    cases hn

/-! ### All passes -/

/-- The listener does not panic at what discovery of a plan tells it. -/
structure CalmFor (r : RootContext) (p : Plan) (l : Listener) : Prop where
  inside : p.CalmFor l r.context
  root : p.fails = true →
    ∀ f, l.panic? (.finished ⟨⟨r.context, r.name, r.location⟩, .failed f⟩) = none

theorem calmFor_of_calm {l : Listener} (h : l.Calm) : r.CalmFor p l :=
  ⟨Plan.calmFor_of_calm h p _, fun _ _ => h _⟩

theorem fatal?_eq_none {e : PassEnd} (he : e.ending = p.buildEnding) (hf : e.search.fatal = none) :
    fatal? e = none := by
  rw [fatal?, he, hf, Plan.buildEnding]
  cases p.ending <;> rfl

theorem failure?_buildEnding (p : Plan) :
    failure? p.buildEnding = p.failure?.map (.ofCause .contextBuild) := by
  rw [Plan.buildEnding, Plan.failure?]
  cases p.ending <;> rfl

/-- Where contexts are sorted: the listing of discovery. -/
def listing (r : RootContext) (s : Search) : List Context :=
  r.context :: s.foundInOrder.mergeSort fun a b => a.location.le b.location

/-- What discovery does from a pass on, if `q` is left. -/
structure Discovers (r : RootContext) (q : Plan) (t : Search) (w : World) (d : Discovery)
    (v : World) : Prop where
  lists : ∃ hs, d.tests = t.tests ++ hs ∧ World.Lists r w v (r.findingsFrom q) hs
  contexts : ∃ s : Search, d.contexts = r.listing s ∧
    s.entered = t.entered ++ (r.findingsFrom q).filterMap Finding.context? ∧
    (∀ k ∈ t.found, k ∈ s.found) ∧ (q.Sound → ∀ k ∈ q.contexts r.context, k ∈ s.found)

theorem finish_discovers {t s : Search} {w v : World} (passes : Nat) {hs : List Handle}
    (hleft : q.failure? = none → q.leaves false = false)
    (htests : s.tests = t.tests ++ hs)
    (hentered : s.entered = t.entered ++ (q.first r.context false).filterMap Finding.context?)
    (hfound : s.found = t.found ++ q.closed r.context false)
    (hl : World.Lists r w v (r.findingsFrom q) hs) :
    ∃ d v', r.finish passes s v = (.ok (.ok d), v') ∧ r.Discovers q t w d v' := by
  refine ⟨_, _, rfl, ⟨hs, htests, hl.then_adds ((World.Adds.refl v).trace _ _ _)⟩, s, rfl,
    ?_, ?_, ?_⟩
  · rw [hentered, findingsFrom]
    cases hq : q.failure? with
    | some c => simp [Finding.context?]
    | none => simp [Plan.rest_of_not_leaves q (hleft hq)]
  · intro k hk
    rw [hfound]
    exact List.mem_append_left _ hk
  · intro hsound k hk
    -- nothing was left, so each context was finished
    have hq := hleft (Plan.failure?_eq_none.mpr hsound.ending)
    rw [hfound]
    rcases hsound.mem_closed_or_after false hk with hc | hc
    · exact List.mem_append_right _ hc
    · rw [Plan.after_of_not_leaves q hq] at hc
      exact absurd hc List.not_mem_nil

theorem finishFailed_discovers {t s : Search} {w v : World} (passes : Nat) {hs : List Handle}
    {c : Cause} (notes : List TeardownError) (hq : q.failure? = some c)
    (hv : ∀ f, v.listener.panic? (.finished ⟨⟨r.context, r.name, r.location⟩, .failed f⟩) = none)
    (htests : s.tests = t.tests ++ hs)
    (hentered : s.entered = t.entered ++ (q.first r.context false).filterMap Finding.context?)
    (hfound : s.found = t.found ++ q.closed r.context false)
    (hl : World.Lists r w v (q.first r.context false) hs) :
    ∃ d v', r.finishFailed passes ⟨.contextBuild, c, notes⟩ s v = (.ok (.ok d), v') ∧
      r.Discovers q t w d v' := by
  let o : Outcome := ⟨⟨r.context, r.name, r.location⟩, .failed ⟨.contextBuild, c, notes⟩⟩
  let h : Handle := ⟨o.test, v.cells.length⟩
  have hc : v.completed o = (.ok h, (v.completed o).2) := by
    rw [World.completed_calm (hv _)]
  have hadds : v.Adds (v.completed o).2 [h] := by
    rcases World.makes_completed v o with ⟨x, hx, -⟩ | ⟨k, hk, hm⟩
    · rw [hc] at hx
      cases hx
    · rw [hc] at hk
      cases hk
      exact hm.toAdds
  have hheld : Finding.HeldBy r (v.completed o).2.cells
      (.failed ⟨r.context, r.name, r.location⟩ c) h := by
    refine ⟨rfl, notes, ?_⟩
    rw [World.cells_completed (hv _)]
    exact List.getElem?_concat_length
  -- the root itself is the last test
  have hlast : World.Lists r w (v.completed o).2 (r.findingsFrom q) (hs ++ [h]) := by
    rw [findingsFrom, hq]
    exact hl.trans ⟨hadds, .cons hheld .nil⟩
  rw [finishFailed, hc]
  refine finish_discovers passes (fun hn => ?_) ?_ hentered hfound hlast
  · rw [hq] at hn
    cases hn
  · rw [← List.append_assoc, ← htests]

/-- A pass and discovery behind it. -/
theorem Passes.discovers {t s : Search} {w v u : World} {e : PassEnd} {d : Discovery}
    {hs : List Handle} (k : r.Passes p q t w e) (hq : q.failure? = none)
    (htests : s.tests = t.tests ++ hs) (hentered : s.entered = e.search.entered)
    (hfound : s.found = e.search.found) (hl : World.Lists r w v (q.first r.context false) hs)
    (hd : r.Discovers (q.after false) s v d u) : r.Discovers q t w d u := by
  have hrest : r.findingsFrom q = q.first r.context false ++ r.findingsFrom (q.after false) := by
    rw [findingsFrom, findingsFrom, Plan.failure?_after, hq]
    exact congrArg _ (q.rest_eq r.context false)
  constructor
  · obtain ⟨ks, hks, hk⟩ := hd.lists
    refine ⟨hs ++ ks, by rw [hks, htests, List.append_assoc], ?_⟩
    rw [hrest]
    exact hl.trans hk
  · obtain ⟨s', hcs, he, hf, hall⟩ := hd.contexts
    refine ⟨s', hcs, ?_, ?_, ?_⟩
    · rw [he, hentered, k.entered, hrest, List.filterMap_append, List.append_assoc]
    · intro c hc
      apply hf
      rw [hfound, k.found]
      exact List.mem_append_left _ hc
    · intro hsound c hc
      -- finished by this pass, or left by it and finished later
      rcases hsound.mem_closed_or_after false hc with hc | hc
      · apply hf
        rw [hfound, k.found]
        exact List.mem_append_right _ hc
      · exact hall (hsound.after false) c hc

/-- The root's builder failed in a pass: discovery ends behind it. -/
theorem Passes.discovers_failed {t : Search} {w : World} {e : PassEnd} {c : Cause}
    (k : r.Passes p q t w e) (hq : q.failure? = some c)
    (hw : ∀ f, w.listener.panic? (.finished ⟨⟨r.context, r.name, r.location⟩, .failed f⟩) = none)
    (passes : Nat) : ∃ d v, r.concludeFailed passes (.ofCause .contextBuild c) e = (.ok (.ok d), v) ∧
      r.Discovers q t w d v := by
  obtain ⟨hs, htests, hdirect, hl⟩ := k.lists
  rw [concludeFailed]
  cases hed : e.direct with
  | some h =>
    -- the direct test owns what was registered
    have hrel := hl.release (hdirect h hed)
    refine finishFailed_discovers _ [] hq ?_ htests k.entered k.found hrel
    rw [hrel.adds.listener]
    exact hw
  | none =>
    have hclose := hl.then_adds (e.world.adds_closeShelf e.shelf)
    refine finishFailed_discovers _ _ hq ?_ htests k.entered k.found hclose
    rw [hclose.adds.listener]
    exact hw

/-- **The passes that are left find what is left.**  By induction on the fuel, which is always
more than the size of what is left. -/
theorem discoverFrom_discovers (h : r.builder.Declares p) (hd : p.Distinct) :
    ∀ (fuel passes : Nat) (q : Plan) (t : Search) (w : World), q.size < fuel →
      r.CalmFor p w.listener → t.Stands r.context p q → t.fatal = none → t.direct = none →
      ∃ d v, r.discoverFrom fuel passes t w = (.ok (.ok d), v) ∧ r.Discovers q t w d v := by
  intro fuel
  induction fuel with
  | zero =>
    intro passes q t w hfuel
    exact absurd hfuel (Nat.not_lt_zero _)
  | succ fuel ih =>
    intro passes q t w hfuel hw ht hfatal hdirect
    have k := runPass_passes h hd hw.inside ht hfatal hdirect
    have hqp : q.failure? = p.failure? := by rw [Plan.failure?, Plan.failure?, ht.ending]
    rw [discoverFrom]
    generalize r.runPass t w = e at k
    have hnone : fatal? e = none := fatal?_eq_none k.ending k.fatal
    have hfailure : failure? e.ending = p.failure?.map (.ofCause .contextBuild) := by
      rw [k.ending, failure?_buildEnding]
    cases hf : p.failure? with
    | some c =>
      rw [hf] at hfailure
      rw [conclude?_of_failure hnone hfailure]
      have hcalm := hw.root (by rw [Plan.fails, hf]; rfl)
      exact k.discovers_failed (hqp.trans hf) hcalm _
    | none =>
      rw [hf] at hqp hfailure
      obtain ⟨hs, htests, hdir, hl⟩ := k.lists
      have hbehind : World.Lists r w (r.behind e) (q.first r.context false) hs := by
        rw [behind]
        cases hed : e.direct with
        | some h => exact hl.release (hdir h hed)
        | none => exact hl.then_adds (e.world.adds_closeWarning ..)
      cases hleft : q.leaves false with
      | true =>
        rw [conclude?_of_left hnone hfailure (k.left.trans hleft)]
        have hsize := Plan.size_after_lt_of_leaves hleft
        obtain ⟨d, v, hdv, hk⟩ := ih (passes + 1) (q.after false) (r.handOn e) (r.behind e)
          (by omega) (by rw [hbehind.adds.listener]; exact hw)
          (k.stands.congr fun _ _ _ _ => ⟨Iff.rfl, rfl⟩) k.fatal k.unset
        exact ⟨d, v, hdv, Passes.discovers (s := r.handOn e) k hqp htests rfl rfl hbehind hk⟩
      | false =>
        rw [conclude?_of_finished hnone hfailure (k.left.trans hleft)]
        refine finish_discovers _ (fun _ => hleft) htests k.entered k.found ?_
        rw [findingsFrom, hqp, Plan.rest_of_not_leaves q hleft, List.append_nil]
        exact hbehind

/-- Discovery of a builder that declares a plan ends with a result. -/
theorem discover_discovers (h : r.builder.Declares p) (hd : p.Distinct) {w : World}
    (hw : r.CalmFor p w.listener) :
    ∃ d v, r.discover w = (.ok (.ok d), v) ∧ r.Discovers p {} w d v :=
  discoverFrom_discovers h hd _ 0 p {} w (Nat.lt_succ_of_le h.size_le) hw
    (Search.stands_new h.isNew _) rfl rfl

/-- **Discovery lists exactly the tests of the plan, in the order in which a first scan and then the
contexts that it left are found; each test has a handle of its own.** -/
theorem discover_finds (h : r.builder.Declares p) (hd : p.Distinct) {w : World}
    (hw : w.listener.Calm) :
    ∃ d v, r.discover w = (.ok (.ok d), v) ∧
      d.tests.map Handle.test = (r.findings p).filterMap Finding.test? ∧
      List.Forall₂ (Finding.HeldBy r v.cells) ((r.findings p).filter Finding.isTest) d.tests := by
  obtain ⟨d, v, hdv, k⟩ := discover_discovers h hd (calmFor_of_calm hw)
  obtain ⟨hs, hts, hl⟩ := k.lists
  rw [List.nil_append] at hts
  subst hts
  exact ⟨d, v, hdv, Finding.tests_of_held hl.held, hl.held⟩

end RootContext

/-! ### A small root -/

/-- A root with a test, a context that fails behind a test of its own, and one more context. -/
def smallRoot : RootContext :=
  ⟨0, "root", false, .site 0,
    .test "a" (.site 1) .done false <|
    .context "broken" (.site 2)
      (.test "b" (.site 3) (.nameSelf .done) false <| .basic (.fail ⟨.text "no", .sorted⟩) .done)
      false <|
    .context "late" (.site 4) (.test "c" (.site 5) (.nameSelf .done) false .done) false .done⟩

/-- What the small root declares. -/
def smallPlan : Plan :=
  .test "a" (.site 1) .done <|
  .context "broken" (.site 2) false
    (.test "b" (.site 3) (.nameSelf .done) (.stop (.failed (.text "no")))) <|
  .context "late" (.site 4) false (.test "c" (.site 5) (.nameSelf .done) (.stop .finished)) <|
  .stop .finished

theorem smallRoot_declares : smallRoot.builder.Declares smallPlan :=
  .test (.context (.test (.fail rfl)) (.context (.test .done) .done))

theorem smallPlan_distinct : smallPlan.Distinct := by
  simp [smallPlan, Plan.Distinct, Plan.names]

/-- The tests of the small root: the direct ones of three passes and a context that failed. -/
theorem discover_finds_smallRoot :
    ∃ d v, smallRoot.discover (.fresh (.held 1) .silent .lazy) = (.ok (.ok d), v) ∧
      d.tests.map (fun h => h.test.path)
        = [["root", "a"], ["root", "broken", "b"], ["root", "broken"], ["root", "late", "c"]] := by
  obtain ⟨d, v, hd, ht, -⟩ := RootContext.discover_finds smallRoot_declares smallPlan_distinct
    (w := .fresh (.held 1) .silent .lazy) (fun _ => rfl)
  refine ⟨d, v, hd, ?_⟩
  rw [show d.tests.map (fun h => h.test.path)
    = (d.tests.map Handle.test).map Description.path by rw [List.map_map]; rfl, ht]
  rfl

end TestTree

/-
How many passes a discovery takes, and how it ends.

* `RootContext.Begins` : the passes of a discovery, each with what it is given;
* `Builder.paths` : everything that a builder can declare;
* `Builder.visitServed_progress`, `visit_progress` : a visit that leaves contexts has processed
  something new, whether workers come in between or not;
* `RootContext.discover_resumes` : every pass that begins is followed by the rest of the discovery;
* `RootContext.Begins.tests_isPrefix` : later passes keep the handles of earlier ones;
* `RootContext.discover_ends` : **a discovery ends behind one of its passes, in one of four ways**.

## Design notes

A pass that leaves a context has met a test, and the first test that it met was new.  So what is
processed grows until no pass leaves anything, and there is less to process than the fuel of
`RootContext.discover`, which never runs out.
-/
import TestTree.Proofs.Ownership

namespace TestTree

/-! ### The passes of a discovery -/

namespace RootContext

/-- Behind `n` passes over the builder of `r`, which began in the world `w₀`, there is another one,
and this is what it begins with. -/
inductive Begins (r : RootContext) (w₀ : World) : (n : Nat) → Search → World → Prop
  | first : Begins r w₀ 0 {} w₀
  | next {n : Nat} {search : Search} {w : World} (h : Begins r w₀ n search w)
      (hf : fatal? (r.runPass search w) = none)
      (he : failure? (r.runPass search w).ending = none)
      (hl : (r.runPass search w).left = true) :
      Begins r w₀ (n + 1) (r.handOn (r.runPass search w)) (r.behind (r.runPass search w))

/-- What is told of `n` passes that follow each other, given what is told of each. -/
def along {α : Type} (r : RootContext) (f : Search → World → List α) :
    (n : Nat) → Search → World → List α
  | 0, _, _ => []
  | n + 1, search, w =>
    f search w ++ r.along f n (r.handOn (r.runPass search w)) (r.behind (r.runPass search w))

theorem Begins.along_add {α : Type} {r : RootContext} {w₀ w : World} {n : Nat} {search : Search}
    (h : r.Begins w₀ n search w) (f : Search → World → List α) :
    ∀ m, r.along f (n + m) {} w₀ = r.along f n {} w₀ ++ r.along f m search w := by
  induction h with
  | first => intro m; rw [Nat.zero_add]; rfl
  | @next n search w _ _ _ _ ih =>
    intro m
    have hone : r.along f (n + 1) {} w₀ = r.along f n {} w₀ ++ f search w := by
      rw [ih 1, along, along, List.append_nil]
    rw [Nat.add_right_comm, Nat.add_assoc, ih (m + 1), hone, List.append_assoc]
    rfl

/-- The pass that begins behind `n` others is told of behind them. -/
theorem Begins.along_succ {α : Type} {r : RootContext} {w₀ w : World} {n : Nat} {search : Search}
    (h : r.Begins w₀ n search w) (f : Search → World → List α) :
    r.along f (n + 1) {} w₀ = r.along f n {} w₀ ++ f search w := by
  rw [h.along_add f 1, along, along, List.append_nil]

/-- What a discovery does behind its last pass, which ended as `e` and was number `n`. -/
inductive Ends (r : RootContext) (n : Nat) (e : PassEnd) :
    Except Payload (Except StructuralError Discovery) × World → Prop
  | aborted {error : StructuralError} (hf : fatal? e = some error) : Ends r n e (r.abort e error)
  | failedDirect {failure : Failure} {h : Handle} (hf : fatal? e = none)
      (he : failure? e.ending = some failure) (hd : e.direct = some h) :
      Ends r n e (r.finishFailed n failure e.search (e.world.release h))
  | failedSwept {failure : Failure} (hf : fatal? e = none) (he : failure? e.ending = some failure)
      (hd : e.direct = none) :
      Ends r n e (r.finishFailed n (failure.withTeardown (e.world.closeShelf e.shelf).1) e.search
        (e.world.closeShelf e.shelf).2)
  | finished (hf : fatal? e = none) (he : failure? e.ending = none) (hl : e.left = false) :
      Ends r n e (r.finish n (r.handOn e) (r.behind e))

/-- Behind a pass without an error there is nothing but the result. -/
theorem Ends.eq_finish {r : RootContext} {n : Nat} {e : PassEnd}
    {res : Except Payload (Except StructuralError Discovery) × World} (h : r.Ends n e res)
    (hf : fatal? e = none) (he : failure? e.ending = none) :
    e.left = false ∧ res = r.finish n (r.handOn e) (r.behind e) := by
  cases h with
  | aborted hf' =>
    rw [hf] at hf'
    cases hf'
  | failedDirect _ he' _ =>
    rw [he] at he'
    cases he'
  | failedSwept _ he' _ =>
    rw [he] at he'
    cases he'
  | finished _ _ hl => exact ⟨hl, rfl⟩

/-- Behind a pass discovery ends in one of four ways, or another pass follows. -/
theorem conclude?_cases (r : RootContext) (n : Nat) (e : PassEnd) :
    (fatal? e = none ∧ failure? e.ending = none ∧ e.left = true ∧ r.conclude? n e = none) ∨
      ∃ res, r.conclude? n e = some res ∧ r.Ends n e res := by
  cases hf : fatal? e with
  | some error => exact .inr ⟨_, conclude?_of_fatal hf, .aborted hf⟩
  | none =>
    cases he : failure? e.ending with
    | some failure =>
      refine .inr ⟨_, conclude?_of_failure hf he, ?_⟩
      rw [concludeFailed]
      cases hd : e.direct with
      | some h => exact .failedDirect hf he hd
      | none => exact .failedSwept hf he hd
    | none =>
      cases hl : e.left with
      | true => exact .inl ⟨rfl, rfl, rfl, conclude?_of_left hf he hl⟩
      | false => exact .inr ⟨_, conclude?_of_finished hf he hl, .finished hf he hl⟩

/-- One pass of a discovery: it is the last one, or others follow. -/
theorem discoverFrom_succ (r : RootContext) (fuel passes : Nat) (search : Search) (w : World) :
    let e := r.runPass search w
    (fatal? e = none ∧ failure? e.ending = none ∧ e.left = true ∧
        r.discoverFrom (fuel + 1) passes search w
          = r.discoverFrom fuel (passes + 1) (r.handOn e) (r.behind e)) ∨
      r.Ends (passes + 1) e (r.discoverFrom (fuel + 1) passes search w) := by
  intro e
  rw [discoverFrom]
  rcases r.conclude?_cases (passes + 1) e with ⟨hf, he, hl, hnone⟩ | ⟨res, hsome, hends⟩
  · rw [show r.conclude? (passes + 1) (r.runPass search w) = none from hnone]
    exact .inl ⟨hf, he, hl, rfl⟩
  · rw [show r.conclude? (passes + 1) (r.runPass search w) = some res from hsome]
    exact .inr hends

end RootContext

/-! ### Progress -/

/-- The paths of everything that a builder can declare in the context with the path `c`. -/
def Builder.paths (c : NamePath) : Builder → List NamePath
  | done => []
  | basic _ next => next.paths c
  | branch _ yes no next => yes.paths c ++ no.paths c ++ next.paths c
  | autoClose _ _ next => next.paths c
  | deferClose _ next => next.paths c
  | test name _ _ _ next => (c ++ [name]) :: next.paths c
  | context name _ inner _ next => (c ++ [name]) :: (inner.paths (c ++ [name]) ++ next.paths c)
  | pending name _ _ next => (c ++ [name]) :: next.paths c
  | afterSuite _ next => next.paths c
  | logCurrent next => next.paths c

theorem Builder.length_paths (b : Builder) : ∀ c, (b.paths c).length = b.declarations := by
  induction b with
  | done => intro c; rfl
  | basic b next ih => intro c; exact ih c
  | branch c yes no next ihy ihn ih =>
    intro p
    simp only [paths, declarations, List.length_append, ihy, ihn, ih]
  | autoClose r close next ih => intro c; exact ih c
  | deferClose close next ih => intro c; exact ih c
  | test name site body swallow next ih =>
    intro c
    simp only [paths, declarations, List.length_cons, ih]
  | context name site inner swallow next ihi ih =>
    intro c
    simp only [paths, declarations, List.length_cons, List.length_append, ihi, ih]
  | pending name site swallow next ih =>
    intro c
    simp only [paths, declarations, List.length_cons, ih]
  | afterSuite callback next ih => intro c; exact ih c
  | logCurrent next ih => intro c; exact ih c

/-- The node of a name has the path of the name. -/
theorem Search.path_intern (s : Search) (place : Place) (site : Location) :
    (s.intern place site).1.path = place.path := by
  rw [intern]
  split
  · rename_i h
    have hp := List.find?_some h
    exact beq_iff_eq.mp hp
  · rfl

namespace Pass

/-- A part of the visit of a context, which can declare `ps`, goes from `x` to `y`. -/
structure Progress (ps : List NamePath) (x y : Pass) : Prop where
  context : y.visit.context = x.visit.context
  processed : x.search.processed ⊆ y.search.processed
  keep : x.visit.ran = true → y.visit.ran = true
  /-- The first test that is met, or the first context that fails, is new. -/
  ran : y.visit.ran = true → x.visit.ran = true ∨
    ∃ path ∈ ps, path ∉ x.search.processed ∧ path ∈ y.search.processed
  left : y.visit.left = true → x.visit.left = true ∨ y.visit.ran = true

variable {s : PassScope} {x y z : Pass} {ps qs : List NamePath}

theorem Progress.trans (h : x.Progress ps y) (k : y.Progress qs z) : x.Progress (ps ++ qs) z where
  context := k.context.trans h.context
  processed := List.Subset.trans h.processed k.processed
  keep hx := k.keep (h.keep hx)
  ran hz := by
    rcases k.ran hz with hy | ⟨path, hq, hny, hpz⟩
    · rcases h.ran hy with hx | ⟨path, hp, hnx, hpy⟩
      · exact .inl hx
      · exact .inr ⟨path, List.mem_append_left _ hp, hnx, k.processed hpy⟩
    · exact .inr ⟨path, List.mem_append_right _ hq, fun hx => hny (h.processed hx), hpz⟩
  left hz := by
    rcases k.left hz with hy | hran
    · exact (h.left hy).imp_right k.keep
    · exact .inr hran

theorem Progress.mono (h : x.Progress ps y) (hps : ps ⊆ qs) : x.Progress qs y where
  context := h.context
  processed := h.processed
  keep := h.keep
  ran hy := (h.ran hy).imp_right fun ⟨path, hp, hpath⟩ => ⟨path, hps hp, hpath⟩
  left := h.left

/-- A step that meets no test and leaves no context. -/
theorem progress_of_eq (hc : y.visit.context = x.visit.context)
    (hp : x.search.processed ⊆ y.search.processed) (hr : y.visit.ran = x.visit.ran)
    (hl : y.visit.left = x.visit.left) : x.Progress ps y :=
  ⟨hc, hp, fun h => by rwa [hr], fun h => .inl (by rwa [← hr]), fun h => .inl (by rwa [← hl])⟩

theorem Progress.refl (x : Pass) : x.Progress ps x :=
  progress_of_eq rfl (List.Subset.refl _) rfl rfl

theorem progress_closet (x : Pass) (c : Closet Closure) : x.Progress [] (x.withCloset c) :=
  progress_of_eq rfl (List.Subset.refl _) rfl rfl

/-- A step that processes a new name, and counts it as a test that was met. -/
theorem progress_new {name : String} (hc : y.visit.context = x.visit.context)
    (hn : ¬ x.isProcessed name = true) (hs : x.search.processed ⊆ y.search.processed)
    (hp : x.visit.context.path ++ [name] ∈ y.search.processed) (hr : y.visit.ran = true)
    (hps : x.visit.context.path ++ [name] ∈ ps) : x.Progress ps y :=
  ⟨hc, hs, fun _ => hr, fun _ => .inr ⟨_, hps, fun h => hn (isProcessed_iff.mpr h), hp⟩,
    fun _ => .inr hr⟩

/-- A handle for a known outcome leaves everything else as it is. -/
theorem complete_same (x : Pass) (o : Outcome) : (x.complete o).state.visit = x.visit ∧
    (x.complete o).state.search.processed = x.search.processed := by
  rw [complete]
  split <;> exact ⟨rfl, rfl⟩

theorem progress_declareTest (name : String) (site : Location) (body : Body)
    (hps : x.visit.context.path ++ [name] ∈ ps) :
    x.Progress ps (x.declareTest s name site body).state := by
  by_cases hname : name ∈ x.visit.names
  · rw [declareTest_taken hname]
    exact progress_of_eq rfl (List.Subset.refl _) rfl rfl
  by_cases hp : x.isProcessed name = true
  · rw [declareTest_processed hname hp]
    exact progress_of_eq rfl (List.Subset.refl _) rfl rfl
  by_cases hran : x.visit.ran = true
  · rw [declareTest_replayed hname hp hran]
    exact progress_of_eq rfl (List.subset_append_left _ _) rfl rfl
  · rw [declareTest_direct hname hp hran]
    exact progress_new rfl hp (List.subset_append_left _ _)
      (List.mem_append_right _ List.mem_cons_self) rfl hps

theorem progress_declarePending (name : String) (site : Location) :
    x.Progress ps (x.declarePending name site).state := by
  by_cases hname : name ∈ x.visit.names
  · rw [declarePending_taken hname]
    exact progress_of_eq rfl (List.Subset.refl _) rfl rfl
  by_cases hp : x.isProcessed name = true
  · rw [declarePending_processed hname hp]
    exact progress_of_eq rfl (List.Subset.refl _) rfl rfl
  · rw [declarePending_new hname hp]
    obtain ⟨hv, hpr⟩ := complete_same ((x.within (x.parentVisit name)).process name)
      ⟨⟨x.visit.context, name, site⟩, .pending⟩
    have hc := congrArg Visit.context hv
    have hr := congrArg Visit.ran hv
    have hl := congrArg Visit.left hv
    refine progress_of_eq hc ?_ hr hl
    rw [hpr]
    exact List.subset_append_left _ _

/-- A context that is not entered is left at most, behind a test. -/
theorem progress_outside {name : String} {site : Location} {r : Ran BuildError Pass}
    (hr : x.enter? s name site = .inl r) : x.Progress ps r.state := by
  by_cases hname : name ∈ x.visit.names
  · rw [enter?_taken hname] at hr
    cases hr
    exact progress_of_eq rfl (List.Subset.refl _) rfl rfl
  by_cases hp : x.isProcessed name = true
  · rw [enter?_processed hname hp] at hr
    cases hr
    exact progress_of_eq rfl (List.Subset.refl _) rfl rfl
  by_cases hran : x.visit.ran = true
  · rw [enter?_skipped hname hp hran] at hr
    cases hr
    exact ⟨rfl, List.Subset.refl _, id, .inl, fun _ => .inr hran⟩
  · rw [enter?_new hname hp hran] at hr
    cases hr

/-- A context that is entered begins without a test that was met, and without one that was left. -/
theorem entered_eq {name : String} {site : Location} (hy : x.enter? s name site = .inr y) :
    y.visit.context.path = x.visit.context.path ++ [name] ∧
      y.search.processed = x.search.processed ∧ y.visit.ran = false ∧ y.visit.left = false := by
  obtain ⟨hname, hp, hran⟩ := of_entered hy
  rw [enter?_new hname hp hran] at hy
  cases hy
  obtain ⟨_, hs⟩ := x.search.intern_entered (x.place name) site
  have hprocessed := congrArg Search.processed hs
  exact ⟨x.search.path_intern _ _, hprocessed, rfl, rfl⟩

/-- A context that failed counts as a test that was met, unless the listener panics. -/
theorem progress_fails {name : String} {site : Location} {failure : Failure}
    (hn : ¬ x.isProcessed name = true) (hc : y.visit.context = x.visit.context)
    (hs : x.search.processed ⊆ y.search.processed) (hr : y.visit.ran = x.visit.ran)
    (hl : y.visit.left = x.visit.left) (hps : x.visit.context.path ++ [name] ∈ ps) :
    x.Progress ps (y.fails name site failure).state := by
  obtain ⟨hv, hp⟩ := y.complete_same ⟨⟨y.visit.context, name, site⟩, .failed failure⟩
  rw [fails]
  generalize y.complete ⟨⟨y.visit.context, name, site⟩, .failed failure⟩ = c at hv hp ⊢
  obtain ⟨ending, z⟩ := c
  have hz : z.visit = y.visit := hv
  have hpz : z.search.processed = y.search.processed := hp
  have hzc : z.visit.context = x.visit.context := (congrArg Visit.context hz).trans hc
  have hzs : x.search.processed ⊆ z.search.processed := by
    rw [hpz]
    exact hs
  have hsame : x.Progress ps z :=
    progress_of_eq hzc hzs ((congrArg Visit.ran hz).trans hr) ((congrArg Visit.left hz).trans hl)
  cases ending with
  | finished =>
    refine progress_new hzc hn ?_ ?_ rfl hps
    · exact List.Subset.trans hzs (List.subset_append_left _ _)
    · rw [← hzc]
      exact List.mem_append_right _ List.mem_cons_self
  | failed e => exact hsame
  | panicked p => exact hsame

/-- A context is left: what was met inside is new for the context around it as well. -/
theorem progress_leave {name : String} {site : Location} {r : Ran BuildError Pass}
    (hy : x.enter? s name site = .inr y) (h : y.Progress ps r.state)
    (hps : x.visit.context.path ++ [name] ∈ ps) (mark : Nat) :
    x.Progress ps (leave (x.parentVisit name) name site mark r).state := by
  obtain ⟨-, hn, -⟩ := of_entered hy
  obtain ⟨-, hyp, hyr, hyl⟩ := entered_eq hy
  have hs : x.search.processed ⊆ r.state.search.processed := by
    rw [← hyp]
    exact h.processed
  -- what a context leaves behind that failed
  have hfailed : ∀ failure, x.Progress ps
      (leaveFailed name site mark failure (r.state.within (x.parentVisit name))).state := by
    intro failure
    by_cases hd : (r.state.within (x.parentVisit name)).search.direct.isSome = true
    · rw [leaveFailed_owned hd]
      exact progress_fails hn rfl hs rfl rfl hps
    · rw [leaveFailed_swept hd]
      exact progress_fails hn rfl hs rfl rfl hps
  rw [leave]
  rcases r.ending with _ | (e | c) | p
  · let v := r.state.visit
    let z := (r.state.within (x.parentVisit name)).leaveFinished name v
    show x.Progress ps z
    have hv : z.visit = { x.parentVisit name with
        ran := x.visit.ran || v.ran, left := x.visit.left || v.left } :=
      visit_leaveFinished (r.state.within (x.parentVisit name)) name v
    have hp : r.state.search.processed ⊆ z.search.processed := by
      rw [show z.search.processed = _ from processed_leaveFinished _ _ _]
      exact List.subset_append_left _ _
    have hran :
    v.ran = true → ∃ path ∈ ps, path ∉ x.search.processed ∧ path ∈ z.search.processed := by
      intro hv
      rcases h.ran hv with hy' | ⟨path, hpath, hny, hpr⟩
      · rw [hyr] at hy'
        cases hy'
      · rw [hyp] at hny
        exact ⟨path, hpath, hny, hp hpr⟩
    refine ⟨by rw [hv]; rfl, List.Subset.trans hs hp, fun hx => by simp [hv, hx], fun hz => ?_,
      fun hz => ?_⟩
    · rw [hv, Bool.or_eq_true] at hz
      exact hz.imp_right hran
    · rw [hv, Bool.or_eq_true] at hz
      rcases hz with hz | hz
      · exact .inl hz
      · -- a context in which something was left has met a test
        rcases h.left hz with hy' | hy'
        · rw [hyl] at hy'
          cases hy'
        · refine .inr ?_
          rw [hv]
          simp [v, hy']
  · exact progress_of_eq rfl hs rfl rfl
  · exact hfailed _
  · exact hfailed _

/-- One part of a visit, and the rest behind it if it finished. -/
theorem Progress.andThen {r : Ran BuildError Pass} {next : Pass → Ran BuildError Pass}
    (h : x.Progress ps r.state)
    (hn : ∀ y : Pass, y.visit.context = x.visit.context → y.Progress qs (next y).state) :
    x.Progress (ps ++ qs) (r.andThen next).state := by
  by_cases hr : r.ending = .finished
  · obtain ⟨_, y⟩ := r
    cases hr
    exact h.trans (hn y h.context)
  · rw [Ran.andThen_of_ne hr]
    exact h.mono (List.subset_append_left _ _)

end Pass

/-- **A visit that leaves contexts, or meets a test, has processed something new**, unless a test
had been met before.  Workers change nothing that a pass has processed or met. -/
theorem Builder.visitServed_progress {s : PassScope} (turns : Builder → Pass → Nat) (b : Builder) :
    ∀ (x : Pass), x.Progress (b.paths x.visit.context.path) (b.visitServed turns s x).state := by
  have hturn : ∀ (n : Nat) (x : Pass), x.Progress [] (x.served n) := fun n x =>
    Pass.progress_of_eq rfl (List.Subset.refl _) rfl rfl
  induction b with
  | done => exact fun x => (hturn _ x).mono (List.nil_subset _)
  | basic b next ih =>
    intro x
    let y := x.served (turns (.basic b next) x)
    have hy : y.Progress [] (y.perform s.scope b).state := by
      rw [y.state_perform]
      exact y.progress_closet _
    exact ((hturn _ x).trans hy).andThen fun z hz => hz ▸ ih z
  | branch c yes no next ihy ihn ih =>
    intro x
    let y := x.served (turns (.branch c yes no next) x)
    have hy : y.Progress (yes.paths x.visit.context.path ++ no.paths x.visit.context.path)
        (if y.world.book.holds s.scope c then yes.visitServed turns s y
          else no.visitServed turns s y).state := by
      split
      · exact (ihy y).mono (List.subset_append_left _ _)
      · exact (ihn y).mono (List.subset_append_right _ _)
    exact ((hturn _ x).trans hy).andThen fun z hz => hz ▸ ih z
  | autoClose r close next ih =>
    intro x
    let y := x.served (turns (.autoClose r close next) x)
    exact ((hturn _ x).trans (y.progress_closet _)).trans
      (ih (y.withCloset (y.closet.autoClose r ⟨close, s.scope⟩)))
  | deferClose close next ih =>
    intro x
    let y := x.served (turns (.deferClose close next) x)
    exact ((hturn _ x).trans (y.progress_closet _)).trans
      (ih (y.withCloset (y.closet.deferClose ⟨close, s.scope⟩)))
  | test name site body swallow next ih =>
    intro x
    let y := x.served (turns (.test name site body swallow next) x)
    have hy : y.Progress [x.visit.context.path ++ [name]]
        ((y.declareTest s name site body).swallowing swallow).state := by
      rw [Ran.state_swallowing]
      exact Pass.progress_declareTest name site body List.mem_cons_self
    exact ((hturn _ x).trans hy).andThen fun z hz => hz ▸ ih z
  | context name site inner swallow next ihi ih =>
    intro x
    let y := x.served (turns (.context name site inner swallow next) x)
    let c := y.visit.context.path ++ [name]
    refine ((hturn _ x).trans (show y.Progress (c :: inner.paths c) _ from ?_)).andThen
      fun z hz => hz ▸ ih z
    rw [Ran.state_swallowing]
    cases henter : y.enter? s name site with
    | inl r => exact Pass.progress_outside henter
    | inr z =>
      have hi := ihi z
      rw [(Pass.entered_eq henter).1] at hi
      exact Pass.progress_leave henter (hi.mono (List.subset_cons_self _ _)) List.mem_cons_self _
  | pending name site swallow next ih =>
    intro x
    let y := x.served (turns (.pending name site swallow next) x)
    have hy : y.Progress [x.visit.context.path ++ [name]]
        ((y.declarePending name site).swallowing swallow).state := by
      rw [Ran.state_swallowing]
      exact Pass.progress_declarePending name site
    exact ((hturn _ x).trans hy).andThen fun z hz => hz ▸ ih z
  | afterSuite callback next ih =>
    intro x
    let y := x.served (turns (.afterSuite callback next) x)
    have hy : y.Progress [] (y.declareAfterSuite s callback) := by
      rw [Pass.declareAfterSuite]
      split
      · exact Pass.progress_of_eq rfl (List.Subset.refl _) rfl rfl
      · exact .refl y
    have hnext := ih (y.declareAfterSuite s callback)
    rw [hy.context] at hnext
    exact ((hturn _ x).trans hy).trans hnext
  | logCurrent next ih =>
    intro x
    let y := x.served (turns (.logCurrent next) x)
    exact ((hturn _ x).trans (y.progress_closet _)).trans (ih (y.withCloset
      ⟨y.shelf, y.world.book.say s.scope.root ("current " ++ y.visit.context.display)⟩))

theorem Builder.visit_progress {s : PassScope} (b : Builder) (x : Pass) :
    x.Progress (b.paths x.visit.context.path) (b.visit s x).state := by
  rw [← visitServed_idle]
  exact b.visitServed_progress _ x

/-! ### The number of passes -/

/-- What is left to be processed, if something new was. -/
theorem countP_notMem_lt {ps xs ys : List NamePath} (hsub : xs ⊆ ys) {a : NamePath} (ha : a ∈ ps)
    (hx : a ∉ xs) (hy : a ∈ ys) : (ps.countP fun p => p ∉ ys) < ps.countP fun p => p ∉ xs := by
  have hle : ∀ qs : List NamePath, (qs.countP fun p => p ∉ ys) ≤ qs.countP fun p => p ∉ xs :=
    fun qs =>
    List.countP_mono_left fun p _ hp => by
      simp only [decide_eq_true_eq] at hp ⊢
      exact fun h => hp (hsub h)
  obtain ⟨front, rest, rfl⟩ := List.append_of_mem ha
  have hf := hle front
  have hr := hle rest
  simp only [List.countP_append, List.countP_cons, hx, hy, not_true_eq_false, not_false_eq_true,
    decide_false, decide_true, Bool.false_eq_true, if_true, if_false]
  omega

namespace RootContext

variable {r : RootContext} {w₀ w : World} {search : Search}

/-- How many declarations of the builder are not processed yet. -/
def unprocessed (r : RootContext) (search : Search) : Nat :=
  (r.builder.paths r.context.path).countP fun path => path ∉ search.processed

theorem unprocessed_le (r : RootContext) (search : Search) :
    r.unprocessed search ≤ r.builder.declarations := by
  rw [← r.builder.length_paths r.context.path]
  exact List.countP_le_length

/-- Less is left to be processed behind a pass that has made progress and leaves contexts. -/
theorem unprocessed_lt {p : Pass}
    (h : (r.opened search w).Progress (r.builder.paths r.context.path) p)
    (hl : p.visit.left = true) : r.unprocessed p.search < r.unprocessed search := by
  have hran := (h.left hl).resolve_left Bool.false_ne_true
  obtain ⟨path, hpath, hnew, hdone⟩ := (h.ran hran).resolve_left Bool.false_ne_true
  exact countP_notMem_lt h.processed hpath hnew hdone

/-- **A pass that leaves contexts has processed something new.** -/
theorem unprocessed_runPass (hl : (r.runPass search w).left = true) :
    r.unprocessed (r.runPass search w).search < r.unprocessed search :=
  unprocessed_lt (r.builder.visit_progress (r.opened search w)) hl

/-- A discovery with enough fuel ends behind one of its passes. -/
theorem discoverFrom_ends : ∀ (fuel n : Nat) (search : Search) (w : World),
    r.Begins w₀ n search w → r.unprocessed search < fuel →
    ∃ m t v, r.Begins w₀ m t v ∧
      r.Ends (m + 1) (r.runPass t v) (r.discoverFrom fuel n search w) := by
  intro fuel
  induction fuel with
  | zero => intro n search w _ hfuel; exact absurd hfuel (Nat.not_lt_zero _)
  | succ fuel ih =>
    intro n search w hb hfuel
    rcases r.discoverFrom_succ fuel n search w with ⟨hf, he, hl, hnext⟩ | hend
    · rw [hnext]
      have hless : r.unprocessed (r.handOn (r.runPass search w)) < r.unprocessed search :=
        unprocessed_runPass hl
      exact ih _ _ _ (hb.next hf he hl) (by omega)
    · exact ⟨n, search, w, hb, hend⟩

/-- **A discovery ends behind one of its passes.** -/
theorem discover_ends (r : RootContext) (w : World) : ∃ n search v, r.Begins w n search v ∧
    r.Ends (n + 1) (r.runPass search v) (r.discover w) :=
  discoverFrom_ends _ 0 {} w .first (Nat.lt_succ_of_le (r.unprocessed_le {}))

/-- **Every pass that begins is followed by the rest of the discovery**, with fuel for all that is
left. -/
theorem discover_resumes {n : Nat} (h : r.Begins w₀ n search w) :
    ∃ fuel, r.unprocessed search ≤ fuel ∧ r.discover w₀ = r.discoverFrom (fuel + 1) n search w := by
  induction h with
  | first => exact ⟨r.builder.declarations, r.unprocessed_le {}, rfl⟩
  | @next n search w h hf he hl ih =>
    obtain ⟨fuel, hfuel, hd⟩ := ih
    have hless : r.unprocessed (r.handOn (r.runPass search w)) < r.unprocessed search :=
      unprocessed_runPass hl
    obtain ⟨fuel, rfl⟩ : ∃ k, fuel = k + 1 := ⟨fuel - 1, by omega⟩
    refine ⟨fuel, by omega, ?_⟩
    rw [hd, discoverFrom, conclude?_of_left hf he hl]

/-- What a pass makes of a world. -/
theorem runPass_adds (r : RootContext) (search : Search) (w : World) (hd : search.direct = none) :
    ∃ hs, (r.runPass search w).search.tests = search.tests ++ hs ∧
    w.Adds (r.runPass search w).world hs ∧
      ∀ h, (r.runPass search w).direct = some h → h ∈ hs := by
  obtain ⟨hs, hgrows⟩ := r.builder.visit_grows
    ⟨r, ⟨r.index, w.book.invocations⟩, w.shelves.length⟩ (r.opened search w)
  -- a pass begins with a new shelf and ends with putting it back
  have hbegin : w.Adds (r.opened search w).world [] := World.adds_book rfl
  have hend : World.Adds _ (r.runPass search w).world [] := World.adds_book rfl
  have hadds := hbegin.trans (hgrows.makes.toAdds.trans hend)
  rw [List.nil_append, List.append_nil] at hadds
  refine ⟨hs, hgrows.tests, hadds, fun h hh => (hgrows.direct h hh).resolve_left fun hn => ?_⟩
  rw [show (r.opened search w).search.direct = none from hd] at hn
  cases hn

theorem behind_adds {e : PassEnd} {hs : List Handle} (h : w.Adds e.world hs)
    (hd : ∀ k, e.direct = some k → k ∈ hs) : w.Adds (r.behind e) hs := by
  rw [behind]
  split
  · exact h.release (hd _ ‹_›)
  · rw [← List.append_nil hs]
    exact h.trans (e.world.adds_closeWarning ..)

/-- What a pass begins with: handles for all that was found, and no error. -/
theorem Begins.adds {n : Nat} (h : r.Begins w₀ n search w) :
    w₀.Adds w search.tests ∧ search.direct = none ∧ search.fatal = none := by
  induction h with
  | first => exact ⟨.refl _, rfl, rfl⟩
  | @next n search w _ hf _ _ ih =>
    obtain ⟨hadds, hdirect, -⟩ := ih
    obtain ⟨hs, htests, hpass, hd⟩ := r.runPass_adds search w hdirect
    refine ⟨?_, rfl, (fatal?_eq_none_iff.mp hf).1⟩
    rw [show (r.handOn (r.runPass search w)).tests = _ from htests]
    exact hadds.trans (behind_adds hpass hd)

/-- What a pass begins with is determined by its number. -/
theorem Begins.unique {n : Nat} (h : r.Begins w₀ n search w) :
    ∀ {t v}, r.Begins w₀ n t v → t = search ∧ v = w := by
  induction h with
  | first =>
    intro t v k
    cases k
    exact ⟨rfl, rfl⟩
  | next _ _ _ _ ih =>
    intro t v k
    cases k with
    | next k _ _ _ =>
      obtain ⟨rfl, rfl⟩ := ih k
      exact ⟨rfl, rfl⟩

/-- No pass begins behind one with a structural error. -/
theorem Begins.le_of_fatal {m n : Nat} {t : Search} {v : World} (h : r.Begins w₀ n search w)
    (hf : fatal? (r.runPass search w) ≠ none) (k : r.Begins w₀ m t v) : m ≤ n := by
  induction k with
  | first => exact Nat.zero_le n
  | next k hnone _ _ ih =>
    rcases Nat.lt_or_eq_of_le ih with hlt | rfl
    · exact hlt
    · obtain ⟨rfl, rfl⟩ := h.unique k
      exact absurd hnone hf

/-- Later passes keep the handles of earlier ones. -/
theorem Begins.tests_isPrefix {n : Nat} (h : r.Begins w₀ n search w) : ∀ {m t v},
    r.Begins w₀ m t v → m ≤ n →
      (r.runPass t v).search.tests <+: (r.runPass search w).search.tests := by
  induction h with
  | first =>
    intro m t v k hm
    obtain rfl := Nat.le_zero.mp hm
    obtain ⟨rfl, rfl⟩ := Begins.first.unique k
    exact List.prefix_rfl
  | next h hf he hl ih =>
    intro m t v k hm
    have hnext := h.next hf he hl
    rcases Nat.lt_or_eq_of_le hm with hlt | rfl
    · obtain ⟨_, htests, -⟩ := r.runPass_adds _ _ hnext.adds.2.1
      rw [htests]
      exact (ih k (Nat.le_of_lt_succ hlt)).trans (List.prefix_append _ _)
    · obtain ⟨rfl, rfl⟩ := hnext.unique k
      exact List.prefix_rfl

/-- A pass with a structural error ends the discovery. -/
theorem discover_aborts {n : Nat} (h : r.Begins w₀ n search w) {error : StructuralError}
    (hf : fatal? (r.runPass search w) = some error) :
    r.discover w₀ = r.abort (r.runPass search w) error := by
  obtain ⟨fuel, -, hd⟩ := discover_resumes h
  rw [hd, discoverFrom, conclude?_of_fatal hf]

end RootContext

end TestTree

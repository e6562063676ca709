/-
Callbacks behind all tests: which ones the visits of a pass register.

* `Footstep`, `Builder.footsteps` : visits of contexts, and the callbacks that builders declare;
* `Footstep.declaredFirst` : the callbacks that are declared in first visits;
* `Builder.entrances_visit` : a visit writes down the visits that are among its footsteps;
* `Builder.visit_follows` : **a visit registers the callbacks of first visits, and no others**.

## Design notes

A visit is the first one of its context if the context was not built before.  A context that fails
is never built; but then its name was processed, or that of a context around it, and it is not
entered again.  `Search.Shuts` says which contexts are not visited for a first time any more.
-/
import TestTree.Proofs.FailedContexts

namespace TestTree

/-! ### Footsteps -/

/-- What happens in a pass that has to do with callbacks behind all tests. -/
inductive Footstep where
  /-- The visit of a context begins. -/
  | visited (path : NamePath)
  /-- The builder of a context declares a callback. -/
  | declared (path : NamePath) (callback : Closure)

namespace Footstep

/-- The context that is visited. -/
def visit? : Footstep → Option NamePath
  | visited path => some path
  | declared _ _ => none

/-- The contexts that are visited, in order. -/
def visits (ts : List Footstep) : List NamePath :=
  ts.filterMap visit?

/-- The callbacks that are declared while their context has been visited once; the contexts in `seen`
were visited before. -/
def declaredFirst : (seen : List NamePath) → List Footstep → List Closure
  | _, [] => []
  | seen, visited path :: rest => declaredFirst (seen ++ [path]) rest
  | seen, declared path callback :: rest =>
    if seen.count path = 1 then callback :: declaredFirst seen rest else declaredFirst seen rest

@[simp] theorem visits_append (ts us : List Footstep) : visits (ts ++ us) = visits ts ++ visits us :=
  List.filterMap_append

theorem declaredFirst_append (ts us : List Footstep) : ∀ seen, declaredFirst seen (ts ++ us)
    = declaredFirst seen ts ++ declaredFirst (seen ++ visits ts) us := by
  induction ts with
  | nil => intro seen; simp [declaredFirst, visits]
  | cons t ts ih =>
    intro seen
    cases t with
    | visited path =>
      have hseen : seen ++ visits (visited path :: ts) = seen ++ [path] ++ visits ts := by
        simp [visits, visit?]
      rw [List.cons_append, declaredFirst, ih, hseen]
      rfl
    | declared path callback =>
      rw [List.cons_append, declaredFirst, declaredFirst, ih]
      split <;> rfl

end Footstep

/-- The footsteps of the visit of a builder. -/
def Builder.footsteps (s : PassScope) : Builder → Pass → List Footstep
  | done, _ => []
  | basic b next, p => (p.perform s.scope b).behind (next.footsteps s)
  | branch c yes no next, p =>
    if p.world.book.holds s.scope c then
      yes.footsteps s p ++ (yes.visit s p).behind (next.footsteps s)
    else no.footsteps s p ++ (no.visit s p).behind (next.footsteps s)
  | autoClose r close next, p =>
    next.footsteps s (p.withCloset (p.closet.autoClose r ⟨close, s.scope⟩))
  | deferClose close next, p =>
    next.footsteps s (p.withCloset (p.closet.deferClose ⟨close, s.scope⟩))
  | test name site body swallow next, p =>
    ((p.declareTest s name site body).swallowing swallow).behind (next.footsteps s)
  | context name site inner swallow next, p =>
    match p.enter? s name site with
    | .inl r => (r.swallowing swallow).behind (next.footsteps s)
    | .inr y =>
      let r := Pass.leave (p.parentVisit name) name site y.shelf.mark (inner.visit s y)
      (.visited y.visit.context.path :: inner.footsteps s y)
        ++ (r.swallowing swallow).behind (next.footsteps s)
  | pending name site swallow next, p =>
    ((p.declarePending name site).swallowing swallow).behind (next.footsteps s)
  | afterSuite callback next, p =>
    .declared p.visit.context.path ⟨callback, s.scope⟩
      :: next.footsteps s (p.declareAfterSuite s callback)
  | logCurrent next, p =>
    next.footsteps s (p.withCloset
      ⟨p.shelf, p.world.book.say s.scope.root ("current " ++ p.visit.context.display)⟩)

namespace RootContext

/-- The footsteps of a pass. -/
def footsteps (r : RootContext) (search : Search) (w : World) : List Footstep :=
  .visited r.context.path
    :: r.builder.footsteps ⟨r, ⟨r.index, w.book.invocations⟩, w.shelves.length⟩ (r.opened search w)

/-- The footsteps of `n` passes that follow each other. -/
def walk (r : RootContext) : (n : Nat) → Search → World → List Footstep
  | 0, _, _ => []
  | n + 1, search, w =>
    r.footsteps search w ++ r.walk n (r.handOn (r.runPass search w)) (r.behind (r.runPass search w))

end RootContext

/-! ### Visits that are written down -/

namespace Footstep

/-- The visits as the log has them, the latest first. -/
def entrances (root : Nat) (ts : List Footstep) : List (Nat × NamePath) :=
  ((visits ts).map (root, ·)).reverse

@[simp] theorem entrances_append (root : Nat) (ts us : List Footstep) :
    entrances root (ts ++ us) = entrances root us ++ entrances root ts := by
  simp [entrances]

theorem entrances_cons (root : Nat) (t : Footstep) (ts : List Footstep) :
    entrances root (t :: ts) = entrances root ts ++ entrances root [t] :=
  entrances_append root [t] ts

/-- Two parts of a visit that both wrote their visits down. -/
theorem entrances_andThen {root : Nat} {r : Ran BuildError Pass} {ts : List Footstep}
    {es : List (Nat × NamePath)} (h : r.state.world.book.entrances = entrances root ts ++ es)
    {next : Pass → Ran BuildError Pass} {rest : Pass → List Footstep}
    (hn : ∀ y, (next y).state.world.book.entrances
      = entrances root (rest y) ++ y.world.book.entrances) :
    (r.andThen next).state.world.book.entrances = entrances root (ts ++ r.behind rest) ++ es := by
  obtain ⟨_ | e | p, y⟩ := r
  · show (next y).state.world.book.entrances = entrances root (ts ++ rest y) ++ es
    rw [hn, entrances_append, List.append_assoc]
    exact congrArg (entrances root (rest y) ++ ·) h
  · show y.world.book.entrances = entrances root (ts ++ []) ++ es
    rwa [List.append_nil]
  · show y.world.book.entrances = entrances root (ts ++ []) ++ es
    rwa [List.append_nil]

theorem entrances_behind {root : Nat} {r : Ran BuildError Pass} {es : List (Nat × NamePath)}
    (h : r.state.world.book.entrances = es) {next : Pass → Ran BuildError Pass}
    {rest : Pass → List Footstep} (hn : ∀ y, (next y).state.world.book.entrances
      = entrances root (rest y) ++ y.world.book.entrances) :
    (r.andThen next).state.world.book.entrances = entrances root (r.behind rest) ++ es := by
  have hnone : r.state.world.book.entrances = entrances root [] ++ es := h
  exact entrances_andThen hnone hn

end Footstep

/-- **A visit writes down the visits that are among its footsteps, and no others.** -/
theorem Builder.entrances_visit {s : PassScope} (b : Builder) : ∀ x : Pass,
    (b.visit s x).state.world.book.entrances
      = Footstep.entrances s.root.index (b.footsteps s x) ++ x.world.book.entrances := by
  induction b with
  | done => intro x; rfl
  | basic b next ih =>
    intro x
    exact Footstep.entrances_behind (Pass.entrances_perform x s.scope b) ih
  | branch c yes no next ihy ihn ih =>
    intro x
    rw [visit, footsteps]
    split
    · exact Footstep.entrances_andThen (ihy x) ih
    · exact Footstep.entrances_andThen (ihn x) ih
  | autoClose res close next ih =>
    intro x
    exact ih (x.withCloset (x.closet.autoClose res ⟨close, s.scope⟩))
  | deferClose close next ih =>
    intro x
    exact ih (x.withCloset (x.closet.deferClose ⟨close, s.scope⟩))
  | test name site body swallow next ih =>
    intro x
    refine Footstep.entrances_behind ?_ ih
    rw [Ran.state_swallowing]
    exact x.entrances_declareTest name site body
  | context name site inner swallow next ihi ih =>
    intro x
    rw [visit, footsteps]
    cases henter : x.enter? s name site with
    | inl r =>
      refine Footstep.entrances_behind ?_ ih
      rw [Ran.state_swallowing]
      rcases Pass.outside_cases henter with ⟨_, rfl⟩ | ⟨-, -, hworld, -⟩
      · rfl
      · rw [hworld]
    | inr y =>
      refine Footstep.entrances_andThen ?_ ih
      have hpath := (Pass.entered_eq henter).1
      rw [Ran.state_swallowing, Pass.entrances_leave, ihi y, Pass.entrances_enter henter,
        Footstep.entrances_cons, List.append_assoc, ← hpath]
      rfl
  | pending name site swallow next ih =>
    intro x
    refine Footstep.entrances_behind ?_ ih
    rw [Ran.state_swallowing]
    exact x.entrances_declarePending name site
  | afterSuite callback next ih =>
    intro x
    rw [visit, footsteps, ih, Pass.world_declareAfterSuite, Footstep.entrances_cons]
    exact congrArg (· ++ _) (List.append_nil _).symm
  | logCurrent next ih =>
    intro x
    have hsay := x.world.book.entrances_add
      (.said s.scope.root ("current " ++ x.visit.context.display))
    rw [visit, footsteps, ih]
    exact congrArg (_ ++ ·) hsay

/-! ### First visits -/

/-- The context was built, or its name was processed, or that of a context around it. -/
def Search.Shuts (s : Search) (path : NamePath) : Prop :=
  path ∈ s.investigated ∨ ∃ done ∈ s.processed, done <+: path

theorem Search.Shuts.mono {s t : Search} {path : NamePath} (h : s.Shuts path)
    (hi : s.investigated ⊆ t.investigated) (hp : s.processed ⊆ t.processed) : t.Shuts path :=
  h.imp (fun h => hi h) fun ⟨done, hd, hpath⟩ => ⟨done, hp hd, hpath⟩

namespace Pass

open Footstep

variable {s : PassScope} {x y : Pass} {seen : List NamePath} {ts us : List Footstep}
  {r : Ran BuildError Pass}

/-- In a visit, the contexts in `seen` have been visited so far. -/
structure HasVisited (x : Pass) (seen : List NamePath) : Prop where
  /-- Only the visits of the context and of those around it are going on. -/
  visited : ∀ path ∈ seen, x.search.Shuts path ∨ path <+: x.visit.context.path
  investigated : ∀ path ∈ x.search.investigated, path ∈ seen
  processed : ∀ path ∈ x.search.processed, ¬ path <+: x.visit.context.path
  first : x.visit.isFirst = true ↔ seen.count x.visit.context.path = 1

/-- A part of a visit from `x` on, with the footsteps `ts`, ended as `r`; the contexts in `seen` were
visited before. -/
structure Follows (seen : List NamePath) (x : Pass) (ts : List Footstep) (r : Ran BuildError Pass) :
    Prop where
  context : r.state.visit.context = x.visit.context
  isFirst : r.state.visit.isFirst = x.visit.isFirst
  afterSuite : r.state.search.afterSuite = x.search.afterSuite ++ declaredFirst seen ts
  below : ∀ path ∈ visits ts, ∃ name, x.visit.context.path ++ [name] <+: path
  /-- If the part of the visit did not finish, then the context is going to fail. -/
  visited : ∀ path ∈ seen ++ visits ts, r.state.search.Shuts path ∨
    path <+: x.visit.context.path ∨ r.ending ≠ .finished ∧ x.visit.context.path <+: path
  investigated : ∀ path ∈ r.state.search.investigated, path ∈ seen ++ visits ts
  processed : ∀ path ∈ r.state.search.processed, ¬ path <+: x.visit.context.path

theorem count_of_below {c : NamePath} (h : ∀ path ∈ visits ts, ∃ name, c ++ [name] <+: path) :
    (seen ++ visits ts).count c = seen.count c := by
  have hnot : c ∉ visits ts := by
    intro hc
    obtain ⟨name, hname⟩ := h c hc
    exact not_prefix_of_below hname List.prefix_rfl
  rw [List.count_append, List.count_eq_zero_of_not_mem hnot, Nat.add_zero]

theorem Follows.hasVisited (h : Follows seen x ts r) (hx : x.HasVisited seen)
    (hr : r.ending = .finished) :
    r.state.HasVisited (seen ++ visits ts) where
  visited path hp := by
    rw [h.context]
    exact (h.visited path hp).imp_right fun k => k.resolve_right fun hne => hne.1 hr
  investigated := h.investigated
  processed path hp := by
    rw [h.context]
    exact h.processed path hp
  first := by
    rw [h.context, h.isFirst, count_of_below h.below]
    exact hx.first

/-- Two parts of a visit, one behind the other. -/
theorem Follows.trans (h : Follows seen x ts ⟨.finished, y⟩)
    (k : Follows (seen ++ visits ts) y us r) : Follows seen x (ts ++ us) r := by
  have hc : y.visit.context = x.visit.context := h.context
  constructor
  · exact k.context.trans hc
  · exact k.isFirst.trans h.isFirst
  · rw [k.afterSuite, show y.search.afterSuite = _ from h.afterSuite, declaredFirst_append,
      List.append_assoc]
  · intro path hp
    rw [visits_append, List.mem_append] at hp
    exact hp.elim (h.below path) fun hp => hc ▸ k.below path hp
  · intro path hp
    rw [visits_append, ← List.append_assoc] at hp
    rw [← hc]
    exact k.visited path hp
  · intro path hp
    rw [visits_append, ← List.append_assoc]
    exact k.investigated path hp
  · intro path hp
    rw [← hc]
    exact k.processed path hp

theorem follows_andThen (hx : x.HasVisited seen) (h : r.structural? = none → Follows seen x ts r)
    {next : Pass → Ran BuildError Pass} {rest : Pass → List Footstep} {marks : Pass → List Mark}
    (hk : ∀ e, .discarded e ∉ r.behind marks) (hr : (r.andThen next).structural? = none)
    (hn : ∀ {y : Pass} {seen : List NamePath}, y.HasVisited seen → (∀ e, .discarded e ∉ marks y) →
      (next y).structural? = none → Follows seen y (rest y) (next y)) :
    Follows seen x (ts ++ r.behind rest) (r.andThen next) := by
  obtain ⟨_ | e | p, y⟩ := r
  · have hfirst := h rfl
    exact hfirst.trans (hn (hfirst.hasVisited hx rfl) hk hr)
  · have hfirst := h hr
    rw [Ran.andThen_failed]
    rwa [show ts ++ (⟨.failed e, y⟩ : Ran BuildError Pass).behind rest = ts from List.append_nil ts]
  · have hfirst := h hr
    rw [Ran.andThen_panicked]
    rwa [show ts ++ (⟨.panicked p, y⟩ : Ran BuildError Pass).behind rest = ts from
      List.append_nil ts]

/-- A step that enters no context and declares no callback: at most it processes a name. -/
theorem follows_still (hx : x.HasVisited seen) (hf : x.Files r.state)
    (hfirst : r.state.visit.isFirst = x.visit.isFirst)
    (ha : r.state.search.afterSuite = x.search.afterSuite)
    (hi : r.state.search.investigated = x.search.investigated) : Follows seen x [] r where
  context := hf.context
  isFirst := hfirst
  afterSuite := ha.trans (List.append_nil _).symm
  below _ hp := absurd hp List.not_mem_nil
  visited path hp := by
    rw [visits, List.filterMap_nil, List.append_nil] at hp
    refine (hx.visited path hp).imp (fun h => h.mono ?_ hf.processed) .inl
    rw [hi]
    exact List.Subset.refl _
  investigated path hp := by
    rw [hi] at hp
    exact List.mem_append_left _ (hx.investigated path hp)
  processed path hp hpath := by
    obtain ⟨new, hnew, hin⟩ := hf.inside
    rw [hnew, List.mem_append] at hp
    rcases hp with hp | hp
    · exact hx.processed path hp hpath
    · obtain ⟨name, hname⟩ := hin path hp
      exact not_prefix_of_below hname hpath

theorem HasVisited.keep (hx : x.HasVisited seen) (hv : y.visit = x.visit)
    (hs : y.search = x.search) :
    y.HasVisited seen where
  visited := by rw [hv, hs]; exact hx.visited
  investigated := by rw [hs]; exact hx.investigated
  processed := by rw [hv, hs]; exact hx.processed
  first := by rw [hv]; exact hx.first

/-- A step that changes neither the visit nor the search comes first. -/
theorem Follows.keep (h : Follows seen y ts r) (hv : y.visit = x.visit) (hs : y.search = x.search) :
    Follows seen x ts r := by
  obtain ⟨hcontext, hfirst, hafter, hbelow, hvisited, hinvestigated, hprocessed⟩ := h
  rw [hv] at hcontext hfirst hbelow hvisited hprocessed
  rw [hs] at hafter
  exact ⟨hcontext, hfirst, hafter, hbelow, hvisited, hinvestigated, hprocessed⟩

/-! ### Entering and leaving -/

theorem investigated_entered {name : String} {site : Location}
    (hy : x.enter? s name site = .inr y) :
    y.search.investigated = x.search.investigated ∧ y.search.afterSuite = x.search.afterSuite ∧
      y.visit.isFirst = !x.search.investigated.contains y.visit.context.path := by
  obtain ⟨hname, hp, hran⟩ := of_entered hy
  rw [enter?_new hname hp hran] at hy
  cases hy
  obtain ⟨_, hs⟩ := x.search.intern_entered (x.place name) site
  have hinvestigated := congrArg Search.investigated hs
  have hafter := congrArg Search.afterSuite hs
  refine ⟨hinvestigated, hafter, ?_⟩
  show (!(x.search.intern (x.place name) site).2.investigated.contains _) = _
  rw [hinvestigated]
  rfl

/-- A context that is entered is visited for the first time if it was not built before. -/
theorem hasVisited_entered (hx : x.HasVisited seen) {name : String} {site : Location}
    (hy : x.enter? s name site = .inr y) : y.HasVisited (seen ++ [y.visit.context.path]) := by
  obtain ⟨hpath, hprocessed, -, -⟩ := entered_eq hy
  obtain ⟨-, hnew, -⟩ := of_entered hy
  have hnew : x.visit.context.path ++ [name] ∉ x.search.processed := fun h =>
    hnew (isProcessed_iff.mpr h)
  obtain ⟨hinvestigated, -, hfirst⟩ := investigated_entered hy
  have hopen : ∀ path ∈ x.search.processed, ¬ path <+: x.visit.context.path ++ [name] := by
    intro path hp hpre
    rcases List.prefix_concat_iff.mp hpre with rfl | hpre
    · exact hnew hp
    · exact hx.processed path hp hpre
  rw [hpath] at hfirst ⊢
  constructor
  · intro path hp
    rw [hpath]
    rcases List.mem_append.mp hp with hp | hp
    · refine (hx.visited path hp).imp (fun h => h.mono ?_ ?_) fun h =>
        h.trans (List.prefix_append _ _)
      · rw [hinvestigated]
        exact List.Subset.refl _
      · rw [hprocessed]
        exact List.Subset.refl _
    · rw [List.mem_singleton.mp hp]
      exact .inr List.prefix_rfl
  · intro path hp
    rw [hinvestigated] at hp
    exact List.mem_append_left _ (hx.investigated path hp)
  · rw [hpath, hprocessed]
    exact hopen
  · rw [hpath, hfirst, List.count_append, List.count_singleton_self]
    -- a context that was visited before is shut, and a context that can be entered is so if it was
    -- built
    have hiff : x.visit.context.path ++ [name] ∈ x.search.investigated
        ↔ x.visit.context.path ++ [name] ∈ seen := by
      refine ⟨hx.investigated _, fun hp => ?_⟩
      rcases hx.visited _ hp with (h | ⟨done, hd, hpre⟩) | h
      · exact h
      · exact absurd hpre (hopen done hd)
      · exact absurd h (not_prefix_of_below List.prefix_rfl)
    rw [Bool.not_eq_true', ← Bool.not_eq_true, List.contains_iff_mem, hiff]
    rw [← List.count_eq_zero]
    omega

theorem investigated_leaveFinished (x : Pass) (name : String) (v : Visit) :
    (x.leaveFinished name v).search.afterSuite = x.search.afterSuite ∧
      (x.leaveFinished name v).search.investigated = x.search.investigated ++ [v.context.path] := by
  rw [leaveFinished]
  split <;> exact ⟨rfl, rfl⟩

theorem leaveFailed_shuts (x : Pass) (name : String) (site : Location) (mark : Nat)
    (failure : Failure) :
    (leaveFailed name site mark failure x).state.visit.isFirst = x.visit.isFirst ∧
      (leaveFailed name site mark failure x).state.search.afterSuite = x.search.afterSuite ∧
      (leaveFailed name site mark failure x).state.search.investigated = x.search.investigated ∧
      ((leaveFailed name site mark failure x).ending = .finished → x.visit.context.path ++ [name]
        ∈ (leaveFailed name site mark failure x).state.search.processed) := by
  have hfails : ∀ (z : Pass) f, (z.fails name site f).state.visit.isFirst = z.visit.isFirst ∧
      (z.fails name site f).state.search.afterSuite = z.search.afterSuite ∧
      (z.fails name site f).state.search.investigated = z.search.investigated ∧
      ((z.fails name site f).ending = .finished → z.visit.context.path ++ [name]
        ∈ (z.fails name site f).state.search.processed) := by
    intro z f
    rw [fails]
    rcases z.complete_cases ⟨⟨z.visit.context, name, site⟩, .failed f⟩ with ⟨p, w, hc⟩ | ⟨w, hc, -⟩
    · rw [hc]
      exact ⟨rfl, rfl, rfl, by rintro ⟨⟩⟩
    · rw [hc]
      exact ⟨rfl, rfl, rfl, fun _ => List.mem_append_right _ List.mem_cons_self⟩
  by_cases hd : x.search.direct.isSome = true
  · rw [leaveFailed_owned hd]
    exact hfails x _
  · rw [leaveFailed_swept hd]
    exact hfails (x.swept mark) _

theorem visits_visited (seen : List NamePath) (path : NamePath) (ts : List Footstep) :
    seen ++ visits (.visited path :: ts) = seen ++ [path] ++ visits ts := by
  simp [visits, visit?]

/-- When a context has been left, what was visited in it is shut.  If leaving it did not finish, then
the context around it is going to fail, and it is inside of that one. -/
theorem visited_left {name : String} {q : Ran BuildError Pass}
    (hpath : y.visit.context.path = x.visit.context.path ++ [name])
    (h : Follows (seen ++ [y.visit.context.path]) y ts r)
    (hi : r.state.search.investigated ⊆ q.state.search.investigated)
    (hp : r.state.search.processed ⊆ q.state.search.processed)
    (hshut : q.ending = .finished → y.visit.context.path ∈ q.state.search.processed ∨
      r.ending = .finished ∧ y.visit.context.path ∈ q.state.search.investigated) :
    ∀ path ∈ seen ++ visits (.visited y.visit.context.path :: ts),
      q.state.search.Shuts path ∨ path <+: x.visit.context.path ∨
        q.ending ≠ .finished ∧ x.visit.context.path <+: path := by
  intro path hmem
  rw [visits_visited] at hmem
  have hin : x.visit.context.path <+: y.visit.context.path := by
    rw [hpath]
    exact List.prefix_append _ _
  -- everything else about the context that is left is known from its own visit
  have hself : q.ending = .finished → q.state.search.Shuts y.visit.context.path := fun he =>
    (hshut he).elim (fun h => .inr ⟨_, h, List.prefix_rfl⟩) fun h => .inl h.2
  rcases h.visited path hmem with hs | hs | ⟨hne, hs⟩
  · exact .inl (hs.mono hi hp)
  · rw [hpath] at hs
    rcases List.prefix_concat_iff.mp hs with rfl | hs
    · by_cases hend : q.ending = .finished
      · rw [← hpath]
        exact .inl (hself hend)
      · exact .inr (.inr ⟨hend, List.prefix_append _ _⟩)
    · exact .inr (.inl hs)
  · by_cases hend : q.ending = .finished
    · rcases hshut hend with hproc | ⟨hr, -⟩
      · exact .inl (.inr ⟨_, hproc, hs⟩)
      · exact absurd hr hne
    · exact .inr (.inr ⟨hend, hin.trans hs⟩)

/-- Leaving a context: it was built, or it failed and its name is processed.  If the listener panics
at that, the context around it is going to fail as well. -/
theorem follows_left {name : String} {site : Location} {q : Ran BuildError Pass}
    (hx : x.HasVisited seen) (hy : x.enter? s name site = .inr y)
    (h : Follows (seen ++ [y.visit.context.path]) y ts r) (hq : x.Files q.state)
    (hfirst : q.state.visit.isFirst = x.visit.isFirst)
    (ha : q.state.search.afterSuite = r.state.search.afterSuite)
    (hi : ∃ built, q.state.search.investigated = r.state.search.investigated ++ built ∧
      built ⊆ [y.visit.context.path])
    (hp : r.state.search.processed ⊆ q.state.search.processed)
    (hshut : q.ending = .finished → y.visit.context.path ∈ q.state.search.processed ∨
      r.ending = .finished ∧ y.visit.context.path ∈ q.state.search.investigated) :
    Follows seen x (.visited y.visit.context.path :: ts) q := by
  obtain ⟨hpath, -, -, -⟩ := entered_eq hy
  obtain ⟨-, hafter, -⟩ := investigated_entered hy
  obtain ⟨built, hbuilt, hsub⟩ := hi
  have hinvestigated : r.state.search.investigated ⊆ q.state.search.investigated := by
    rw [hbuilt]
    exact List.subset_append_left _ _
  constructor
  · exact hq.context
  · exact hfirst
  · rw [ha, h.afterSuite, hafter]
    rfl
  · intro path hpre
    have hcons : visits (.visited y.visit.context.path :: ts)
        = y.visit.context.path :: visits ts := List.filterMap_cons_some rfl
    rw [hcons, List.mem_cons] at hpre
    rcases hpre with rfl | hpre
    · exact ⟨name, hpath ▸ List.prefix_rfl⟩
    · obtain ⟨n, hn⟩ := h.below path hpre
      exact ⟨name, by rw [← hpath]; exact (List.prefix_append _ _).trans hn⟩
  · exact visited_left hpath h hinvestigated hp hshut
  · intro path hmem
    rw [visits_visited]
    rw [hbuilt, List.mem_append] at hmem
    rcases hmem with hmem | hmem
    · exact h.investigated path hmem
    · exact List.mem_append_left _ (List.mem_append_right _ (hsub hmem))
  · intro path hmem hpre
    obtain ⟨new, hnew, hinside⟩ := hq.inside
    rw [hnew, List.mem_append] at hmem
    rcases hmem with hmem | hmem
    · exact hx.processed path hmem hpre
    · obtain ⟨n, hn⟩ := hinside path hmem
      exact not_prefix_of_below hn hpre

theorem follows_leave {name : String} {site : Location} (hx : x.HasVisited seen)
    (hy : x.enter? s name site = .inr y)
    (h : Follows (seen ++ [y.visit.context.path]) y ts r) (hf : y.Files r.state)
    (hr : r.structural? = none) (mark : Nat) :
    Follows seen x (.visited y.visit.context.path :: ts)
      (leave (x.parentVisit name) name site mark r) := by
  have hfiles := files_leave hy hf mark
  obtain ⟨hpath, -, -, -⟩ := entered_eq hy
  -- a context that ended in an ordinary failure or a panic
  have hfailed : ∀ failure, x.Files
      (leaveFailed name site mark failure (r.state.within (x.parentVisit name))).state →
      Follows seen x (.visited y.visit.context.path :: ts)
        (leaveFailed name site mark failure (r.state.within (x.parentVisit name))) := by
    intro failure hq
    obtain ⟨hfirst, ha, hi, hproc⟩ :=
      (r.state.within (x.parentVisit name)).leaveFailed_shuts name site mark failure
    refine follows_left hx hy h hq hfirst ha ⟨[], by rw [hi, List.append_nil]; rfl, nofun⟩ ?_
      fun he => .inl ?_
    · exact (r.state.within (x.parentVisit name)).processed_leaveFailed name site mark failure
    · rw [hpath]
      exact hproc he
  rw [leave] at hfiles ⊢
  rcases hend : r.ending with _ | (e | c) | p
  · rw [hend] at hfiles
    have hv := visit_leaveFinished (r.state.within (x.parentVisit name)) name r.state.visit
    have hfirst := congrArg Visit.isFirst hv
    have hproc := processed_leaveFinished (r.state.within (x.parentVisit name)) name r.state.visit
    obtain ⟨ha, hi⟩ := (r.state.within (x.parentVisit name)).investigated_leaveFinished name
      r.state.visit
    rw [h.context] at hi
    have hsub : r.state.search.processed
        ⊆ ((r.state.within (x.parentVisit name)).leaveFinished name r.state.visit).search.processed := by
      rw [hproc]
      exact List.subset_append_left _ _
    have hbuilt : y.visit.context.path
        ∈ ((r.state.within (x.parentVisit name)).leaveFinished name
          r.state.visit).search.investigated := by
      rw [hi]
      exact List.mem_append_right _ List.mem_cons_self
    exact follows_left hx hy h hfiles hfirst ha ⟨_, hi, List.Subset.refl _⟩ hsub
      fun _ => .inr ⟨hend, hbuilt⟩
  · rw [Ran.structural?, hend] at hr
    cases hr
  · rw [hend] at hfiles
    exact hfailed _ hfiles
  · rw [hend] at hfiles
    exact hfailed _ hfiles

/-! ### Declarations -/

theorem follows_declareTest (hx : x.HasVisited seen) (name : String) (site : Location)
    (body : Body) :
    Follows seen x [] (x.declareTest s name site body) := by
  have hfiles := files_declareTest (s := s) x name site body
  by_cases hname : name ∈ x.visit.names
  · rw [declareTest_taken hname] at hfiles ⊢
    exact follows_still hx hfiles rfl rfl rfl
  by_cases hp : x.isProcessed name = true
  · rw [declareTest_processed hname hp] at hfiles ⊢
    exact follows_still hx hfiles rfl rfl rfl
  by_cases hran : x.visit.ran = true
  · rw [declareTest_replayed hname hp hran] at hfiles ⊢
    exact follows_still hx hfiles rfl rfl rfl
  · rw [declareTest_direct hname hp hran] at hfiles ⊢
    exact follows_still hx hfiles rfl rfl rfl

theorem follows_declarePending (hx : x.HasVisited seen) (name : String) (site : Location) :
    Follows seen x [] (x.declarePending name site) := by
  have hfiles := files_declarePending x name site
  by_cases hname : name ∈ x.visit.names
  · rw [declarePending_taken hname] at hfiles ⊢
    exact follows_still hx hfiles rfl rfl rfl
  by_cases hp : x.isProcessed name = true
  · rw [declarePending_processed hname hp] at hfiles ⊢
    exact follows_still hx hfiles rfl rfl rfl
  · rw [declarePending_new hname hp] at hfiles ⊢
    rcases complete_cases ((x.within (x.parentVisit name)).process name)
      ⟨⟨x.visit.context, name, site⟩, .pending⟩ with ⟨p, w, hc⟩ | ⟨w, hc, -⟩
    · rw [hc] at hfiles ⊢
      exact follows_still hx hfiles rfl rfl rfl
    · rw [hc] at hfiles ⊢
      exact follows_still hx hfiles rfl rfl rfl

/-- Nothing is entered: the context was visited in an earlier pass, or will be in a later one. -/
theorem follows_outside (hx : x.HasVisited seen) {name : String} {site : Location}
    (hr : x.enter? s name site = .inl r) :
    Follows seen x [] r := by
  have hfiles := files_outside hr
  by_cases hname : name ∈ x.visit.names
  · rw [enter?_taken hname] at hr
    cases hr
    exact follows_still hx hfiles rfl rfl rfl
  by_cases hp : x.isProcessed name = true
  · rw [enter?_processed hname hp] at hr
    cases hr
    exact follows_still hx hfiles rfl rfl rfl
  by_cases hran : x.visit.ran = true
  · rw [enter?_skipped hname hp hran] at hr
    cases hr
    exact follows_still hx hfiles rfl rfl rfl
  · rw [enter?_new hname hp hran] at hr
    cases hr

/-- The declaration of a callback: it is registered in the first visit of the context. -/
theorem follows_declareAfterSuite (hx : x.HasVisited seen) (callback : Callback) :
    Follows seen x [.declared x.visit.context.path ⟨callback, s.scope⟩]
      ⟨.finished, x.declareAfterSuite s callback⟩ := by
  have hvisits : seen ++ visits [.declared x.visit.context.path ⟨callback, s.scope⟩] = seen :=
    List.append_nil seen
  have hstill : Follows seen x [] ⟨.finished, x⟩ :=
    follows_still hx (files_of_eq rfl rfl rfl rfl) rfl rfl rfl
  rw [declareAfterSuite]
  by_cases hfirst : x.visit.isFirst = true
  · rw [if_pos hfirst]
    refine { hstill with afterSuite := ?_, below := hstill.below }
    rw [declaredFirst, if_pos (hx.first.mp hfirst)]
    rfl
  · rw [if_neg hfirst]
    refine { hstill with afterSuite := ?_, below := hstill.below }
    rw [declaredFirst, if_neg (mt hx.first.mpr hfirst)]
    exact (List.append_nil _).symm

/-- A declaration whose structural error is not discarded, and what is behind it. -/
theorem follows_declaration (hx : x.HasVisited seen) (he : ∀ c, r.ending ≠ .failed (.failed c))
    (h : r.structural? = none → Follows seen x ts r) {swallow : Bool}
    {next : Pass → Ran BuildError Pass} {rest : Pass → List Footstep} {marks : Pass → List Mark}
    (hd : ∀ e, .discarded e ∉ r.discarding swallow)
    (hk : ∀ e, .discarded e ∉ (r.swallowing swallow).behind marks)
    (hr : ((r.swallowing swallow).andThen next).structural? = none)
    (hn : ∀ {y : Pass} {seen : List NamePath}, y.HasVisited seen → (∀ e, .discarded e ∉ marks y) →
      (next y).structural? = none → Follows seen y (rest y) (next y)) :
    Follows seen x (ts ++ (r.swallowing swallow).behind rest)
      ((r.swallowing swallow).andThen next) := by
  rw [swallowing_eq hd he] at hk hr ⊢
  exact follows_andThen hx h hk hr hn

end Pass

/-! ### Visits -/

namespace Builder

variable {s : PassScope} {inner next : Builder}

/-- The visits of a builder register the callbacks that are declared in first visits, unless they
discard a structural error or end in one. -/
def Follows (s : PassScope) (b : Builder) : Prop :=
  ∀ {x : Pass} {seen : List NamePath}, x.HasVisited seen → (∀ e, .discarded e ∉ b.history s x) →
    (b.visit s x).structural? = none → Pass.Follows seen x (b.footsteps s x) (b.visit s x)

theorem follows_basic (b : Basic) (hn : next.Follows s) : (basic b next).Follows s := by
  intro x seen hx hk hr
  have hstill : Pass.Follows seen x [] (x.perform s.scope b) := by
    have hstate := x.state_perform s.scope b
    refine Pass.follows_still hx ((Pass.files_levelRelation s).perform x b) ?_ ?_ ?_
    all_goals rw [hstate]; rfl
  exact Pass.follows_andThen hx (fun _ => hstill) (undiscarded_append hk).2 hr hn

theorem follows_branch (c : Condition) {yes no : Builder} (hyes : yes.Follows s)
    (hno : no.Follows s) (hn : next.Follows s) : (branch c yes no next).Follows s := by
  intro x seen hx hk hr
  rw [visit] at hr ⊢
  rw [history] at hk
  rw [footsteps]
  split at hk <;> rename_i hc
  · rw [if_pos hc] at hr ⊢
    rw [if_pos hc]
    obtain ⟨hfirst, hrest⟩ := undiscarded_append hk
    exact Pass.follows_andThen hx (hyes hx hfirst) hrest hr hn
  · rw [if_neg hc] at hr ⊢
    rw [if_neg hc]
    obtain ⟨hfirst, hrest⟩ := undiscarded_append hk
    exact Pass.follows_andThen hx (hno hx hfirst) hrest hr hn

/-- What is done with the shelf and the journal does not matter. -/
theorem Follows.withCloset (hn : next.Follows s) (c : Closet Closure) {x : Pass}
    {seen : List NamePath} (hx : x.HasVisited seen)
    (hk : ∀ e, .discarded e ∉ next.history s (x.withCloset c))
    (hr : (next.visit s (x.withCloset c)).structural? = none) :
    Pass.Follows seen x (next.footsteps s (x.withCloset c)) (next.visit s (x.withCloset c)) := by
  have hy : (x.withCloset c).HasVisited seen := hx.keep rfl rfl
  exact (hn hy hk hr).keep rfl rfl

theorem follows_test (name : String) (site : Location) (body : Body) (swallow : Bool)
    (hn : next.Follows s) : (test name site body swallow next).Follows s := by
  intro x seen hx hk hr
  obtain ⟨hd, hrest⟩ := undiscarded_append hk
  exact Pass.follows_declaration hx (x.ending_declareTest name site body)
    (fun _ => Pass.follows_declareTest hx name site body) (undiscarded_cons hd) hrest hr hn

theorem follows_pending (name : String) (site : Location) (swallow : Bool)
    (hn : next.Follows s) : (pending name site swallow next).Follows s := by
  intro x seen hx hk hr
  obtain ⟨hd, hrest⟩ := undiscarded_append hk
  exact Pass.follows_declaration hx (x.ending_declarePending name site)
    (fun _ => Pass.follows_declarePending hx name site) (undiscarded_cons hd) hrest hr hn

/-- A context is visited if it is entered, and its builder may fail. -/
theorem follows_context (name : String) (site : Location) (swallow : Bool)
    (hinner : inner.Follows s) (hn : next.Follows s) :
    (context name site inner swallow next).Follows s := by
  intro x seen hx hk hr
  rw [visit] at hr ⊢
  rw [history] at hk
  rw [footsteps]
  cases henter : x.enter? s name site with
  | inl r =>
    rw [henter] at hk hr
    obtain ⟨hd, hrest⟩ := undiscarded_append hk
    exact Pass.follows_declaration hx (Pass.ending_outside henter)
      (fun _ => Pass.follows_outside hx henter) (undiscarded_cons hd) hrest hr hn
  | inr y =>
    rw [henter] at hk hr
    obtain ⟨hd, hrest⟩ := undiscarded_append hk
    obtain ⟨hin, hd⟩ := undiscarded_append (undiscarded_cons hd)
    refine Pass.follows_declaration hx (Pass.ending_leave _ _ _ _ _) (fun hl => ?_) hd hrest hr hn
    rw [Pass.structural?_leave] at hl
    have hfollows := hinner (Pass.hasVisited_entered hx henter) hin hl
    exact Pass.follows_leave hx henter hfollows (inner.visit_files s y) hl _

theorem follows_afterSuite (callback : Callback) (hn : next.Follows s) :
    (afterSuite callback next).Follows s := by
  intro x seen hx hk hr
  have hfirst := Pass.follows_declareAfterSuite (s := s) hx callback
  exact hfirst.trans (hn (hfirst.hasVisited hx rfl) hk hr)

/-- **A visit registers the callbacks that are declared in first visits.** -/
theorem visit_follows (b : Builder) : b.Follows s := by
  induction b with
  | done => exact fun hx _ _ => Pass.follows_still hx (Pass.files_of_eq rfl rfl rfl rfl) rfl rfl rfl
  | basic b next ih => exact follows_basic b ih
  | branch c yes no next ihy ihn ih => exact follows_branch c ihy ihn ih
  | autoClose res close next ih => exact fun hx hk hr => Follows.withCloset ih _ hx hk hr
  | deferClose close next ih => exact fun hx hk hr => Follows.withCloset ih _ hx hk hr
  | test name site body swallow next ih => exact follows_test name site body swallow ih
  | context name site inner swallow next ihi ih => exact follows_context name site swallow ihi ih
  | pending name site swallow next ih => exact follows_pending name site swallow ih
  | afterSuite callback next ih => exact follows_afterSuite callback ih
  | logCurrent next ih => exact fun hx hk hr => Follows.withCloset ih _ hx hk hr

end Builder

end TestTree

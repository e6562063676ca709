/-
A visit of a builder that declares a plan.

* `Search.Stands` : which part of a plan a search has not processed yet;
* `Finding.HeldBy` : the handle that is made for a finding, and what is in its cell;
* `Pass.Scans` : what a visit does if `q` is left of the plan `p`: it finds `q.first`, finishes
  `q.closed` and leaves `q.after`;
* `Builder.Declares.visit_scans` : a visit does this for every builder that declares `p`.

## Design notes

What is processed and entered is known by paths.  A visit of a context changes nothing about paths
that do not go through one of its declarations (`Scans.agrees`); with siblings of different names,
what is known of one declaration is therefore untouched by the others.
-/
import Mathlib.Data.List.Forall2
import TestTree.Proofs.Growth
import TestTree.Proofs.Plan

namespace TestTree

@[simp] theorem Context.path_child (c : Context) (n : String) (site : Location) :
    (Context.child c n site).path = c.path ++ [n] := rfl

/-! ### Where a search stands -/

namespace Search

/-- The node that was made for a path, if one was. -/
def node? (s : Search) (path : NamePath) : Option Context :=
  s.entered.find? fun c => c.path == path

/-- Two searches know the same of a path. -/
def AgreeAt (s t : Search) (path : NamePath) : Prop :=
  (path ∈ t.processed ↔ path ∈ s.processed) ∧ t.node? path = s.node? path

theorem AgreeAt.trans {s t u : Search} {path : NamePath} (h : s.AgreeAt t path)
    (k : t.AgreeAt u path) : s.AgreeAt u path :=
  ⟨k.1.trans h.1, k.2.trans h.2⟩

/-- The plan `q` is what the search has not processed of the plan `p` of the context `c`. -/
inductive Stands (s : Search) : Context → Plan → Plan → Prop
  | stop {c : Context} {e : Ending Cause} : Stands s c (.stop e) (.stop e)
  | testDone {c : Context} {n : String} {site : Location} {body : Body} {p q : Plan}
      (hn : c.path ++ [n] ∈ s.processed) (h : Stands s c p q) :
      Stands s c (.test n site body p) q
  | test {c : Context} {n : String} {site : Location} {body : Body} {p q : Plan}
      (hn : c.path ++ [n] ∉ s.processed) (h : Stands s c p q) :
      Stands s c (.test n site body p) (.test n site body q)
  | pendingDone {c : Context} {n : String} {site : Location} {p q : Plan}
      (hn : c.path ++ [n] ∈ s.processed) (h : Stands s c p q) :
      Stands s c (.pending n site p) q
  | pending {c : Context} {n : String} {site : Location} {p q : Plan}
      (hn : c.path ++ [n] ∉ s.processed) (h : Stands s c p q) :
      Stands s c (.pending n site p) (.pending n site q)
  | contextDone {c : Context} {n : String} {site : Location} {i p q : Plan}
      (hn : c.path ++ [n] ∈ s.processed) (h : Stands s c p q) :
      Stands s c (.context n site false i p) q
  | context {c : Context} {n : String} {site : Location} {known : Bool} {i j p q : Plan}
      (hn : c.path ++ [n] ∉ s.processed)
      (hnode : s.node? (c.path ++ [n]) = if known then some (.child c n site) else none)
      (hi : Stands s (.child c n site) i j) (h : Stands s c p q) :
      Stands s c (.context n site false i p) (.context n site known j q)

namespace Stands

variable {s t : Search} {c : Context} {p p' q q' : Plan}

theorem ending (h : s.Stands c p q) : q.ending = p.ending := by
  induction h with
  | stop => rfl
  | testDone _ _ ih => exact ih
  | test _ _ ih => exact ih
  | pendingDone _ _ ih => exact ih
  | pending _ _ ih => exact ih
  | contextDone _ _ ih => exact ih
  | context _ _ _ _ _ ih => exact ih

/-- Only what is known of paths through declarations of the plan counts. -/
theorem congr (h : s.Stands c p q)
    (hst : ∀ n ∈ p.names, ∀ path, c.path ++ [n] <+: path → s.AgreeAt t path) :
    t.Stands c p q := by
  induction h with
  | stop => exact .stop
  | testDone hn _ ih =>
    have hhead := (hst _ List.mem_cons_self _ List.prefix_rfl).1
    exact .testDone (hhead.mpr hn) (ih fun n hm => hst n (List.mem_cons_of_mem _ hm))
  | test hn _ ih =>
    have hhead := (hst _ List.mem_cons_self _ List.prefix_rfl).1
    exact .test (mt hhead.mp hn) (ih fun n hm => hst n (List.mem_cons_of_mem _ hm))
  | pendingDone hn _ ih =>
    have hhead := (hst _ List.mem_cons_self _ List.prefix_rfl).1
    exact .pendingDone (hhead.mpr hn) (ih fun n hm => hst n (List.mem_cons_of_mem _ hm))
  | pending hn _ ih =>
    have hhead := (hst _ List.mem_cons_self _ List.prefix_rfl).1
    exact .pending (mt hhead.mp hn) (ih fun n hm => hst n (List.mem_cons_of_mem _ hm))
  | contextDone hn _ ih =>
    have hhead := (hst _ List.mem_cons_self _ List.prefix_rfl).1
    exact .contextDone (hhead.mpr hn) (ih fun n hm => hst n (List.mem_cons_of_mem _ hm))
  | context hn hnode _ _ ihi ih =>
    -- all paths inside go through the name of the context
    have hhead := hst _ List.mem_cons_self _ List.prefix_rfl
    refine .context (mt hhead.1.mp hn) (hhead.2.trans hnode) ?_
      (ih fun n hm => hst n (List.mem_cons_of_mem _ hm))
    apply ihi
    intro m _ path hpath
    exact hst _ List.mem_cons_self path ((List.prefix_append _ _).trans hpath)

theorem andThen (h : s.Stands c p q) (he : p.ending = .finished) (h' : s.Stands c p' q') :
    s.Stands c (p.andThen p') (q.andThen q') := by
  induction h with
  | stop => rw [Plan.ending] at he; subst he; exact h'
  | testDone hn _ ih => exact .testDone hn (ih he h')
  | test hn _ ih => exact .test hn (ih he h')
  | pendingDone hn _ ih => exact .pendingDone hn (ih he h')
  | pending hn _ ih => exact .pending hn (ih he h')
  | contextDone hn _ ih => exact .contextDone hn (ih he h')
  | context hn hnode hi _ _ ih => exact .context hn hnode hi (ih he h')

theorem split (he : p.ending = .finished) :
    ∀ {q}, s.Stands c (p.andThen p') q →
      ∃ q₁ q₂, q = q₁.andThen q₂ ∧ s.Stands c p q₁ ∧ s.Stands c p' q₂ := by
  induction p generalizing c with
  | stop e => rw [Plan.ending] at he; subst he; intro q h; exact ⟨.stop .finished, q, rfl, .stop, h⟩
  | test n site body next ih =>
    intro q h
    cases h with
    | testDone hn h =>
      obtain ⟨q₁, q₂, rfl, h₁, h₂⟩ := ih he h
      exact ⟨q₁, q₂, rfl, .testDone hn h₁, h₂⟩
    | test hn h =>
      obtain ⟨q₁, q₂, rfl, h₁, h₂⟩ := ih he h
      exact ⟨.test n site body q₁, q₂, rfl, .test hn h₁, h₂⟩
  | pending n site next ih =>
    intro q h
    cases h with
    | pendingDone hn h =>
      obtain ⟨q₁, q₂, rfl, h₁, h₂⟩ := ih he h
      exact ⟨q₁, q₂, rfl, .pendingDone hn h₁, h₂⟩
    | pending hn h =>
      obtain ⟨q₁, q₂, rfl, h₁, h₂⟩ := ih he h
      exact ⟨.pending n site q₁, q₂, rfl, .pending hn h₁, h₂⟩
  | context n site known inner next _ ih =>
    intro q h
    cases h with
    | contextDone hn h =>
      obtain ⟨q₁, q₂, rfl, h₁, h₂⟩ := ih he h
      exact ⟨q₁, q₂, rfl, .contextDone hn h₁, h₂⟩
    | context hn hnode hi h =>
      obtain ⟨q₁, q₂, rfl, h₁, h₂⟩ := ih he h
      exact ⟨.context n site _ _ q₁, q₂, rfl, .context hn hnode hi h₁, h₂⟩

end Stands

end Search

/-! ### Handles of findings -/

/-- The handle that is made for a finding, and what is in its cell.  The body of a test runs when
its cell does: directly, or by a replay. -/
def Finding.HeldBy (root : RootContext) (cells : List (Cell TestUnit Outcome)) :
    Finding → Handle → Prop
  | .context _, _ => False
  | .test d body, h => h.test = d ∧
      (cells[h.cell]? = some (.suspended (.replayed d root)) ∨
        ∃ scope shelf, scope.root = root.index ∧
          cells[h.cell]? = some (.suspended (.direct d body scope shelf)))
  | .pending d, h => h.test = d ∧ cells[h.cell]? = some (.done ⟨d, .pending⟩)
  | .failed d cause, h => h.test = d ∧
      ∃ notes, cells[h.cell]? = some (.done ⟨d, .failed ⟨.contextBuild, cause, notes⟩⟩)

/-- A finding that is listed as a test. -/
def Finding.isTest (f : Finding) : Bool :=
  f.test?.isSome

theorem Finding.HeldBy.mono {root : RootContext} {cells cells' : List (Cell TestUnit Outcome)}
    {f : Finding} {h : Handle} (hf : f.HeldBy root cells h) (hc : cells <+: cells') :
    f.HeldBy root cells' h := by
  have hget : ∀ {i : Nat} {x : Cell TestUnit Outcome}, cells[i]? = some x → cells'[i]? = some x := by
    obtain ⟨more, rfl⟩ := hc
    intro i x hi
    rw [List.getElem?_append_left (List.getElem?_eq_some_iff.mp hi).1]
    exact hi
  cases f with
  | context k => exact hf
  | test d body =>
    obtain ⟨ht, hr | ⟨scope, shelf, hs, hd⟩⟩ := hf
    · exact ⟨ht, .inl (hget hr)⟩
    · exact ⟨ht, .inr ⟨scope, shelf, hs, hget hd⟩⟩
  | pending d => exact ⟨hf.1, hget hf.2⟩
  | failed d cause =>
    obtain ⟨ht, notes, hn⟩ := hf
    exact ⟨ht, notes, hget hn⟩

/-! ### What a visit does -/

/-- How a builder ends, as the visit of it does. -/
def Plan.buildEnding (p : Plan) : Ending BuildError :=
  match p.ending with
  | .finished => .finished
  | .failed c => .failed (.failed c)
  | .panicked x => .panicked x

theorem Plan.buildEnding_finished {p : Plan} (h : p.ending = .finished) :
    p.buildEnding = .finished := by
  rw [buildEnding, h]

theorem Plan.buildEnding_ne {p : Plan} (h : p.ending ≠ .finished) : p.buildEnding ≠ .finished := by
  rw [buildEnding]
  rcases he : p.ending with _ | c | x
  · exact absurd he h
  · exact nofun
  · exact nofun

namespace Pass

/-- A pass that can visit what is left as `q` of the plan `p`. -/
structure Ready (x : Pass) (p q : Plan) : Prop where
  stands : x.search.Stands x.visit.context p q
  distinct : p.Distinct
  unnamed : ∀ n ∈ p.names, n ∉ x.visit.names
  calm : p.CalmFor x.world.listener x.visit.context

/-- What a visit of the plan `p` does in the pass `x`, of which `q` is left. -/
structure Scans (s : PassScope) (x : Pass) (p q : Plan) (r : Ran BuildError Pass) : Prop where
  ending : r.ending = p.buildEnding
  context : r.state.visit.context = x.visit.context
  ran : r.state.visit.ran = q.runs x.visit.ran
  left : r.state.visit.left = (x.visit.left || q.leaves x.visit.ran)
  names : ∀ n ∈ r.state.visit.names, n ∈ x.visit.names ∨ n ∈ p.names
  entered : r.state.search.entered = x.search.entered
    ++ (q.first x.visit.context x.visit.ran).filterMap Finding.context?
  found : r.state.search.found = x.search.found ++ q.closed x.visit.context x.visit.ran
  tests : ∃ hs, r.state.search.tests = x.search.tests ++ hs ∧
    List.Forall₂ (Finding.HeldBy s.root r.state.world.cells)
      ((q.first x.visit.context x.visit.ran).filter Finding.isTest) hs
  stands : r.state.search.Stands x.visit.context p (q.after x.visit.ran)
  agrees : ∀ path, (∀ n ∈ p.names, ¬ x.visit.context.path ++ [n] <+: path) →
    x.search.AgreeAt r.state.search path
  fatal : r.state.search.fatal = x.search.fatal
  grows : x.Grows r.state

/-- Two names directly in a context lead to different paths. -/
theorem not_prefix_of_ne {path ext : NamePath} {m n : String} (h : m ≠ n)
    (hn : path ++ [n] <+: ext) : ¬ path ++ [m] <+: ext := by
  intro hm
  have := List.prefix_of_prefix_length_le hm hn (by simp)
  rw [List.prefix_append_right_inj] at this
  exact h (by simpa using this)

section AndThen

variable {s : PassScope} {x y : Pass} {a p q q₁ q₂ : Plan} {r : Ran BuildError Pass}

/-- When a plan was visited, the pass is ready for the plan behind it. -/
theorem Scans.ready (k : Scans s x a q₁ ⟨.finished, y⟩) (he : a.ending = .finished)
    (hx : x.Ready (a.andThen p) q) (h₂ : x.search.Stands x.visit.context p q₂) : y.Ready p q₂ := by
  obtain ⟨-, hd₂, hd⟩ := Plan.Distinct.andThen he p hx.distinct
  have hc : y.visit.context = x.visit.context := k.context
  refine ⟨?_, hd₂, ?_, ?_⟩
  · rw [hc]
    -- the names of the two plans differ, so nothing that `p` depends on has changed
    refine h₂.congr fun n hn path hpath => k.agrees path fun m hm => ?_
    exact not_prefix_of_ne (fun hmn => hd m hm (hmn ▸ hn)) hpath
  · intro n hn hy
    rcases k.names n hy with hy | hy
    · refine hx.unnamed n ?_ hy
      rw [Plan.names_andThen he]
      exact List.mem_append_right _ hn
    · exact hd n hy hn
  · rw [k.grows.listener, hc]
    exact (Plan.CalmFor.andThen he p hx.calm).2

/-- Two visits, one behind the other. -/
theorem Scans.trans (k : Scans s x a q₁ ⟨.finished, y⟩) (l : Scans s y p q₂ r)
    (he : a.ending = .finished) (hq₁ : q₁.ending = .finished)
    (hd : ∀ n ∈ a.names, n ∉ p.names) : Scans s x (a.andThen p) (q₁.andThen q₂) r := by
  have hnames := Plan.names_andThen he p
  have hc : y.visit.context = x.visit.context := k.context
  have hran : y.visit.ran = q₁.runs x.visit.ran := k.ran
  obtain ⟨hs, hts, hfs⟩ := k.tests
  obtain ⟨ks, kts, kfs⟩ := l.tests
  constructor
  · rw [l.ending, Plan.buildEnding, Plan.buildEnding, Plan.ending_andThen he]
  · rw [l.context, hc]
  · rw [l.ran, hran, Plan.runs_andThen hq₁]
  · rw [l.left, k.left, hran, Plan.leaves_andThen hq₁, Bool.or_assoc]
  · intro n hn
    rw [hnames, List.mem_append]
    rcases l.names n hn with hn | hn
    · rcases k.names n hn with hn | hn
      · exact .inl hn
      · exact .inr (.inl hn)
    · exact .inr (.inr hn)
  · rw [l.entered, k.entered, hc, hran, Plan.first_andThen hq₁, List.filterMap_append,
      List.append_assoc]
  · rw [l.found, k.found, hc, hran, Plan.closed_andThen hq₁, List.append_assoc]
  · -- handles that were there keep their cells
    refine ⟨hs ++ ks, by rw [kts, hts, List.append_assoc], ?_⟩
    rw [Plan.first_andThen hq₁, List.filter_append]
    rw [hc, hran] at kfs
    exact List.rel_append (hfs.imp fun _ _ hf => hf.mono l.grows.cells) kfs
  · rw [Plan.after_andThen hq₁]
    -- what is left of the first plan is not touched by the second visit
    have hsame : ∀ n ∈ a.names, ∀ path, x.visit.context.path ++ [n] <+: path →
        y.search.AgreeAt r.state.search path := by
      intro n hn path hpath
      refine l.agrees path fun m hm => ?_
      rw [hc]
      exact not_prefix_of_ne (fun hmn : m = n => hd n hn (hmn ▸ hm)) hpath
    refine (k.stands.congr hsame).andThen he ?_
    have hstands := l.stands
    rwa [hc, hran] at hstands
  · intro path hpath
    rw [hnames] at hpath
    refine (k.agrees path fun n hn => hpath n (List.mem_append_left _ hn)).trans
      (l.agrees path fun n hn => ?_)
    rw [hc]
    exact hpath n (List.mem_append_right _ hn)
  · rw [l.fatal, k.fatal]
  · exact k.grows.trans l.grows

theorem Scans.andThen {next : Pass → Ran BuildError Pass} (hx : x.Ready (a.andThen p) q)
    (ha : ∀ {q'}, x.Ready a q' → Scans s x a q' r)
    (hp : a.ending = .finished → ∀ {y q'}, y.Ready p q' → Scans s y p q' (next y)) :
    Scans s x (a.andThen p) q (r.andThen next) := by
  by_cases he : a.ending = .finished
  · obtain ⟨q₁, q₂, rfl, h₁, h₂⟩ := Search.Stands.split he hx.stands
    obtain ⟨hd₁, -, hd⟩ := Plan.Distinct.andThen he p hx.distinct
    have k : Scans s x a q₁ r := by
      refine ha ⟨h₁, hd₁, fun n hn => hx.unnamed n ?_, (Plan.CalmFor.andThen he p hx.calm).1⟩
      rw [Plan.names_andThen he]
      exact List.mem_append_left _ hn
    rcases r with ⟨e, y⟩
    obtain rfl : e = .finished := k.ending.trans (Plan.buildEnding_finished he)
    exact k.trans (hp he (k.ready he hx h₂)) he (h₁.ending.trans he) hd
  · -- nothing comes behind a builder that failed
    have hap := Plan.andThen_of_fails he p
    rw [hap] at hx ⊢
    have k := ha hx
    rwa [Ran.andThen_of_ne (k.ending ▸ Plan.buildEnding_ne he)]

end AndThen

/-! ### Single statements -/

/-- A step that changes nothing that visits are decided by. -/
structure Quiet (x y : Pass) : Prop where
  visit : y.visit = x.visit
  processed : y.search.processed = x.search.processed
  entered : y.search.entered = x.search.entered
  found : y.search.found = x.search.found
  tests : y.search.tests = x.search.tests
  fatal : y.search.fatal = x.search.fatal
  grows : x.Grows y

variable {s : PassScope} {x y : Pass} {p q : Plan} {r : Ran BuildError Pass}

theorem Quiet.agreeAt (h : x.Quiet y) (path : NamePath) : x.search.AgreeAt y.search path := by
  rw [Search.AgreeAt, Search.node?, Search.node?, h.processed, h.entered]
  exact ⟨Iff.rfl, rfl⟩

theorem Ready.quiet (hx : x.Ready p q) (h : x.Quiet y) : y.Ready p q where
  stands := by
    rw [h.visit]
    exact hx.stands.congr fun _ _ path _ => h.agreeAt path
  distinct := hx.distinct
  unnamed := by
    rw [h.visit]
    exact hx.unnamed
  calm := by
    rw [h.grows.listener, h.visit]
    exact hx.calm

theorem Quiet.scans (h : x.Quiet y) (k : Scans s y p q r) : Scans s x p q r where
  ending := k.ending
  context := by rw [k.context, h.visit]
  ran := by rw [k.ran, h.visit]
  left := by rw [k.left, h.visit]
  names := by
    rw [← h.visit]
    exact k.names
  entered := by rw [k.entered, h.entered, h.visit]
  found := by rw [k.found, h.found, h.visit]
  tests := by
    rw [← h.visit, ← h.tests]
    exact k.tests
  stands := by
    rw [← h.visit]
    exact k.stands
  agrees := by
    intro path hpath
    rw [← h.visit] at hpath
    exact (h.agreeAt path).trans (k.agrees path hpath)
  fatal := by rw [k.fatal, h.fatal]
  grows := h.grows.trans k.grows

/-- A builder that is at its end. -/
theorem scans_stop {e : Ending Cause} {o : Ending BuildError} (hx : x.Ready (.stop e) q)
    (ho : o = (Plan.stop e).buildEnding) (h : x.Quiet y) : Scans s x (.stop e) q ⟨o, y⟩ := by
  refine h.scans ?_
  -- nothing can be left of a plan that declares nothing
  have hy := (hx.quiet h).stands
  obtain ⟨rfl⟩ : q = .stop e := by
    cases hy
    rfl
  exact
    { ending := ho
      context := rfl
      ran := rfl
      left := (Bool.or_false _).symm
      names := fun n hn => .inl hn
      entered := (List.append_nil _).symm
      found := (List.append_nil _).symm
      tests := ⟨[], (List.append_nil _).symm, .nil⟩
      stands := hy
      agrees := fun path _ => ⟨Iff.rfl, rfl⟩
      fatal := rfl
      grows := grows_of_eq rfl rfl rfl }

/-- A declaration that was processed before: only its name is taken. -/
theorem scans_done {name : String} (hx : x.Ready p (.stop .finished))
    (hp : p.names = [name]) (he : p.ending = .finished) :
    Scans s x p (.stop .finished) ⟨.finished, x.within (x.parentVisit name)⟩ where
  ending := (Plan.buildEnding_finished he).symm
  context := rfl
  ran := rfl
  left := (Bool.or_false _).symm
  names := by
    intro n hn
    rw [hp]
    exact (List.mem_cons.mp hn).symm.imp id List.mem_singleton.mpr
  entered := (List.append_nil _).symm
  found := (List.append_nil _).symm
  tests := ⟨[], (List.append_nil _).symm, .nil⟩
  stands := hx.stands
  agrees := fun path _ => ⟨Iff.rfl, rfl⟩
  fatal := rfl
  grows := grows_of_eq rfl rfl rfl

/-- What is known of a path that does not go through a name is not changed by processing it. -/
theorem agreeAt_process {name : String} {path : NamePath}
    (hpath : ¬ x.visit.context.path ++ [name] <+: path) {t : Search}
    (hp : t.processed = x.search.processed ++ [x.visit.context.path ++ [name]])
    (he : t.entered = x.search.entered) : x.search.AgreeAt t path := by
  rw [Search.AgreeAt, Search.node?, Search.node?, hp, he]
  refine ⟨?_, rfl⟩
  rw [List.mem_append, List.mem_singleton]
  exact or_iff_left fun h => hpath (h ▸ List.prefix_rfl)

/-- What becomes of a pass when a name directly in its context is processed and listed as a test. -/
structure ListsTest (x : Pass) (name : String) (ran : Bool) (h : Handle) (y : Pass) : Prop where
  visit : y.visit = { x.parentVisit name with ran }
  processed : y.search.processed = x.search.processed ++ [x.visit.context.path ++ [name]]
  entered : y.search.entered = x.search.entered
  found : y.search.found = x.search.found
  tests : y.search.tests = x.search.tests ++ [h]
  fatal : y.search.fatal = x.search.fatal
  grows : x.Grows y

/-- What is found by a declaration that is listed at once, and the handle for it. -/
theorem scans_listed {name : String} {f : Finding} {h : Handle}
    (hy : x.ListsTest name (q.runs x.visit.ran) h y) (hheld : f.HeldBy s.root y.world.cells h)
    (hp : p.names = [name]) (hpe : p.ending = .finished)
    (hstands : ∀ {t : Search}, x.visit.context.path ++ [name] ∈ t.processed →
      t.Stands x.visit.context p (q.after x.visit.ran))
    (hfirst : q.first x.visit.context x.visit.ran = [f]) (hf : f.isTest)
    (hclosed : q.closed x.visit.context x.visit.ran = [])
    (hleaves : q.leaves x.visit.ran = false) : Scans s x p q ⟨.finished, y⟩ where
  ending := (Plan.buildEnding_finished hpe).symm
  context := by rw [hy.visit]; rfl
  ran := by rw [hy.visit]
  left := by rw [hy.visit, hleaves, Bool.or_false]; rfl
  names := by
    intro n hn
    rw [hy.visit] at hn
    rw [hp]
    exact (List.mem_cons.mp hn).symm.imp id List.mem_singleton.mpr
  entered := by
    have hc : f.context? = none := by cases f <;> first | rfl | cases hf
    rw [hy.entered, hfirst]
    simp [hc]
  found := by rw [hy.found, hclosed, List.append_nil]
  tests := by
    refine ⟨[h], hy.tests, ?_⟩
    rw [hfirst, List.filter_cons_of_pos hf]
    exact .cons hheld .nil
  stands := by
    refine hstands ?_
    rw [hy.processed]
    exact List.mem_append_right _ (List.mem_singleton.mpr rfl)
  agrees := by
    intro path hpath
    rw [hp] at hpath
    exact agreeAt_process (hpath name (List.mem_singleton.mpr rfl)) hy.processed hy.entered
  fatal := hy.fatal
  grows := hy.grows

theorem scans_test (hs : s.scope.root = s.root.index) {name : String} {site : Location}
    {body : Body}
    (hx : x.Ready (.test name site body (.stop .finished)) q) :
    Scans s x (.test name site body (.stop .finished)) q (x.declareTest s name site body) := by
  have hname : name ∉ x.visit.names := hx.unnamed name (List.mem_singleton.mpr rfl)
  have hgrows := grows_declareTest s x name site body
  cases hx.stands with
  | testDone hn h =>
    cases h
    rw [declareTest_processed hname (isProcessed_iff.mpr hn)]
    exact scans_done hx rfl rfl
  | test hn h =>
    cases h
    have hp := mt isProcessed_iff.mp hn
    -- the first test of a pass is direct, any other one is replayed
    by_cases hran : x.visit.ran = true
    · rw [declareTest_replayed hname hp hran] at hgrows ⊢
      refine scans_listed ⟨?_, rfl, rfl, rfl, rfl, rfl, hgrows⟩
        (f := .test ⟨x.visit.context, name, site⟩ body) ⟨rfl, .inl ?_⟩ rfl rfl
        (fun ht => .testDone ht .stop) rfl rfl rfl rfl
      · rw [Plan.runs, Plan.runs, ← hran]
        rfl
      · show (x.world.schedule _).2.cells[_]? = _
        rw [World.cells_schedule]
        exact List.getElem?_concat_length
    · rw [declareTest_direct hname hp hran] at hgrows ⊢
      exact scans_listed ⟨rfl, rfl, rfl, rfl, rfl, rfl, hgrows⟩
        (f := .test ⟨x.visit.context, name, site⟩ body)
        ⟨rfl, .inr ⟨s.scope, s.shelf, hs, List.getElem?_concat_length⟩⟩ rfl rfl
        (fun ht => .testDone ht .stop) rfl rfl rfl rfl

theorem scans_pending {name : String} {site : Location}
    (hx : x.Ready (.pending name site (.stop .finished)) q) :
    Scans s x (.pending name site (.stop .finished)) q (x.declarePending name site) := by
  have hname : name ∉ x.visit.names := hx.unnamed name (List.mem_singleton.mpr rfl)
  have hgrows := grows_declarePending x name site
  cases hx.stands with
  | pendingDone hn h =>
    cases h
    rw [declarePending_processed hname (isProcessed_iff.mpr hn)]
    exact scans_done hx rfl rfl
  | pending hn h =>
    cases h
    have hcalm : ((x.within (x.parentVisit name)).process name).world.listener.panic?
        (.finished ⟨⟨x.visit.context, name, site⟩, .pending⟩) = none := hx.calm.1
    rw [declarePending_new hname (mt isProcessed_iff.mp hn), complete_calm hcalm] at hgrows ⊢
    refine scans_listed ⟨rfl, rfl, rfl, rfl, rfl, rfl, hgrows⟩
      (f := .pending ⟨x.visit.context, name, site⟩) ⟨rfl, ?_⟩ rfl rfl
      (fun ht => .pendingDone ht .stop) rfl rfl rfl rfl
    show (x.world.completed _).2.cells[_]? = _
    rw [World.cells_completed hx.calm.1]
    exact List.getElem?_concat_length

/-! ### Contexts -/

theorem intern_eq {s : Search} {c : Context} {name : String} {site : Location} {known : Bool}
    (h : s.node? (c.path ++ [name]) = if known then some (.child c name site) else none) :
    s.intern ⟨c, name⟩ site = (.child c name site,
      { s with entered := s.entered ++ if known then [] else [.child c name site] }) := by
  rw [Search.node?] at h
  rw [Search.intern, Place.path]
  cases known with
  | true => simp [h]
  | false => simp [h]

/-- The pass inside a sub-context that has just been entered. -/
def inside (s : PassScope) (name : String) (site : Location) (known : Bool) (x : Pass) : Pass :=
  let node := Context.child x.visit.context name site
  let search := { x.search with entered := x.search.entered ++ if known then [] else [node] }
  { x with
    visit := search.visit node
    search
    world := { x.world with book := x.world.book.add (.entered s.root.index node.path) } }

variable {name : String} {site : Location} {known : Bool} {i j : Plan}

theorem enter?_eq_inside (hname : name ∉ x.visit.names) (hp : ¬ x.isProcessed name = true)
    (hran : ¬ x.visit.ran = true)
    (hnode : x.search.node? (x.visit.context.path ++ [name])
      = if known then some (.child x.visit.context name site) else none) :
    x.enter? s name site = .inr (x.inside s name site known) := by
  rw [enter?_new hname hp hran, place, intern_eq hnode]
  rfl

/-- Entering a context changes what is known of its own path only. -/
theorem agreeAt_inside {path : NamePath} (hpath : path ≠ x.visit.context.path ++ [name]) :
    x.search.AgreeAt (x.inside s name site known).search path := by
  refine ⟨Iff.rfl, ?_⟩
  rw [Search.node?, Search.node?, inside]
  cases known with
  | true => simp
  | false => simp [List.find?_append, hpath.symm]

theorem node?_inside (hnode : x.search.node? (x.visit.context.path ++ [name])
      = if known then some (.child x.visit.context name site) else none) :
    (x.inside s name site known).search.node? (x.visit.context.path ++ [name])
      = some (.child x.visit.context name site) := by
  rw [Search.node?] at hnode ⊢
  rw [inside]
  cases known with
  | true => simpa using hnode
  | false => simp [List.find?_append, hnode]

theorem ne_of_longer {path ext : NamePath} {m : String} (h : path ++ [m] <+: ext) :
    ext ≠ path := by
  rintro rfl
  have hle := h.length_le
  rw [List.length_append, List.length_singleton] at hle
  omega

theorem Ready.inside (hx : x.Ready (.context name site false i (.stop .finished))
      (.context name site known j (.stop .finished)))
    (hi : x.search.Stands (.child x.visit.context name site) i j) :
    (x.inside s name site known).Ready i j where
  stands := by
    refine hi.congr fun m _ path hpath => agreeAt_inside ?_
    exact ne_of_longer hpath
  distinct := hx.distinct.2.1
  unnamed := fun _ _ hm => absurd hm List.not_mem_nil
  calm := hx.calm.2.1

/-- What becomes of a pass when it leaves a sub-context, of whose plan `i` it has visited `j`. -/
structure Leaves (s : PassScope) (x : Pass) (name : String) (site : Location) (i j : Plan)
    (y z : Pass) : Prop where
  visit : z.visit = { x.parentVisit name with
    ran := i.fails || j.runs false
    left := x.visit.left || (!i.fails && j.leaves false) }
  entered : z.search.entered = y.search.entered
  found : z.search.found = y.search.found
    ++ if i.fails || j.leaves false then [] else [.child x.visit.context name site]
  processed : z.search.processed = y.search.processed
    ++ if i.fails || !j.leaves false then [x.visit.context.path ++ [name]] else []
  tests : ∃ hs, z.search.tests = y.search.tests ++ hs ∧
    List.Forall₂ (Finding.HeldBy s.root z.world.cells)
      (i.failure?.map (.failed ⟨x.visit.context, name, site⟩)).toList hs
  fatal : z.search.fatal = y.search.fatal
  grows : y.Grows z

/-- Leaving a context changes what is known of its own path only. -/
theorem Leaves.agreeAt {z : Pass} (h : Leaves s x name site i j y z) {path : NamePath}
    (hpath : path ≠ x.visit.context.path ++ [name]) : y.search.AgreeAt z.search path := by
  rw [Search.AgreeAt, Search.node?, Search.node?, h.entered, h.processed]
  refine ⟨?_, rfl⟩
  split
  · simp [hpath]
  · simp

/-- A context is processed if it failed, or if nothing was left in it; otherwise it is known, and
what was left in it is left. -/
theorem Leaves.stands {z : Pass} (h : Leaves s x name site i j r.state z)
    (hn : x.visit.context.path ++ [name] ∉ x.search.processed)
    (hnode : x.search.node? (x.visit.context.path ++ [name])
      = if known then some (.child x.visit.context name site) else none)
    (hfails : j.fails = i.fails) (k : Scans s (x.inside s name site known) i j r) :
    z.search.Stands x.visit.context (.context name site false i (.stop .finished))
      ((Plan.context name site known j (.stop .finished)).after false) := by
  -- the path of the context itself is not touched inside
  have hself := k.agrees (x.visit.context.path ++ [name]) fun m _ hm => ne_of_longer hm rfl
  have hopen : x.visit.context.path ++ [name] ∉ r.state.search.processed := mt hself.1.mp hn
  have hprocessed := h.processed
  by_cases hdone : (i.fails || !j.leaves false) = true
  · rw [if_pos hdone] at hprocessed
    have hd : j.fails = true ∨ j.leaves false = false := by
      rw [hfails]
      simpa using hdone
    rw [Plan.after_done hd]
    refine .contextDone ?_ .stop
    rw [hprocessed]
    exact List.mem_append_right _ (List.mem_singleton.mpr rfl)
  · rw [if_neg hdone, List.append_nil] at hprocessed
    simp only [Bool.or_eq_true, Bool.not_eq_true', not_or, Bool.not_eq_true,
      Bool.not_eq_false] at hdone
    rw [Plan.after_open (hfails.trans hdone.1) hdone.2]
    refine .context ?_ ?_ ?_ .stop
    · rw [hprocessed]
      exact hopen
    · rw [Search.node?, h.entered]
      exact hself.2.trans (node?_inside hnode)
    · exact k.stands.congr fun m _ path hpath => h.agreeAt (ne_of_longer hpath)

/-- What becomes of a sub-context that was entered, from what became of its parent's pass. -/
theorem scans_entered {z : Pass}
    (hn : x.visit.context.path ++ [name] ∉ x.search.processed)
    (hnode : x.search.node? (x.visit.context.path ++ [name])
      = if known then some (.child x.visit.context name site) else none)
    (hran : x.visit.ran = false) (hfails : j.failure? = i.failure?)
    (k : Scans s (x.inside s name site known) i j r) (h : Leaves s x name site i j r.state z) :
    Scans s x (.context name site false i (.stop .finished))
      (.context name site known j (.stop .finished)) ⟨.finished, z⟩ := by
  have hjf : j.fails = i.fails := by rw [Plan.fails, Plan.fails, hfails]
  have hentry : x.Grows (x.inside s name site known) := grows_book rfl rfl rfl rfl rfl
  constructor
  · rfl
  · rw [h.visit]
    rfl
  · rw [h.visit, hran, Plan.runs, Plan.runs, hjf, Bool.false_or]
  · rw [h.visit, hran, Plan.leaves, Plan.leaves, hjf, Bool.false_or, Bool.or_false]
  · intro n hn
    rw [h.visit] at hn
    exact (List.mem_cons.mp hn).symm.imp id List.mem_singleton.mpr
  · -- a failed test is no context
    rw [h.entered, k.entered, hran, Plan.first, Plan.first, Plan.opening, inside]
    have hc : ((j.failure?.map (Finding.failed ⟨x.visit.context, name, site⟩)).toList).filterMap
        Finding.context? = [] := by cases j.failure? <;> rfl
    cases known <;> simp [hc, Finding.context?, Search.visit]
  · rw [h.found, k.found, hran, Plan.closed, Plan.closed, hjf]
    simp [inside, Search.visit]
  · -- a context is no test, and one that failed is listed as a test behind those inside it
    obtain ⟨hs, hts, hfs⟩ := k.tests
    obtain ⟨ks, kts, kfs⟩ := h.tests
    refine ⟨hs ++ ks, by rw [kts, hts, List.append_assoc]; rfl, ?_⟩
    rw [hran, Plan.first, Plan.first, Plan.opening, hfails]
    have hknown : ((if known then [] else [Finding.context (.child x.visit.context name site)]) :
        List Finding).filter Finding.isTest = [] := by cases known <;> rfl
    have hall : ((i.failure?.map (Finding.failed ⟨x.visit.context, name, site⟩)).toList).filter
        Finding.isTest = (i.failure?.map (.failed ⟨x.visit.context, name, site⟩)).toList := by
      cases i.failure? <;> rfl
    simp only [Bool.false_eq_true, if_false, List.append_nil, List.filter_append, hknown, hall,
      List.nil_append]
    exact List.rel_append (hfs.imp fun _ _ hf => hf.mono h.grows.cells) kfs
  · rw [hran]
    exact h.stands hn hnode hjf k
  · intro path hpath
    have hp := hpath name (List.mem_singleton.mpr rfl)
    have hne : path ≠ x.visit.context.path ++ [name] := fun h => hp (h ▸ List.prefix_rfl)
    refine (agreeAt_inside hne).trans ((k.agrees path fun m _ hm => hp ?_).trans (h.agreeAt hne))
    exact (List.prefix_append _ _).trans hm
  · rw [h.fatal, k.fatal]
    rfl
  · exact hentry.trans (k.grows.trans h.grows)

theorem scans_finished (hn : x.visit.context.path ++ [name] ∉ x.search.processed)
    (hnode : x.search.node? (x.visit.context.path ++ [name])
      = if known then some (.child x.visit.context name site) else none)
    (hran : x.visit.ran = false) (hj : j.ending = i.ending)
    (k : Scans s (x.inside s name site known) i j r) (hi : i.ending = .finished) :
    Scans s x (.context name site false i (.stop .finished))
      (.context name site known j (.stop .finished))
      ⟨.finished, (r.state.within (x.parentVisit name)).leaveFinished name r.state.visit⟩ := by
  have hif : i.fails = false := Plan.fails_eq_false.mpr hi
  have hir : i.failure? = none := Plan.failure?_eq_none.mpr hi
  have hjr : j.failure? = i.failure? := by rw [Plan.failure?, Plan.failure?, hj]
  have hctx : r.state.visit.context = .child x.visit.context name site := k.context
  have hrun : r.state.visit.ran = j.runs false := k.ran
  have hleft : r.state.visit.left = j.leaves false := k.left
  have hpran : (x.parentVisit name).ran = false := hran
  refine scans_entered hn hnode hran hjr k ⟨?_, entered_leaveFinished .., ?_, ?_, ⟨[], ?_, ?_⟩,
    fatal_leaveFinished .., (grows_within _ _).trans (grows_leaveFinished ..)⟩
  · rw [visit_leaveFinished, hrun, hleft, hif]
    show ({ x.parentVisit name with
      ran := (x.parentVisit name).ran || j.runs false
      left := x.visit.left || j.leaves false } : Visit) = _
    rw [hpran]
    rfl
  · rw [found_leaveFinished, hleft, hctx, hif]
    rfl
  · rw [processed_leaveFinished, hleft, hif]
    cases j.leaves false <;> rfl
  · rw [tests_leaveFinished]
    exact (List.append_nil _).symm
  · rw [hir]
    exact .nil

/-- What becomes of a pass when a sub-context that failed is listed as a test of its parent. -/
structure Fails (y : Pass) (name : String) (o : Outcome) (z : Pass) : Prop where
  visit : z.visit = { y.visit with ran := true }
  processed : z.search.processed = y.search.processed ++ [y.visit.context.path ++ [name]]
  entered : z.search.entered = y.search.entered
  found : z.search.found = y.search.found
  tests : z.search.tests = y.search.tests ++ [⟨o.test, y.world.cells.length⟩]
  fatal : z.search.fatal = y.search.fatal
  cells : z.world.cells = y.world.cells ++ [.done o]

theorem fails_calm {f : Failure}
    (hy : y.world.listener.panic? (.finished ⟨⟨y.visit.context, name, site⟩, .failed f⟩) = none) :
    ∃ z, y.fails name site f = ⟨.finished, z⟩ ∧
      y.Fails name ⟨⟨y.visit.context, name, site⟩, .failed f⟩ z := by
  rw [fails, complete_calm hy, Ran.andThen_finished]
  exact ⟨_, rfl, rfl, rfl, rfl, rfl, rfl, rfl, World.cells_completed hy⟩

theorem leaveFailed_calm (y : Pass) (name : String) (site : Location)
    (hy : ∀ f, y.world.listener.panic? (.finished ⟨⟨y.visit.context, name, site⟩, .failed f⟩) = none)
    (mark : Nat) (f : Failure) :
    ∃ notes z, leaveFailed name site mark f y = ⟨.finished, z⟩ ∧
      y.Fails name ⟨⟨y.visit.context, name, site⟩, .failed (f.withTeardown notes)⟩ z := by
  by_cases hd : y.search.direct.isSome = true
  · rw [leaveFailed_owned hd]
    exact ⟨_, fails_calm (hy _)⟩
  · rw [leaveFailed_swept hd]
    -- what the sub-context registered is closed first, which no listener hears of
    have hswept : ∀ f, (y.swept mark).world.listener.panic?
        (.finished ⟨⟨(y.swept mark).visit.context, name, site⟩, .failed f⟩) = none := hy
    obtain ⟨z, hz, hl⟩ := fails_calm (hswept _)
    exact ⟨_, z, hz, hl.visit, hl.processed, hl.entered, hl.found, hl.tests, hl.fatal, hl.cells⟩

theorem scans_failed (hn : x.visit.context.path ++ [name] ∉ x.search.processed)
    (hnode : x.search.node? (x.visit.context.path ++ [name])
      = if known then some (.child x.visit.context name site) else none)
    (hx : i.fails = true → ∀ f, x.world.listener.panic?
      (.finished ⟨⟨x.visit.context, name, site⟩, .failed f⟩) = none)
    (hran : x.visit.ran = false) (hj : j.ending = i.ending)
    (k : Scans s (x.inside s name site known) i j r) {c : Cause} (hi : i.failure? = some c)
    (mark : Nat) :
    Scans s x (.context name site false i (.stop .finished))
      (.context name site known j (.stop .finished))
      (leaveFailed name site mark (.ofCause .contextBuild c)
        (r.state.within (x.parentVisit name))) := by
  have hif : i.fails = true := by rw [Plan.fails, hi]; rfl
  have hjr : j.failure? = i.failure? := by rw [Plan.failure?, Plan.failure?, hj]
  have hcalm : ∀ f, (r.state.within (x.parentVisit name)).world.listener.panic?
      (.finished ⟨⟨x.visit.context, name, site⟩, .failed f⟩) = none := by
    rw [show (r.state.within (x.parentVisit name)).world.listener = x.world.listener from
      k.grows.listener]
    exact hx hif
  have hgrows := grows_leaveFailed (r.state.within (x.parentVisit name)) name site mark
    (.ofCause .contextBuild c)
  obtain ⟨notes, z, hz, hl⟩ := leaveFailed_calm _ name site hcalm mark (.ofCause .contextBuild c)
  rw [hz] at hgrows ⊢
  refine scans_entered hn hnode hran hjr k ⟨?_, hl.entered, ?_, ?_, ⟨_, hl.tests, ?_⟩, hl.fatal,
    (grows_within _ _).trans hgrows⟩
  · rw [hl.visit, hif]
    show ({ x.parentVisit name with ran := true } : Visit) = _
    simp [parentVisit]
  · rw [hl.found, hif]
    exact (List.append_nil _).symm
  · rw [hl.processed, hif]
    rfl
  · rw [hi]
    refine .cons ⟨rfl, notes, ?_⟩ .nil
    rw [hl.cells]
    exact List.getElem?_concat_length

/-- A sub-context that was skipped, because a test was met before it. -/
theorem scans_skipped (hx : x.Ready (.context name site false i (.stop .finished))
      (.context name site known j (.stop .finished))) (hran : x.visit.ran = true) :
    Scans s x (.context name site false i (.stop .finished))
      (.context name site known j (.stop .finished))
      ⟨.finished, x.within { x.parentVisit name with left := true }⟩ where
  ending := rfl
  context := rfl
  ran := by
    rw [hran, Plan.runs_true]
    exact hran
  left := by
    rw [Plan.leaves, hran]
    exact (Bool.or_true _).symm
  names := fun n hn => (List.mem_cons.mp hn).symm.imp id List.mem_singleton.mpr
  entered := by
    rw [hran]
    exact (List.append_nil _).symm
  found := by
    rw [hran]
    exact (List.append_nil _).symm
  tests := by
    refine ⟨[], (List.append_nil _).symm, ?_⟩
    rw [hran]
    exact .nil
  stands := by
    rw [hran, Plan.after_skipped]
    exact hx.stands
  agrees := fun path _ => ⟨Iff.rfl, rfl⟩
  fatal := rfl
  grows := grows_of_eq rfl rfl rfl

/-- A sub-context, from what a visit does inside it. -/
theorem scans_context {inner : Builder}
    (hx : x.Ready (.context name site false i (.stop .finished)) q)
    (hi : ∀ {y : Pass} {j : Plan}, y.Ready i j → Scans s y i j (inner.visit s y)) :
    Scans s x (.context name site false i (.stop .finished)) q
      (match x.enter? s name site with
        | .inl outside => outside
        | .inr y => leave (x.parentVisit name) name site y.shelf.mark (inner.visit s y)) := by
  have hname : name ∉ x.visit.names := hx.unnamed name (List.mem_singleton.mpr rfl)
  cases hx.stands with
  | contextDone hn h =>
    cases h
    rw [enter?_processed hname (isProcessed_iff.mpr hn)]
    exact scans_done hx rfl rfl
  | @context _ _ _ known _ j _ _ hn hnode hij h =>
    cases h
    have hp := mt isProcessed_iff.mp hn
    -- behind a test the context is left to a later pass
    by_cases hran : x.visit.ran = true
    · rw [enter?_skipped hname hp hran]
      exact scans_skipped hx hran
    · rw [enter?_eq_inside hname hp hran hnode]
      rw [Bool.not_eq_true] at hran
      have k := hi (hx.inside (s := s) hij)
      have he := k.ending
      rw [Plan.buildEnding] at he
      show Scans s x _ _ (leave _ _ _ _ _)
      rw [leave]
      cases hie : i.ending with
      | finished =>
        rw [hie] at he
        rw [he]
        exact scans_finished hn hnode hran hij.ending k hie
      | failed c =>
        rw [hie] at he
        rw [he]
        exact scans_failed hn hnode hx.calm.1 hran hij.ending k (by rw [Plan.failure?, hie]) _
      | panicked c =>
        rw [hie] at he
        rw [he]
        exact scans_failed hn hnode hx.calm.1 hran hij.ending k (by rw [Plan.failure?, hie]) _

/-- Errors are swallowed where there are none. -/
theorem Scans.swallowing (k : Scans s x p q r) (hp : p.ending = .finished) (swallow : Bool) :
    Scans s x p q (r.swallowing swallow) := by
  have he := k.ending
  rw [Plan.buildEnding_finished hp] at he
  rwa [Ran.swallowing, he]

/-- What is registered and written down decides nothing about visits. -/
theorem quiet_withCloset (x : Pass) (c : Closet Closure) (hb : c.book.bodies = x.world.book.bodies)
    (hi : c.book.invocations = x.world.book.invocations) : x.Quiet (x.withCloset c) :=
  ⟨rfl, rfl, rfl, rfl, rfl, rfl, grows_book rfl rfl rfl hb hi⟩

theorem quiet_perform {b : Basic} (hb : b.goesOn) :
    (x.perform s.scope b).ending = .finished ∧ x.Quiet (x.perform s.scope b).state := by
  have hgrows := (grows_visitRelation s).perform x b
  cases b with
  | fail t => cases hb
  | panic c => cases hb
  | log text => exact ⟨rfl, rfl, rfl, rfl, rfl, rfl, rfl, hgrows⟩
  | logVar n => exact ⟨rfl, rfl, rfl, rfl, rfl, rfl, rfl, hgrows⟩
  | incr n => exact ⟨rfl, rfl, rfl, rfl, rfl, rfl, rfl, hgrows⟩
  | logResource => exact ⟨rfl, rfl, rfl, rfl, rfl, rfl, rfl, hgrows⟩

theorem quiet_afterSuite (callback : Callback) : x.Quiet (x.declareAfterSuite s callback) := by
  have hgrows := (grows_visitRelation s).declareAfterSuite x callback
  rw [declareAfterSuite] at hgrows ⊢
  split
  · exact ⟨rfl, rfl, rfl, rfl, rfl, rfl, grows_of_eq rfl rfl rfl⟩
  · exact ⟨rfl, rfl, rfl, rfl, rfl, rfl, grows_of_eq rfl rfl rfl⟩

end Pass

open Pass

/-- **A visit of a builder that declares a plan finds what a scan of the plan finds, and leaves what
the scan leaves.** -/
theorem Builder.Declares.visit_scans {b : Builder} {p : Plan} (h : b.Declares p) {s : PassScope}
    (hs : s.scope.root = s.root.index) :
    ∀ {x : Pass} {q : Plan}, x.Ready p q → Scans s x p q (b.visit s x) := by
  induction h with
  | done =>
    intro x q hx
    exact scans_stop hx rfl ⟨rfl, rfl, rfl, rfl, rfl, rfl, grows_of_eq rfl rfl rfl⟩
  | @basic b next p hb _ ih =>
    intro x q hx
    obtain ⟨he, hquiet⟩ := quiet_perform (s := s) (x := x) hb
    have k := hquiet.scans (ih (hx.quiet hquiet))
    rwa [visit, Ran.andThen, he]
  | @fail t c next ht =>
    intro x q hx
    have hr : x.perform s.scope (.fail t) = ⟨.failed (.failed c), x⟩ := by
      rw [← ht]
      rfl
    rw [visit, hr, Ran.andThen_failed]
    exact scans_stop hx rfl ⟨rfl, rfl, rfl, rfl, rfl, rfl, grows_of_eq rfl rfl rfl⟩
  | panic =>
    intro x q hx
    exact scans_stop hx rfl ⟨rfl, rfl, rfl, rfl, rfl, rfl, grows_of_eq rfl rfl rfl⟩
  | @branch c yes no next p q _ _ _ ihy ihn ih =>
    intro x q' hx
    refine Scans.andThen hx (fun hy => ?_) fun he _ _ hy => ih he hy
    split
    · exact ihy hy
    · exact ihn hy
  | @autoClose r close _ _ _ ih =>
    intro x q hx
    have hquiet := x.quiet_withCloset (x.closet.autoClose r ⟨close, s.scope⟩) rfl rfl
    exact hquiet.scans (ih (hx.quiet hquiet))
  | @deferClose close _ _ _ ih =>
    intro x q hx
    have hquiet := x.quiet_withCloset (x.closet.deferClose ⟨close, s.scope⟩) rfl rfl
    exact hquiet.scans (ih (hx.quiet hquiet))
  | @test name site body swallow next p _ ih =>
    intro x q hx
    -- a single declaration is a plan of its own, and the rest of the builder comes behind it
    exact Scans.andThen (a := .test name site body (.stop .finished)) hx
      (fun hy => (scans_test hs hy).swallowing rfl swallow) fun _ _ _ hy => ih hy
  | @context name site inner swallow next i p _ _ ihi ih =>
    intro x q hx
    exact Scans.andThen (a := .context name site false i (.stop .finished)) hx
      (fun hy => (scans_context hy ihi).swallowing rfl swallow) fun _ _ _ hy => ih hy
  | @pending name site swallow next p _ ih =>
    intro x q hx
    exact Scans.andThen (a := .pending name site (.stop .finished)) hx
      (fun hy => (scans_pending hy).swallowing rfl swallow) fun _ _ _ hy => ih hy
  | @afterSuite callback _ _ _ ih =>
    intro x q hx
    have hquiet := quiet_afterSuite (s := s) (x := x) callback
    exact hquiet.scans (ih (hx.quiet hquiet))
  | logCurrent _ ih =>
    intro x q hx
    have hquiet := x.quiet_withCloset
      ⟨x.shelf, x.world.book.say s.scope.root ("current " ++ x.visit.context.display)⟩ rfl rfl
    exact hquiet.scans (ih (hx.quiet hquiet))

end TestTree

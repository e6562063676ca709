/-
Every body runs exactly once.

* `Plan.nodup_tests`, `RootContext.nodup_bodies` : tests that are found have different paths;
* `TestUnit.RunsBody` : a unit that runs one body, and ends in a fair result;
* `World.Served` : what moves have done to the handles of a discovery;
* `RootContext.bodies_once` : **once all handles are final and none was cancelled, every listed body
  was run once and no other one; only failed contexts have failures of context building**.
-/
import Mathlib.Data.List.Nodup
import TestTree.Proofs.PlanReplay
import TestTree.Proofs.Uses

namespace TestTree

/-! ### Bodies of a plan -/

/-- The path of a test whose body is to be run. -/
def Finding.runs? : Finding → Option NamePath
  | .test d _ => some d.path
  | _ => none

namespace Plan

/-- Siblings of different names declare tests of different paths. -/
theorem nodup_tests {p : Plan} (h : p.Distinct) :
    ∀ c, ((p.tests c).map Description.path).Nodup := by
  -- what is declared behind a name does not go through it
  have hout : ∀ {next : Plan} {c : Context} {n : String}, n ∉ next.names →
      ∀ d ∈ next.tests c, ¬ c.path ++ [n] <+: d.path := by
    intro next c n hn d hd hp
    obtain ⟨m, hm, hmd⟩ := through_names hd
    exact Pass.not_prefix_of_ne (fun hnm : n = m => hn (hnm ▸ hm)) hmd hp
  induction p with
  | stop e => intro c; exact List.nodup_nil
  | test n site body next ih =>
    intro c
    rw [tests, List.map_cons, List.nodup_cons, List.mem_map]
    refine ⟨?_, ih h.2 c⟩
    rintro ⟨d, hd, hp⟩
    exact hout h.1 d hd (by rw [hp]; exact List.prefix_rfl)
  | pending n site next ih => intro c; exact ih h.2 c
  | context n site known inner next ihi ih =>
    intro c
    obtain ⟨hn, hi, hd⟩ := h
    rw [tests, List.map_append, List.nodup_append]
    refine ⟨ihi hi _, ih hd c, ?_⟩
    intro a ha b hb hab
    obtain ⟨d, hd, rfl⟩ := List.mem_map.mp ha
    obtain ⟨e, he, rfl⟩ := List.mem_map.mp hb
    obtain ⟨m, -, hm⟩ := through_names hd
    exact hout hn e he (hab ▸ (List.prefix_append _ _).trans hm)

/-- Entering a context, and its failure, run no body of their own. -/
theorem runs?_opening (c : Context) (n : String) (site : Location) (known : Bool) (inner : Plan)
    (inside : List Finding) : (opening c n site known inner inside).filterMap Finding.runs?
      = inside.filterMap Finding.runs? := by
  have hhead : (if known then [] else [Finding.context (.child c n site)]).filterMap Finding.runs?
      = [] := by cases known <;> rfl
  have hlast : (inner.failure?.map (Finding.failed ⟨c, n, site⟩)).toList.filterMap Finding.runs?
      = [] := by cases inner.failure? <;> rfl
  rw [opening, List.filterMap_append, List.filterMap_append, hhead, hlast, List.append_nil,
    List.nil_append]

/-- No test is found more often than it is declared. -/
theorem count_found (p : Plan) (path : NamePath) : ∀ c ran,
    ((p.first c ran).filterMap Finding.runs?).count path
      + ((p.rest c ran).filterMap Finding.runs?).count path
      ≤ ((p.tests c).map Description.path).count path := by
  induction p with
  | stop e => intro c ran; exact Nat.le_refl _
  | test n site body next ih =>
    intro c ran
    have := ih c true
    simp only [first, rest, tests, Finding.runs?, List.filterMap_cons, List.map_cons,
      List.count_cons]
    omega
  | pending n site next ih => intro c ran; exact ih c ran
  | context n site known inner next ihi ih =>
    intro c ran
    have hi := ihi (.child c n site) false
    have hn := ih c (ran || inner.fails || inner.runs false)
    simp only [first, rest, tests, List.filterMap_append, List.map_append, List.count_append]
    -- the context is found by this scan or behind it, and its rest is found unless it failed
    by_cases hran : ran = true <;> by_cases hf : inner.fails = true <;>
      simp only [hran, hf, if_true, Bool.false_eq_true, if_false, runs?_opening,
        List.filterMap_nil, List.count_nil] at hn hi ⊢ <;>
      omega

end Plan

/-- The bodies that are listed by a discovery of a plan: the root and the paths of their tests. -/
def RootContext.bodies (r : RootContext) (p : Plan) : List (Nat × NamePath) :=
  ((r.findings p).filterMap Finding.runs?).map fun path => (r.index, path)

/-- Tests that are found have different paths. -/
theorem RootContext.nodup_bodies {p : Plan} (h : p.Distinct) (r : RootContext) :
    (r.bodies p).Nodup := by
  refine List.Nodup.map (fun a b hab => (Prod.mk.inj hab).2) ?_
  rw [List.nodup_iff_count_le_one]
  intro path
  have hle := p.count_found path r.context false
  have hone := List.nodup_iff_count_le_one.mp (p.nodup_tests h r.context) path
  rw [findings, findingsFrom, List.filterMap_append, List.count_append]
  cases p.failure? with
  | some c =>
    rw [show [Finding.failed ⟨r.context, r.name, r.location⟩ c].filterMap Finding.runs? = [] from rfl,
      List.count_nil]
    omega
  | none => exact hle.trans hone

/-! ### Units that run one body -/

/-- The unit runs the body of its test and no other one, in whatever world, and ends in a fair
result. -/
def TestUnit.RunsBody (r : RootContext) (u : TestUnit) : Prop :=
  ∀ w : World, ∃ res v, w.runUnit u = (.ok res, v) ∧ res.Fair ∧
    v.book.bodies = (r.index, u.test.path) :: w.book.bodies

theorem bodies_entries (root : Nat) (path : NamePath) (n : Nat) :
    (entries root path n).filterMap Event.body? = [] := by
  rw [List.filterMap_eq_nil_iff]
  intro e he
  rw [entries, List.mem_reverse, List.mem_map] at he
  obtain ⟨k, -, rfl⟩ := he
  rfl

/-- A direct unit runs its body, and what its pass registered is closed behind it. -/
theorem TestUnit.runsBody_direct {r : RootContext} {d : Description} {body : Body} {scope : Scope}
    {shelf : Nat} (hs : scope.root = r.index) : (direct d body scope shelf).RunsBody r := by
  intro w
  have hframe := (Body.run_framed (t := ⟨d, w.listener, scope⟩) (Q := fun _ => True)
    (Notebook.frame_deeds scope) trivial body
    ⟨w.shelf shelf, w.book.add (.ran scope.root d.path)⟩).book
  refine ⟨_, _, rfl, conclude_fair (fun e => Body.ofBody_failure?) _, ?_⟩
  refine (Notebook.bodies_of_deeds (Notebook.deeds_sweep _ _)).trans ?_
  refine (Notebook.bodies_of_deeds (congrArg Prod.fst hframe)).trans ?_
  rw [Notebook.bodies_add, hs]
  rfl

/-- A replay of a declared test runs its body. -/
theorem TestUnit.runsBody_replayed {r : RootContext} {p : Plan} (h : r.builder.Declares p)
    (hd : p.Distinct) {d : Description} (ht : d ∈ p.tests r.context) :
    (replayed d r).RunsBody r := by
  intro w
  obtain ⟨hfair, hdeeds⟩ := r.replay_listed h hd ht w.listener w.book
  refine ⟨_, _, rfl, hfair, ?_⟩
  show (replay w.listener r d w.book).2.bodies = _
  rw [Notebook.bodies_eq_deeds, hdeeds, List.filterMap_cons, List.filterMap_append, bodies_entries,
    ← Notebook.bodies_eq_deeds]
  rfl

/-! ### What moves do to handles -/

namespace World

/-- The test whose unit was in the cell of a handle in the world `w`, and has run in `v`. -/
def executed? (w v : World) (h : Handle) : Option Description :=
  match w.cell h.cell, v.cell h.cell with
  | .suspended u, .done _ => some u.test
  | _, _ => none

/-- What has become of a cell that held `before`: it is as it was, it was cancelled, or its unit has
run and left a fair result. -/
inductive Became (before : Cell TestUnit Outcome) : Cell TestUnit Outcome → Prop
  | same : Became before before
  | cancelled {u : TestUnit} (h : before = .suspended u) : Became before .cancelled
  | ran {u : TestUnit} {res : TestResult} (h : before = .suspended u) (hr : res.Fair) :
      Became before (.done ⟨u.test, res⟩)

/-- What moves of the handles `hs` have done between `w` and `v`: each body that was run belongs
to a handle whose unit has run. -/
structure Served (r : RootContext) (hs : List Handle) (w v : World) : Prop where
  calm : v.listener.Calm
  cells : ∀ h ∈ hs, Became (w.cell h.cell) (v.cell h.cell)
  bodies : v.book.bodies.Perm
    (hs.filterMap (fun h => (executed? w v h).map fun d => (r.index, d.path)) ++ w.book.bodies)

section Served

variable {r : RootContext} {hs : List Handle} {w v v' : World}

/-- A cell that holds a unit was never touched. -/
theorem Became.eq_of_suspended {before after : Cell TestUnit Outcome} {u : TestUnit}
    (h : Became before after) (hu : after = .suspended u) : before = .suspended u := by
  cases h with
  | same => exact hu
  | cancelled _ => cases hu
  | ran _ _ => cases hu

/-- A cell that held an outcome was never touched either. -/
theorem Became.eq_of_done {before after : Cell TestUnit Outcome} {o : Outcome}
    (h : Became before after) (ho : before = .done o) : after = .done o := by
  cases h with
  | same => exact ho
  | cancelled hu =>
    rw [ho] at hu
    cases hu
  | ran hu _ =>
    rw [ho] at hu
    cases hu

/-- One handle more has run its unit. -/
theorem perm_filterMap {β : Type} {f g : Handle → Option β} {h : Handle} {b : β}
    (hnd : (hs.map Handle.cell).Nodup) (hh : h ∈ hs) (hf : f h = none) (hg : g h = some b)
    (hother : ∀ k ∈ hs, k.cell ≠ h.cell → g k = f k) :
    (hs.filterMap g).Perm (b :: hs.filterMap f) := by
  induction hs with
  | nil => cases hh
  | cons k rest ih =>
    rw [List.map_cons, List.nodup_cons] at hnd
    -- either the handle is the first one, and no other has its cell, or it comes later
    rcases List.mem_cons.mp hh with rfl | hmem
    · have hrest : rest.filterMap g = rest.filterMap f := by
        refine List.filterMap_congr fun k hk => hother k (List.mem_cons_of_mem _ hk) ?_
        exact fun heq => hnd.1 (heq ▸ List.mem_map_of_mem hk)
      rw [List.filterMap_cons, List.filterMap_cons, hf, hg, hrest]
    · have hne : k.cell ≠ h.cell := fun heq => hnd.1 (heq ▸ List.mem_map_of_mem hmem)
      have hk := hother k List.mem_cons_self hne
      have hrest := ih hnd.2 hmem fun l hl => hother l (List.mem_cons_of_mem _ hl)
      rw [List.filterMap_cons, List.filterMap_cons, hk]
      cases f k with
      | none => exact hrest
      | some a => exact (hrest.cons a).trans (.swap b a _)

/-- Diagnostics and the pool do not count. -/
theorem Served.rest (hv : Served r hs w v) (h : v.Rests v') : Served r hs w v' := by
  have hcell : ∀ j, v'.cell j = v.cell j := fun j => by rw [cell, cell, h.cells]
  refine ⟨by rw [h.listener]; exact hv.calm, fun k hk => ?_, ?_⟩
  · rw [hcell]
    exact hv.cells k hk
  · rw [Notebook.bodies_of_acts h.acts]
    simp only [executed?, hcell]
    exact hv.bodies

/-- A unit that runs adds its body. -/
theorem Served.run (hnd : (hs.map Handle.cell).Nodup)
    (hunits : ∀ h ∈ hs, ∀ u, w.cell h.cell = .suspended u → u.RunsBody r) (hv : Served r hs w v)
    {h : Handle} (hh : h ∈ hs) : Served r hs w (v.runCell h.cell).2 := by
  by_cases hu : ∃ u, v.cell h.cell = .suspended u
  · obtain ⟨u, hu⟩ := hu
    have hwu := (hv.cells h hh).eq_of_suspended hu
    obtain ⟨res, z, hr, hfair, hbodies⟩ := hunits h hh u hwu (v.begun h.cell u)
    rw [runCell_suspended hv.calm hu hr]
    have hself : (z.ended h.cell ⟨u.test, res⟩).cell h.cell = _ := cell_ended_self hu hr
    have hother : ∀ k ∈ hs, k.cell ≠ h.cell →
        (z.ended h.cell ⟨u.test, res⟩).cell k.cell = v.cell k.cell :=
      fun k _ hk => cell_ended_of_ne hr hk
    refine ⟨?_, fun k hk => ?_, ?_⟩
    · have hl := listener_runUnit (v.begun h.cell u) u
      rw [hr] at hl
      show z.listener.Calm
      rw [show z.listener = v.listener from hl]
      exact hv.calm
    · by_cases hc : k.cell = h.cell
      · rw [hc, hself]
        exact .ran hwu hfair
      · rw [hother k hk hc]
        exact hv.cells k hk
    · -- the handle joins those that were executed, and its body those that were run
      have hz : (z.ended h.cell ⟨u.test, res⟩).book.bodies
          = (r.index, u.test.path) :: v.book.bodies := hbodies
      rw [hz]
      refine (hv.bodies.cons _).trans ?_
      rw [← List.cons_append]
      refine (List.Perm.append_right _ (perm_filterMap hnd hh ?_ ?_ ?_)).symm
      · simp only [executed?, hwu, hu]
        rfl
      · simp only [executed?, hwu, hself]
        rfl
      · intro k hk hc
        simp only [executed?, hother k hk hc]
  · rw [runCell_of_ne fun u hc => hu ⟨u, hc⟩]
    exact hv

/-- A test that is cancelled runs no body. -/
theorem Served.cancel (hv : Served r hs w v) {h : Handle} (hh : h ∈ hs) :
    Served r hs w (v.cancel h).2 := by
  by_cases hu : ∃ u, v.cell h.cell = .suspended u
  · obtain ⟨u, hu⟩ := hu
    have hwu := (hv.cells h hh).eq_of_suspended hu
    rw [cancel_suspended hv.calm hu]
    refine ⟨?_, fun k hk => ?_, ?_⟩
    · rw [listener_withdrawn]
      exact hv.calm
    · by_cases hc : k.cell = h.cell
      · rw [hc, cell_withdrawn_self hu]
        exact .cancelled hwu
      · rw [cell_withdrawn_of_ne hc]
        exact hv.cells k hk
    · have hb : (v.withdrawn h u).book.bodies = v.book.bodies := by
        show ((v.setCell h.cell .cancelled).dropUnit u).book.bodies = _
        exact Notebook.bodies_of_deeds (deeds_dropUnit (v.setCell h.cell .cancelled) u)
      -- a cell that is cancelled was not executed before, and is not now
      rw [hb]
      refine hv.bodies.trans (List.Perm.of_eq ?_)
      congr 1
      refine List.filterMap_congr fun k hk => ?_
      by_cases hc : k.cell = h.cell
      · simp only [executed?, hc, hwu, hu, cell_withdrawn_self hu]
      · simp only [executed?, cell_withdrawn_of_ne hc]
  · rw [cancel_of_ne fun u hc => hu ⟨u, hc⟩]
    exact hv

/-- **One move: a unit that runs adds its body, and nothing else does.** -/
theorem Served.move (hnd : (hs.map Handle.cell).Nodup)
    (hunits : ∀ h ∈ hs, ∀ u, w.cell h.cell = .suspended u → u.RunsBody r)
    (hm : Move hs v v') (hv : Served r hs w v) : Served r hs w v' := by
  cases hm with
  | rest h => exact hv.rest h
  | run hh => exact hv.run hnd hunits hh
  | cancel hh => exact hv.cancel hh

end Served

end World

/-! ### The handles of a discovery -/

namespace Finding

variable {r : RootContext} {p : Plan} {v : World} {f : Finding} {h : Handle}

theorem cell_of_some {c : Cell TestUnit Outcome} (hc : v.cells[h.cell]? = some c) :
    v.cell h.cell = c := by
  rw [World.cell, hc]
  rfl

theorem HeldBy.unit {d : Description} {body : Body}
    (hheld : (Finding.test d body).HeldBy r v.cells h) :
    ∃ u : TestUnit, u.test = d ∧ v.cell h.cell = .suspended u := by
  obtain ⟨-, hc | ⟨scope, shelf, -, hc⟩⟩ := hheld
  · exact ⟨_, rfl, cell_of_some hc⟩
  · exact ⟨_, rfl, cell_of_some hc⟩

/-- Only handles of tests have units in their cells: direct ones, or those that replay the root. -/
theorem HeldBy.of_suspended (hheld : f.HeldBy r v.cells h) {u : TestUnit}
    (hu : v.cell h.cell = .suspended u) : ∃ d body, f = .test d body ∧
      (u = .replayed d r ∨ ∃ scope shelf, scope.root = r.index ∧ u = .direct d body scope shelf) := by
  cases f with
  | context c => exact absurd hheld id
  | test d body =>
    refine ⟨d, body, rfl, ?_⟩
    obtain ⟨-, hc | ⟨scope, shelf, hs, hc⟩⟩ := hheld
    · rw [cell_of_some hc] at hu
      cases hu
      exact .inl rfl
    · rw [cell_of_some hc] at hu
      cases hu
      exact .inr ⟨scope, shelf, hs, rfl⟩
  | pending d =>
    rw [cell_of_some hheld.2] at hu
    cases hu
  | failed d c =>
    obtain ⟨-, notes, hc⟩ := hheld
    rw [cell_of_some hc] at hu
    cases hu

theorem mem_tests {d : Description} {body : Body} (hf : .test d body ∈ r.findings p) :
    d ∈ p.tests r.context := by
  rw [RootContext.findings, RootContext.findingsFrom, List.mem_append] at hf
  refine Plan.mem_tests_of_found (hf.imp_right fun hr => ?_)
  cases hp : p.failure? with
  | some c =>
    rw [hp] at hr
    cases List.mem_singleton.mp hr
  | none =>
    rw [hp] at hr
    exact hr

/-- A handle that is to be replayed belongs to a test of the root. -/
theorem HeldBy.replayed {t : Description} {root : RootContext} (hf : f ∈ r.findings p)
    (hheld : f.HeldBy r v.cells h) (hu : v.cell h.cell = .suspended (.replayed t root)) :
    root = r ∧ t ∈ p.tests r.context := by
  obtain ⟨d, body, rfl, hu | ⟨scope, shelf, -, hu⟩⟩ := hheld.of_suspended hu
  · cases hu
    exact ⟨rfl, mem_tests hf⟩
  · cases hu

theorem HeldBy.runsBody (hb : r.builder.Declares p) (hd : p.Distinct) (hf : f ∈ r.findings p)
    (hheld : f.HeldBy r v.cells h) {u : TestUnit} (hu : v.cell h.cell = .suspended u) :
    u.RunsBody r := by
  obtain ⟨d, body, rfl, rfl | ⟨scope, shelf, hs, rfl⟩⟩ := hheld.of_suspended hu
  · exact TestUnit.runsBody_replayed hb hd (mem_tests hf)
  · exact TestUnit.runsBody_direct hs

/-- The body that a handle has run is the one of its finding. -/
theorem HeldBy.executed {V : World} (hheld : f.HeldBy r v.cells h)
    (hb : World.Became (v.cell h.cell) (V.cell h.cell)) (hdone : (V.cell h.cell).isDone = true)
    (hc : V.cell h.cell ≠ .cancelled) :
    (World.executed? v V h).map Description.path = f.runs? := by
  cases f with
  | context c => exact absurd hheld id
  | test d body =>
    obtain ⟨u, hut, hu⟩ := hheld.unit
    generalize hV : V.cell h.cell = c at hb hdone hc
    cases hb with
    | same => rw [hu] at hdone; cases hdone
    | cancelled _ => exact absurd rfl hc
    | ran hu' _ =>
      simp only [World.executed?, hu, hV, Option.map_some, hut, runs?]
  | pending d => simp only [World.executed?, cell_of_some hheld.2]; rfl
  | failed d c =>
    obtain ⟨-, notes, hc⟩ := hheld
    simp only [World.executed?, cell_of_some hc]
    rfl

/-- The outcome of a handle that is final and was not cancelled. -/
theorem HeldBy.outcome {V : World} (hheld : f.HeldBy r v.cells h)
    (hb : World.Became (v.cell h.cell) (V.cell h.cell)) (hdone : (V.cell h.cell).isDone = true)
    (hc : V.cell h.cell ≠ .cancelled) :
    ∃ o, V.outcome? h = some o ∧ o.test = h.test ∧ ∀ e, o.result = .failed e →
      e.origin ≠ .replayMismatch ∧ (e.origin = .contextBuild → ∃ c, f = .failed h.test c) := by
  have hsome : ∀ {o}, V.cell h.cell = .done o → V.outcome? h = some o := by
    intro o ho
    rw [World.outcome?, ho]
    rfl
  cases f with
  | context c => exact absurd hheld id
  | test d body =>
    obtain ⟨u, hut, hu⟩ := hheld.unit
    generalize hV : V.cell h.cell = c at hb hdone hc
    cases hb with
    | same => rw [hu] at hdone; cases hdone
    | cancelled _ => exact absurd rfl hc
    | @ran u' res hu' hfair =>
      rw [hu] at hu'
      cases hu'
      refine ⟨_, hsome hV, hut.trans hheld.1.symm, fun e he => ?_⟩
      -- a fair result fails in its body or in cleaning up
      obtain rfl : res = .failed e := he
      rcases hfair with ho | ho | ho
      · exact ⟨by rw [ho]; exact nofun, fun hx => by rw [ho] at hx; cases hx⟩
      · exact ⟨by rw [ho]; exact nofun, fun hx => by rw [ho] at hx; cases hx⟩
      · exact ⟨by rw [ho]; exact nofun, fun hx => by rw [ho] at hx; cases hx⟩
  | pending d =>
    have hv := hb.eq_of_done (cell_of_some hheld.2)
    refine ⟨_, hsome hv, hheld.1.symm, fun e he => ?_⟩
    cases he
  | failed d c =>
    obtain ⟨ht, notes, hn⟩ := hheld
    have hv := hb.eq_of_done (cell_of_some hn)
    refine ⟨_, hsome hv, ht.symm, fun e he => ?_⟩
    cases he
    exact ⟨nofun, fun _ => ⟨c, by rw [ht]⟩⟩

end Finding

namespace World

/-- Nothing has been done with the handles yet. -/
theorem served_refl {r : RootContext} {hs : List Handle} {w : World} (hw : w.listener.Calm) :
    Served r hs w w where
  calm := hw
  cells := fun _ _ => .same
  bodies := by
    have hnone : ∀ h ∈ hs, (executed? w w h).map (fun d => (r.index, d.path)) = none := by
      intro h _
      rw [executed?]
      split
      · rename_i hu hd
        rw [hu] at hd
        cases hd
      · rfl
    rw [List.filterMap_eq_nil_iff.mpr hnone, List.nil_append]

end World

namespace RootContext

variable {r : RootContext} {p : Plan}

/-- If all handles are final and none was cancelled, the bodies that were run are those listed. -/
theorem executed_eq_bodies {v V : World} {hs : List Handle} {fs : List Finding}
    (hheld : List.Forall₂ (Finding.HeldBy r v.cells) (fs.filter Finding.isTest) hs)
    (hcells : ∀ h ∈ hs, World.Became (v.cell h.cell) (V.cell h.cell))
    (hdone : ∀ h ∈ hs, (V.cell h.cell).isDone = true ∧ V.cell h.cell ≠ .cancelled) :
    hs.filterMap (fun h => (World.executed? v V h).map fun d => (r.index, d.path))
      = (fs.filterMap Finding.runs?).map fun path => (r.index, path) := by
  have hruns : fs.filterMap Finding.runs? = (fs.filter Finding.isTest).filterMap Finding.runs? := by
    rw [List.filterMap_filter]
    refine List.filterMap_congr fun f _ => ?_
    cases f <;> rfl
  rw [hruns]
  -- findings and handles go side by side
  generalize fs.filter Finding.isTest = gs at hheld
  induction hheld with
  | nil => rfl
  | @cons f h gs hs hf _ ih =>
    obtain ⟨hd, hc⟩ := hdone h List.mem_cons_self
    have hfirst := hf.executed (hcells h List.mem_cons_self) hd hc
    have hrest := ih (fun k hk => hcells k (List.mem_cons_of_mem _ hk))
      fun k hk => hdone k (List.mem_cons_of_mem _ hk)
    rw [List.filterMap_cons, List.filterMap_cons, ← hfirst]
    cases World.executed? v V h with
    | none => exact hrest
    | some d => exact congrArg (_ :: ·) hrest

/-- **Discovery and replay agree, and every body runs exactly once.**  However the handles of a
discovery become final, as long as none is cancelled: the bodies that were run since are exactly the
listed ones, each once; no replay misses its target; and only failed contexts, the root among them,
have failures of context building.  A replay enters exactly the contexts on the path of its target,
each once, and changes nothing but the notebook, in which it tells of no outcome. -/
theorem bodies_once (h : r.builder.Declares p) (hd : p.Distinct) {w : World}
    (hw : w.listener.Calm) (hq : w.pool.queue = []) :
    ∃ d v, r.discover w = (.ok (.ok d), v) ∧ v.book.bodies = w.book.bodies ∧ (r.bodies p).Nodup ∧
      (∀ us : List Use, (∀ u ∈ us, ∀ k ∈ u.handles, k ∈ d.tests) →
        (∀ k ∈ d.tests, ((v.useAll us).cell k.cell).isDone = true ∧
          (v.useAll us).cell k.cell ≠ .cancelled) →
        (v.useAll us).book.bodies.Perm (r.bodies p ++ w.book.bodies) ∧
        ∀ k ∈ d.tests, ∃ o, (v.useAll us).outcome? k = some o ∧ o.test = k.test ∧
          ∀ e, o.result = .failed e → e.origin ≠ .replayMismatch ∧
            (e.origin = .contextBuild → ∃ c, .failed k.test c ∈ r.findings p)) ∧
      ∀ k ∈ d.tests, ∀ t root, v.cell k.cell = .suspended (.replayed t root) →
        ∀ u : World, ∃ n, (u.runUnit (.replayed t root)).2 = { u with book := n } ∧
          n.deeds = .ran r.index t.path :: (entries r.index t.container.path 0 ++ u.book.deeds) := by
  obtain ⟨d, v, hdv, k⟩ := discover_discovers h hd (calmFor_of_calm hw)
  obtain ⟨hs, hts, hl⟩ := k.lists
  rw [List.nil_append] at hts
  subst hts
  have hfound : ∀ k ∈ d.tests, ∃ f ∈ r.findings p, f.HeldBy r v.cells k := by
    intro k hk
    obtain ⟨f, hf, hheld⟩ := exists_of_forall₂ hl.held hk
    exact ⟨f, List.mem_of_mem_filter hf, hheld⟩
  refine ⟨d, v, hdv, hl.adds.bodies, r.nodup_bodies hd, fun us hus hfinal => ?_, ?_⟩
  · -- the moves that the uses are made of
    obtain ⟨hmoves, -⟩ := World.useAll_moves hus v (hl.adds.within (World.within_nil hq))
    have hv : v.listener.Calm := by
      rw [hl.adds.listener]
      exact hw
    -- every move keeps what was served, since every unit in a cell runs its own body
    have hserved : World.Served r d.tests v (v.useAll us) := by
      refine hmoves.keep (fun hm hserved => hserved.move hl.adds.nodup ?_ hm) (World.served_refl hv)
      intro k hk u hu
      obtain ⟨f, hf, hheld⟩ := hfound k hk
      exact hheld.runsBody h hd hf hu
    constructor
    · have hb := hserved.bodies
      rwa [executed_eq_bodies hl.held hserved.cells hfinal, hl.adds.bodies] at hb
    · intro k hk
      obtain ⟨f, hf, hheld⟩ := hfound k hk
      obtain ⟨hdone, hc⟩ := hfinal k hk
      obtain ⟨o, ho, hot, horigin⟩ := hheld.outcome (hserved.cells k hk) hdone hc
      refine ⟨o, ho, hot, fun e he => ⟨(horigin e he).1, fun hx => ?_⟩⟩
      obtain ⟨c, rfl⟩ := (horigin e he).2 hx
      exact ⟨c, hf⟩
  · intro k hk t root hu u
    obtain ⟨f, hf, hheld⟩ := hfound k hk
    obtain ⟨rfl, hmem⟩ := hheld.replayed hf hu
    exact ⟨_, rfl, (replay_listed h hd hmem u.listener u.book).2⟩

/-- The small root runs three bodies, the one in the context that failed among them. -/
theorem bodies_once_smallRoot :
    ∃ d v, smallRoot.discover (.fresh (.held 1) .silent .eager) = (.ok (.ok d), v) ∧
      ∀ us : List Use, (∀ u ∈ us, ∀ k ∈ u.handles, k ∈ d.tests) →
        (∀ k ∈ d.tests, ((v.useAll us).cell k.cell).isDone = true ∧
          (v.useAll us).cell k.cell ≠ .cancelled) →
        (v.useAll us).book.bodies.Perm
          [(0, ["root", "a"]), (0, ["root", "broken", "b"]), (0, ["root", "late", "c"])] := by
  obtain ⟨d, v, hd, -, -, hall, -⟩ := bodies_once smallRoot_declares smallPlan_distinct
    (w := .fresh (.held 1) .silent .eager) (fun _ => rfl) rfl
  exact ⟨d, v, hd, fun us hus hfinal => (hall us hus hfinal).1⟩

end RootContext

end TestTree

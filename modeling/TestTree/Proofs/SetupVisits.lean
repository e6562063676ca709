/-
How often the passes of a discovery set up contexts.

* `World.setups` : how often a context was set up, and will be by replays that have not begun;
* `Builder.Declares.visit_setups` : a visit sets up what a scan of the plan sets up;
* `RootContext.Begins.bill` : what the passes so far have set up, and what is due behind them;
* `RootContext.discover_setups` : **discovery sets up each context, or leaves it to replays, as often
  as is due for its plan**.

## Design notes

The account of a context is kept by an equation.  Entering it and making a replay that will enter it
count alike, so running the replay later changes nothing.
-/
import TestTree.Proofs.Entrances
import TestTree.Proofs.PassCount
import TestTree.Proofs.PlanSetups

namespace TestTree

/-- One entrance more. -/
theorem count_entrances (root : Nat) (path ext : NamePath) (es : List (Nat × NamePath)) :
    ((root, ext) :: es).count (root, path) = es.count (root, path) + if ext = path then 1 else 0 := by
  rw [List.count_cons]
  by_cases h : ext = path
  · rw [if_pos h, h, if_pos (beq_self_eq_true _)]
  · rw [if_neg h, if_neg fun heq => h (Prod.mk.inj (beq_iff_eq.mp heq)).2]

/-! ### Replays that have not begun -/

/-- The unit of the cell is a replay, on whose way the context with the given path is. -/
def Cell.replays (path : NamePath) : Cell TestUnit Outcome → Bool
  | .suspended (.replayed d _) => decide (path <+: d.container.path)
  | _ => false

namespace World

variable {w : World} {root : Nat} {path : NamePath}

/-- How many replays that have not begun will enter the context. -/
def replays (w : World) (path : NamePath) : Nat :=
  w.cells.countP (Cell.replays path)

/-- How often a context was set up, and will be by replays that have not begun. -/
def setups (w : World) (root : Nat) (path : NamePath) : Nat :=
  w.book.entrances.count (root, path) + w.replays path

theorem setups_congr {v : World} (hb : v.book.entrances = w.book.entrances)
    (hc : v.cells = w.cells) : v.setups root path = w.setups root path := by
  rw [setups, setups, replays, replays, hb, hc]

theorem setups_append {v : World} {c : Cell TestUnit Outcome}
    (hb : v.book.entrances = w.book.entrances) (hc : v.cells = w.cells ++ [c]) :
    v.setups root path = w.setups root path + (c.replays path).toNat := by
  rw [setups, setups, replays, replays, hb, hc, List.countP_append, List.countP_singleton]
  cases c.replays path <;> rfl

end World

namespace Pass

variable {s : PassScope} {path : NamePath} {x y z : Pass} {p q : Plan} {r : Ran BuildError Pass}

theorem setups_complete (x : Pass) (o : Outcome) (root : Nat) (path : NamePath) :
    (x.complete o).state.world.setups root path = x.world.setups root path := by
  have hb := x.entrances_complete o
  rw [complete, World.completed, World.notify, Notebook.notify] at hb ⊢
  cases hp : x.world.listener.panic? (.finished o) with
  | some p =>
    rw [hp] at hb
    exact World.setups_congr hb rfl
  | none =>
    rw [hp] at hb
    exact World.setups_append (c := .done o) hb rfl

theorem setups_fails (x : Pass) (name : String) (site : Location) (failure : Failure) (root : Nat)
    (path : NamePath) :
    (x.fails name site failure).state.world.setups root path = x.world.setups root path := by
  have hc := x.setups_complete ⟨⟨x.visit.context, name, site⟩, .failed failure⟩ root path
  rw [fails]
  generalize x.complete ⟨⟨x.visit.context, name, site⟩, .failed failure⟩ = c at hc
  rcases c with ⟨_ | e | p, z⟩
  · exact hc
  · exact hc
  · exact hc

/-- Leaving a context sets up none. -/
theorem setups_leave (parent : Visit) (name : String) (site : Location) (mark : Nat)
    (r : Ran BuildError Pass) (root : Nat) :
    (leave parent name site mark r).state.world.setups root path
      = r.state.world.setups root path := by
  have hfailed : ∀ failure, (leaveFailed name site mark failure
      (r.state.within parent)).state.world.setups root path = r.state.world.setups root path := by
    intro failure
    by_cases hd : (r.state.within parent).search.direct.isSome = true
    · rw [leaveFailed_owned hd]
      exact setups_fails _ _ _ _ _ _
    · rw [leaveFailed_swept hd, setups_fails]
      exact World.setups_congr (Notebook.entrances_sweep _ _) rfl
  rw [leave]
  rcases r.ending with _ | (e | c) | p
  · exact congrArg (World.setups · root path) (world_leaveFinished _ _ _)
  · rfl
  · exact hfailed _
  · exact hfailed _

/-! ### What a visit adds -/

/-- The part of a visit that ends as `r` sets up the context as often as a scan of `q` does. -/
def Charges (s : PassScope) (path : NamePath) (x : Pass) (q : Plan) (r : Ran BuildError Pass) :
    Prop :=
  r.state.world.setups s.root.index path
    = x.world.setups s.root.index path + q.setups path x.visit.context x.visit.ran

/-- A step that sets up nothing before a visit. -/
theorem Charges.quiet (k : Charges s path y q r) (hv : y.visit = x.visit)
    (hb : y.world.book.entrances = x.world.book.entrances)
    (hc : y.world.cells = x.world.cells) : Charges s path x q r := by
  rw [Charges, k, World.setups_congr hb hc, hv]

theorem charges_stop {e : Ending Cause} {o : Ending BuildError} (hx : x.Ready (.stop e) q) :
    Charges s path x q ⟨o, x⟩ := by
  have h := hx.stands
  cases h
  rfl

theorem Charges.andThen {a : Plan} {next : Pass → Ran BuildError Pass}
    (hx : x.Ready (a.andThen p) q)
    (ha : ∀ {q'}, x.Ready a q' → Scans s x a q' r ∧ Charges s path x q' r)
    (hp : a.ending = .finished → ∀ {y q'}, y.Ready p q' → Charges s path y q' (next y)) :
    Charges s path x q (r.andThen next) := by
  by_cases he : a.ending = .finished
  · obtain ⟨q₁, q₂, rfl, h₁, h₂⟩ := Search.Stands.split he hx.stands
    obtain ⟨hd₁, -, -⟩ := Plan.Distinct.andThen he p hx.distinct
    obtain ⟨k, hfirst⟩ := ha ⟨h₁, hd₁, fun n hn => hx.unnamed n (by
      rw [Plan.names_andThen he]
      exact List.mem_append_left _ hn), (Plan.CalmFor.andThen he p hx.calm).1⟩
    rcases r with ⟨e, y⟩
    obtain rfl : e = .finished := k.ending.trans (Plan.buildEnding_finished he)
    have hsecond := hp he (k.ready he hx h₂)
    have hc : y.visit.context = x.visit.context := k.context
    have hran : y.visit.ran = q₁.runs x.visit.ran := k.ran
    have hy : y.world.setups s.root.index path = _ := hfirst
    rw [Ran.andThen_finished, Charges, hsecond, hy, hc, hran,
      Plan.setups_andThen (h₁.ending.trans he), Nat.add_assoc]
  · have hap := Plan.andThen_of_fails he p
    rw [hap] at hx
    obtain ⟨k, hfirst⟩ := ha hx
    rwa [Ran.andThen_of_ne (k.ending ▸ Plan.buildEnding_ne he)]

theorem Charges.swallowing (k : Charges s path x q r) (swallow : Bool) :
    Charges s path x q (r.swallowing swallow) := by
  rw [Charges, Ran.state_swallowing]
  exact k

/-- The first test of a pass sets up nothing, and any other one will be replayed. -/
theorem charges_test {name : String} {site : Location} {body : Body}
    (hx : x.Ready (.test name site body (.stop .finished)) q) :
    Charges s path x q (x.declareTest s name site body) := by
  have hname : name ∉ x.visit.names := hx.unnamed name (List.mem_singleton.mpr rfl)
  have hb := x.entrances_declareTest (s := s) name site body
  cases hx.stands with
  | testDone hn h =>
    cases h
    rw [declareTest_processed hname (isProcessed_iff.mpr hn)]
    rfl
  | test hn h =>
    cases h
    have hp := mt isProcessed_iff.mp hn
    by_cases hran : x.visit.ran = true
    · rw [declareTest_replayed hname hp hran] at hb ⊢
      refine (World.setups_append hb (World.cells_schedule _ _)).trans ?_
      rw [Plan.setups, hran, Cell.replays]
      by_cases hway : path <+: x.visit.context.path
      · rw [if_pos ⟨rfl, hway⟩, decide_eq_true hway]
        rfl
      · rw [if_neg fun h => hway h.2, decide_eq_false hway]
        rfl
    · rw [declareTest_direct hname hp hran] at hb ⊢
      refine (World.setups_append hb rfl).trans ?_
      rw [Plan.setups, if_neg fun h => hran h.1]
      rfl

theorem charges_pending {name : String} {site : Location}
    (hx : x.Ready (.pending name site (.stop .finished)) q) :
    Charges s path x q (x.declarePending name site) := by
  have hname : name ∉ x.visit.names := hx.unnamed name (List.mem_singleton.mpr rfl)
  cases hx.stands with
  | pendingDone hn h =>
    cases h
    rw [declarePending_processed hname (isProcessed_iff.mpr hn)]
    rfl
  | pending hn h =>
    cases h
    rw [declarePending_new hname (mt isProcessed_iff.mp hn)]
    exact setups_complete _ _ _ _

/-- A context is set up when it is entered, and as its own declarations say. -/
theorem charges_context {name : String} {site : Location} {inner : Builder} {i : Plan}
    (hx : x.Ready (.context name site false i (.stop .finished)) q)
    (hi : ∀ {y : Pass} {j : Plan}, y.Ready i j → Charges s path y j (inner.visit s y)) :
    Charges s path x q
      (match x.enter? s name site with
        | .inl outside => outside
        | .inr y => leave (x.parentVisit name) name site y.shelf.mark (inner.visit s y)) := by
  have hname : name ∉ x.visit.names := hx.unnamed name (List.mem_singleton.mpr rfl)
  cases hx.stands with
  | contextDone hn h =>
    cases h
    rw [enter?_processed hname (isProcessed_iff.mpr hn)]
    rfl
  | @context _ _ _ known _ j _ _ hn hnode hij h =>
    cases h
    have hp := mt isProcessed_iff.mp hn
    by_cases hran : x.visit.ran = true
    · rw [enter?_skipped hname hp hran, Charges, Plan.setups, if_pos hran]
      rfl
    · have hy : x.enter? s name site = .inr (x.inside s name site known) :=
        enter?_eq_inside hname hp hran hnode
      have hb := entrances_enter hy
      have k := hi (hx.inside (s := s) hij)
      rw [hy]
      show (leave _ _ _ _ _).state.world.setups _ _ = _
      rw [setups_leave, k, Plan.setups, if_neg hran]
      have hentered : (x.inside s name site known).world.setups s.root.index path
          = x.world.setups s.root.index path
            + if x.visit.context.path ++ [name] = path then 1 else 0 := by
        rw [World.setups, World.setups, hb, count_entrances]
        exact Nat.add_right_comm ..
      rw [hentered]
      show _ + j.setups path (.child x.visit.context name site) false = _
      rw [Plan.setups]
      omega

end Pass

open Pass

/-- **A visit of a builder that declares a plan sets up what a scan of the plan sets up.** -/
theorem Builder.Declares.visit_setups {b : Builder} {p : Plan} (h : b.Declares p) {s : PassScope}
    (hs : s.scope.root = s.root.index) (path : NamePath) :
    ∀ {x : Pass} {q : Plan}, x.Ready p q → Charges s path x q (b.visit s x) := by
  induction h with
  | done => intro x q hx; exact charges_stop hx
  | @basic b next p hb _ ih =>
    intro x q hx
    obtain ⟨he, hquiet⟩ := quiet_perform (s := s) (x := x) hb
    have k := ih (hx.quiet hquiet)
    rw [visit, Ran.andThen, he]
    refine k.quiet hquiet.visit (entrances_perform _ _ _) ?_
    rw [state_perform]
    rfl
  | fail ht => intro x q hx; exact charges_stop hx
  | panic => intro x q hx; exact charges_stop hx
  | @branch c yes no next p q hyes hno _ ihy ihn ih =>
    intro x q' hx
    refine Charges.andThen hx (fun hy => ?_) fun he _ _ hy => ih he hy
    split
    · exact ⟨hyes.visit_scans hs hy, ihy hy⟩
    · exact ⟨hno.visit_scans hs hy, ihn hy⟩
  | @autoClose r close _ _ _ ih =>
    intro x q hx
    have hquiet := x.quiet_withCloset (x.closet.autoClose r ⟨close, s.scope⟩) rfl rfl
    exact (ih (hx.quiet hquiet)).quiet rfl rfl rfl
  | @deferClose close _ _ _ ih =>
    intro x q hx
    have hquiet := x.quiet_withCloset (x.closet.deferClose ⟨close, s.scope⟩) rfl rfl
    exact (ih (hx.quiet hquiet)).quiet rfl rfl rfl
  | @test name site body swallow next p _ ih =>
    intro x q hx
    exact Charges.andThen (a := .test name site body (.stop .finished)) hx
      (fun hy => ⟨(scans_test hs hy).swallowing rfl swallow, (charges_test hy).swallowing swallow⟩)
      fun _ _ _ hy => ih hy
  | @context name site inner swallow next i p hi _ ihi ih =>
    intro x q hx
    exact Charges.andThen (a := .context name site false i (.stop .finished)) hx
      (fun hy => ⟨(scans_context hy (hi.visit_scans hs)).swallowing rfl swallow,
        (charges_context hy ihi).swallowing swallow⟩) fun _ _ _ hy => ih hy
  | @pending name site swallow next p _ ih =>
    intro x q hx
    exact Charges.andThen (a := .pending name site (.stop .finished)) hx
      (fun hy => ⟨(scans_pending hy).swallowing rfl swallow,
        (charges_pending hy).swallowing swallow⟩) fun _ _ _ hy => ih hy
  | @afterSuite callback _ _ _ ih =>
    intro x q hx
    have hw := world_declareAfterSuite (s := s) x callback
    have hquiet := quiet_afterSuite (s := s) (x := x) callback
    exact (ih (hx.quiet hquiet)).quiet hquiet.visit (by rw [hw]) (by rw [hw])
  | logCurrent _ ih =>
    intro x q hx
    have hquiet := x.quiet_withCloset
      ⟨x.shelf, x.world.book.say s.scope.root ("current " ++ x.visit.context.display)⟩ rfl rfl
    exact (ih (hx.quiet hquiet)).quiet rfl rfl rfl

/-! ### All passes -/

namespace RootContext

variable {r : RootContext} {p q : Plan} {path : NamePath}

/-- A pass enters the root, and sets up what a scan of the plan sets up. -/
theorem setups_runPass (h : r.builder.Declares p) (hd : p.Distinct) {t : Search} {w : World}
    (hw : p.CalmFor w.listener r.context) (ht : t.Stands r.context p q) (path : NamePath) :
    (r.runPass t w).world.setups r.index path = w.setups r.index path
      + ((if r.context.path = path then 1 else 0) + q.setups path r.context false) := by
  let s : PassScope := ⟨r, ⟨r.index, w.book.invocations⟩, w.shelves.length⟩
  have hx : (r.opened t w).Ready p q := ⟨ht, hd, fun _ _ hn => absurd hn List.not_mem_nil, hw⟩
  have k : Pass.Charges s path (r.opened t w) q (r.builder.visit s (r.opened t w)) :=
    h.visit_setups rfl path hx
  have hopened : (r.opened t w).world.setups r.index path
      = w.setups r.index path + if r.context.path = path then 1 else 0 := by
    rw [World.setups, World.setups, r.entrances_opened, count_entrances]
    exact Nat.add_right_comm ..
  -- putting the shelf back changes neither cells nor the notebook
  show (r.builder.visit s (r.opened t w)).state.world.setups r.index path = _
  rw [k, hopened, Nat.add_assoc]
  rfl

theorem setups_behind (r : RootContext) (e : PassEnd) :
    (r.behind e).setups r.index path = e.world.setups r.index path :=
  World.setups_congr (r.entrances_behind e) (r.cells_behind e)

/-- Only the root is on the way to the root. -/
theorem prefix_root (hpath : path ≠ []) (h : path <+: r.context.path) : r.context.path = path := by
  have hroot : path <+: [] ++ [r.name] := h
  rcases List.prefix_concat_iff.mp hroot with heq | hnil
  · exact heq.symm
  · exact absurd (List.prefix_nil.mp hnil) hpath

/-- **What was set up by the passes so far, and what is due behind them, is what was due in the
beginning.** -/
theorem Begins.bill {n : Nat} {w₀ w : World} {search : Search} (h : r.Begins w₀ n search w)
    (hb : r.builder.Declares p) (hd : p.Distinct) (hs : p.Sound) (hw : r.CalmFor p w₀.listener) :
    w.listener = w₀.listener ∧ ∃ q, search.Stands r.context p q ∧ q.Sound ∧ ∀ path ≠ [],
      w.setups r.index path + q.bill path r.context
        = w₀.setups r.index path + p.bill path r.context := by
  induction h with
  | first => exact ⟨rfl, p, Search.stands_new hb.isNew _, hs, fun _ _ => rfl⟩
  | @next n search w h _ _ hl ih =>
    obtain ⟨hlistener, q, hstands, hsound, hbill⟩ := ih
    have hcalm : p.CalmFor w.listener r.context := by
      rw [hlistener]
      exact hw.inside
    obtain ⟨-, hdirect, hfatal⟩ := h.adds
    have k := runPass_passes hb hd hcalm hstands hfatal hdirect
    have hleaves : q.leaves false = true := by rw [← k.left, hl]
    refine ⟨?_, q.after false, k.stands.congr fun _ _ _ _ => ⟨Iff.rfl, rfl⟩, hsound.after false,
      fun path hpath => ?_⟩
    · obtain ⟨hs, -, hd, hlists⟩ := k.lists
      exact (behind_adds hlists.adds hd).listener.trans hlistener
    · have hall := hbill path hpath
      have hpass := hsound.bill_eq (prefix_root (r := r) hpath)
      rw [if_pos hleaves] at hpass
      rw [setups_behind, setups_runPass hb hd hcalm hstands path]
      omega

/-- **Discovery of a sound plan sets up a context, or leaves it to replays, as often as is due.** -/
theorem discover_setups (h : r.builder.Declares p) (hd : p.Distinct) (hs : p.Sound) {w : World}
    (hw : r.CalmFor p w.listener) : ∃ d v, r.discover w = (.ok (.ok d), v) ∧
      r.Discovers p {} w d v ∧ ∀ path ≠ [],
        v.setups r.index path = w.setups r.index path + p.bill path r.context := by
  obtain ⟨d, v, hdv, k⟩ := discover_discovers h hd hw
  refine ⟨d, v, hdv, k, fun path hpath => ?_⟩
  obtain ⟨n, search, u, hbegins, hends⟩ := r.discover_ends w
  obtain ⟨hlistener, q, hstands, hsound, hbill⟩ := hbegins.bill h hd hs hw
  have hcalm : p.CalmFor u.listener r.context := by
    rw [hlistener]
    exact hw.inside
  obtain ⟨-, hdirect, hfatal⟩ := hbegins.adds
  have hpass := runPass_passes h hd hcalm hstands hfatal hdirect
  -- the builder does not fail in the last pass
  have hfail : failure? (r.runPass search u).ending = none := by
    rw [hpass.ending, Plan.buildEnding_finished hs.ending]
    rfl
  obtain ⟨hleft, hres⟩ := hends.eq_finish (fatal?_eq_none hpass.ending hpass.fatal) hfail
  have hlast : v.setups r.index path = (r.runPass search u).world.setups r.index path := by
    have hv : v = _ := congrArg Prod.snd (hdv.symm.trans hres)
    rw [hv, ← setups_behind]
    exact World.setups_congr rfl rfl
  have hall := hbill path hpath
  have hscan := hsound.bill_eq (prefix_root (r := r) hpath)
  rw [← hpass.left, hleft, if_neg Bool.false_ne_true] at hscan
  rw [hlast, setups_runPass h hd hcalm hstands path]
  omega

end RootContext

end TestTree

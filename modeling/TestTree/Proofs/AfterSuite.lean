/-
Callbacks behind all tests: what a discovery registers, and how it is run.

* `RootContext.Begins.walked` : a pass begins with the callbacks of all first visits so far;
* `CallbackRun.Chain`, `Discovery.runCallbacks_chain` : callbacks are run one after another,
  whatever they do;
* `RootContext.after_suite_once` : **a discovery registers the callbacks of all first visits, in the
  order of their declaration, and they are run once**.
-/
import TestTree.Proofs.Footsteps
import TestTree.Proofs.Sessions

namespace TestTree

/-! ### Passes -/

namespace RootContext

open Footstep

variable {r : RootContext} {search : Search} {w w₀ v : World} {ts : List Footstep} {n : Nat}

/-- Between two passes over the builder of `r`, the earlier ones left the footsteps `ts`. -/
structure Walked (r : RootContext) (search : Search) (ts : List Footstep) : Prop where
  afterSuite : search.afterSuite = declaredFirst [] ts
  below : ∀ path ∈ visits ts, r.context.path <+: path
  visited : ∀ path ∈ visits ts, search.Shuts path
  investigated : ∀ path ∈ search.investigated, path ∈ visits ts
  processed : ∀ path ∈ search.processed, ¬ path <+: r.context.path

/-- The visit of the root is its first one in the first pass only. -/
theorem Walked.hasVisited (h : r.Walked search ts) (w : World) :
    (r.opened search w).HasVisited (visits ts ++ [r.context.path]) where
  visited path hp := by
    rcases List.mem_append.mp hp with hp | hp
    · exact .inl (h.visited path hp)
    · rw [List.mem_singleton.mp hp]
      exact .inr List.prefix_rfl
  investigated path hp := List.mem_append_left _ (h.investigated path hp)
  processed := h.processed
  first := by
    have hiff : r.context.path ∈ search.investigated ↔ r.context.path ∈ visits ts := by
      refine ⟨h.investigated _, fun hp => ?_⟩
      rcases h.visited _ hp with hin | ⟨done, hd, hpre⟩
      · exact hin
      · exact absurd hpre (h.processed done hd)
    show (!search.investigated.contains r.context.path) = true ↔ _
    rw [Bool.not_eq_true', ← Bool.not_eq_true, List.contains_iff_mem, hiff]
    show _ ↔ (visits ts ++ [r.context.path]).count r.context.path = 1
    rw [List.count_append, List.count_singleton_self, ← List.count_eq_zero]
    omega

/-- What a pass registers. -/
theorem Walked.runPass (h : r.Walked search ts)
    (hk : ∀ error, .discarded error ∉ r.marks search w) (hf : fatal? (r.runPass search w) = none) :
    (r.runPass search w).search.afterSuite = declaredFirst [] (ts ++ r.footsteps search w) ∧
      (failure? (r.runPass search w).ending = none →
        r.Walked (r.handOn (r.runPass search w)) (ts ++ r.footsteps search w)) := by
  have hvisits : visits (ts ++ r.footsteps search w)
      = visits ts ++ [r.context.path] ++ visits (r.builder.footsteps
        ⟨r, ⟨r.index, w.book.invocations⟩, w.shelves.length⟩ (r.opened search w)) := by
    rw [visits_append, List.append_assoc]
    rfl
  obtain ⟨-, hending⟩ := fatal?_eq_none_iff.mp hf
  have hstructural : (r.builder.visit ⟨r, ⟨r.index, w.book.invocations⟩, w.shelves.length⟩
      (r.opened search w)).structural? = none :=
    Option.eq_none_iff_forall_ne_some.mpr fun e he => hending e (Pass.structural?_eq_some.mp he)
  have hfollows := r.builder.visit_follows (h.hasVisited w) hk hstructural
  have hafter : (r.runPass search w).search.afterSuite
      = declaredFirst [] (ts ++ r.footsteps search w) := by
    rw [declaredFirst_append, ← h.afterSuite]
    exact hfollows.afterSuite
  refine ⟨hafter, fun he => ?_⟩
  have hfinished : (r.runPass search w).ending = .finished := by
    rcases hend : (r.runPass search w).ending with _ | (e | c) | p
    · rfl
    · exact absurd hend (hending e)
    · rw [hend] at he
      cases he
    · rw [hend] at he
      cases he
  have hroot : (r.handOn (r.runPass search w)).Shuts r.context.path :=
    .inl (List.mem_append_right _ List.mem_cons_self)
  have hbelow : ∀ path ∈ visits (ts ++ r.footsteps search w), r.context.path <+: path := by
    intro path hp
    rw [hvisits, List.mem_append, List.mem_append, List.mem_singleton] at hp
    rcases hp with (hp | rfl) | hp
    · exact h.below path hp
    · exact List.prefix_rfl
    · obtain ⟨name, hname⟩ := hfollows.below path hp
      exact (List.prefix_append _ _).trans hname
  refine ⟨hafter, hbelow, fun path hp => ?_, fun path hp => ?_, hfollows.processed⟩
  · have hpre := hbelow path hp
    rw [hvisits] at hp
    rcases hfollows.visited path hp with hs | hs | ⟨hne, -⟩
    · exact hs.mono (List.subset_append_left _ _) (List.Subset.refl _)
    · rw [← hpre.eq_of_length_le hs.length_le]
      exact hroot
    · exact absurd hfinished hne
  · rw [hvisits]
    rcases List.mem_append.mp hp with hp | hp
    · exact hfollows.investigated path hp
    · rw [List.mem_singleton.mp hp]
      exact List.mem_append_left _ (List.mem_append_right _ List.mem_cons_self)

theorem walk_eq_along (r : RootContext) : ∀ n search w, r.walk n search w
    = r.along r.footsteps n search w := by
  intro n
  induction n with
  | zero => intro search w; rfl
  | succ n ih => intro search w; rw [walk, along, ih]

theorem Begins.walk_succ (h : r.Begins w₀ n search w) :
    r.walk (n + 1) {} w₀ = r.walk n {} w₀ ++ r.footsteps search w := by
  rw [walk_eq_along, walk_eq_along]
  exact h.along_succ r.footsteps

/-- **Every pass of a discovery begins with the callbacks of all first visits so far.** -/
theorem Begins.walked (hk : r.Forwards w₀) (h : r.Begins w₀ n search w) :
    r.Walked search (r.walk n {} w₀) := by
  induction h with
  | first => exact ⟨rfl, nofun, nofun, nofun, nofun⟩
  | next h hf he _ ih =>
    rw [h.walk_succ]
    exact (ih.runPass (hk _ _ _ h) hf).2 he

theorem entrances_runPass (r : RootContext) (search : Search) (w : World) :
    (r.runPass search w).world.book.entrances
      = entrances r.index (r.footsteps search w) ++ w.book.entrances := by
  have hvisit := r.builder.entrances_visit
    (s := ⟨r, ⟨r.index, w.book.invocations⟩, w.shelves.length⟩) (r.opened search w)
  rw [r.entrances_opened] at hvisit
  rw [footsteps, entrances_cons, List.append_assoc]
  exact hvisit

/-- The footsteps of a discovery have the visits that the discovery wrote down. -/
theorem Begins.entrances (h : r.Begins w₀ n search w) :
    w.book.entrances = Footstep.entrances r.index (r.walk n {} w₀) ++ w₀.book.entrances := by
  induction h with
  | first => rfl
  | next h _ _ _ ih =>
    rw [r.entrances_behind, entrances_runPass, ih, h.walk_succ, entrances_append, List.append_assoc]

/-- What a root leaves whose builder failed. -/
theorem finishFailed_keeps {f : Failure} {d : Discovery}
    (h : r.finishFailed n f search w = (.ok (.ok d), v)) :
    d.afterSuite = search.afterSuite ∧ v.book.entrances = w.book.entrances := by
  have hw := w.entrances_completed ⟨⟨r.context, r.name, r.location⟩, .failed f⟩
  rw [finishFailed] at h
  split at h
  · cases h
  · rename_i hc
    rw [hc] at hw
    cases h
    exact ⟨rfl, (Notebook.entrances_add _ _).trans hw⟩

/-- A result has the callbacks of the last pass, and no builder is entered behind that. -/
theorem Ends.keeps {e : PassEnd} {d : Discovery}
    {a : Except Payload (Except StructuralError Discovery) × World} (h : r.Ends n e a)
    (ha : a = (.ok (.ok d), v)) :
    d.afterSuite = e.search.afterSuite ∧ v.book.entrances = e.world.book.entrances := by
  cases h with
  | aborted hf =>
    rw [abort] at ha
    split at ha
    · cases ha
    · cases ha
  | failedDirect _ _ _ =>
    obtain ⟨hafter, hw⟩ := finishFailed_keeps ha
    exact ⟨hafter, hw.trans (World.entrances_release _ _)⟩
  | failedSwept =>
    obtain ⟨hafter, hw⟩ := finishFailed_keeps ha
    exact ⟨hafter, hw.trans (Notebook.entrances_sweep _ _)⟩
  | finished =>
    cases ha
    exact ⟨rfl, (Notebook.entrances_add _ _).trans (r.entrances_behind e)⟩

end RootContext

/-! ### Running callbacks -/

/-- One run of a callback, and the world it begins in. -/
structure CallbackRun where
  callback : Closure
  before : World

namespace CallbackRun

/-- The script of the callback, run in the scope that it was declared in. -/
def ran (k : CallbackRun) : Ran Thrown Notebook :=
  k.callback.script.run k.callback.scope none k.before.book

/-- The world when the script has ended. -/
def after (k : CallbackRun) : World :=
  { k.before with book := k.ran.state }

/-- What the callback failed with. -/
def cause? (k : CallbackRun) : Option Cause :=
  match k.ran.ending with
  | .finished => none
  | .failed t => some t.toCause
  | .panicked p => some p.toCause

/-- Callbacks that are run one after another, with nothing but diagnostics between them. -/
inductive Chain : World → List CallbackRun → World → Prop
  | nil (w : World) : Chain w [] w
  | cons {k : CallbackRun} {ks : List CallbackRun} {u v : World} (hw : k.after.Rests u)
      (hp : u.pool = k.after.pool) (h : Chain u ks v) : Chain k.before (k :: ks) v

end CallbackRun

/-- **Each callback is run once, whatever those before it do**, and what failed is returned. -/
theorem Discovery.runCallbacks_chain (root : String) (cs : List Closure) : ∀ w, ∃ runs,
    runs.map CallbackRun.callback = cs ∧ CallbackRun.Chain w runs (runCallbacks root cs w).2 ∧
      (runCallbacks root cs w).1 = runs.filterMap CallbackRun.cause? := by
  induction cs with
  | nil => intro w; exact ⟨[], rfl, .nil w, rfl⟩
  | cons c rest ih =>
    intro w
    let k : CallbackRun := ⟨c, w⟩
    cases hc : k.cause? with
    | none =>
      obtain ⟨runs, hmap, hchain, hcauses⟩ := ih k.after
      have hrun : runCallbacks root (c :: rest) w = runCallbacks root rest k.after := by
        rw [runCallbacks]
        split
        · rfl
        · rename_i hcause
          cases hcause.symm.trans hc
      rw [hrun]
      refine ⟨k :: runs, congrArg (c :: ·) hmap, .cons ⟨rfl, rfl, rfl, rfl, rfl, rfl, rfl⟩ rfl hchain,
        ?_⟩
      rw [hcauses, List.filterMap_cons_none hc]
    | some cause =>
      let u := k.after.trace .warn ("after-suite callback failed: " ++ cause.oneLine) [("root", root)]
      obtain ⟨runs, hmap, hchain, hcauses⟩ := ih u
      have hrun : runCallbacks root (c :: rest) w
          = (cause :: (runCallbacks root rest u).1, (runCallbacks root rest u).2) := by
        rw [runCallbacks]
        split
        · rename_i hcause
          cases hcause.symm.trans hc
        · rename_i hcause
          cases hcause.symm.trans hc
          rfl
      have hrests : k.after.Rests u := ⟨rfl, rfl, rfl, rfl, rfl, rfl, rfl⟩
      rw [hrun]
      refine ⟨k :: runs, congrArg (c :: ·) hmap, .cons hrests rfl hchain, ?_⟩
      rw [hcauses, List.filterMap_cons_some hc]

/-- **Callbacks behind all tests are registered and run once.**  If no builder discards a structural
error, and the discovery has a result, then its callbacks are those that its passes declare in the
first visit of a context, in that order; its log has the visits of all passes.  Running the callbacks
runs each one once, from the world that the one before it left, and what is returned is what those
that failed failed with; from then on there is nothing to run. -/
theorem RootContext.after_suite_once {r : RootContext} {w v : World} {d : Discovery}
    (hk : r.Forwards w) (hd : r.discover w = (.ok (.ok d), v)) :
    (∃ n search z, r.Begins w n search z ∧ r.Ends (n + 1) (r.runPass search z) (r.discover w) ∧
      d.afterSuite = Footstep.declaredFirst [] (r.walk (n + 1) {} w) ∧
      v.book.entrances
        = Footstep.entrances r.index (r.walk (n + 1) {} w) ++ w.book.entrances) ∧
    ∀ u : World,
      (∃ runs, runs.map CallbackRun.callback = d.afterSuite ∧
        CallbackRun.Chain u runs (d.runAfterSuite u).2.2 ∧
        (d.runAfterSuite u).1 = runs.filterMap CallbackRun.cause?) ∧
      ∀ later, (d.runAfterSuite u).2.1.runAfterSuite later = ([], (d.runAfterSuite u).2.1, later) := by
  constructor
  · obtain ⟨n, search, z, hbegins, hends⟩ := r.discover_ends w
    obtain ⟨hafter, -⟩ := (hbegins.walked hk).runPass (hk _ _ _ hbegins) (hends.resultOf hd).fatal
    obtain ⟨hcallbacks, hentrances⟩ := hends.keeps hd
    refine ⟨n, search, z, hbegins, hends, ?_, ?_⟩
    · rw [hcallbacks, hafter, hbegins.walk_succ]
    · rw [hentrances, entrances_runPass, hbegins.entrances, hbegins.walk_succ,
        Footstep.entrances_append, List.append_assoc]
  · intro u
    exact ⟨Discovery.runCallbacks_chain _ _ u, fun later => rfl⟩

/-- A root whose passes leave the context `d` and then the context `e`, which fails. -/
def suiteRoot : RootContext :=
  ⟨0, "root", false, .site 0,
    .afterSuite (.basic (.fail ⟨.text "no", .sorted⟩) .done) <|
    .context "c" (.site 1)
      (.test "a" (.site 2) .done false <|
        .context "d" (.site 3) (.afterSuite .done <| .test "b" (.site 4) .done false .done) false
        .done) false <|
    .context "e" (.site 5)
      (.afterSuite .done <| .basic (.fail ⟨.text "fault", .sorted⟩) .done) false .done⟩

/-- Three passes visit the root; its callback is run once, fails, and the other two are run behind
it. -/
theorem after_suite_once_suiteRoot :
    ∃ d v, suiteRoot.discover (.fresh (.held 1) .silent .lazy) = (.ok (.ok d), v) ∧
      v.book.entrances.count (0, ["root"]) = 3 ∧
      (∃ runs, runs.map CallbackRun.callback
          = [⟨.basic (.fail ⟨.text "no", .sorted⟩) .done, ⟨0, 0⟩⟩, ⟨.done, ⟨0, 1⟩⟩, ⟨.done, ⟨0, 2⟩⟩] ∧
        CallbackRun.Chain v runs (d.runAfterSuite v).2.2 ∧
        runs.filterMap CallbackRun.cause? = [.text "no"]) ∧
      ((d.runAfterSuite v).2.1.runAfterSuite v).1 = [] := by
  refine ⟨_, _, rfl, rfl, ?_⟩
  have hk : suiteRoot.Forwards (.fresh (.held 1) .silent .lazy) :=
    RootContext.forwards_of_not_swallows rfl _
  obtain ⟨-, hall⟩ := RootContext.after_suite_once hk rfl
  obtain ⟨⟨runs, hmap, hchain, hcauses⟩, hlater⟩ := hall _
  exact ⟨⟨runs, hmap, hchain, hcauses.symm⟩, congrArg Prod.fst (hlater _)⟩

end TestTree

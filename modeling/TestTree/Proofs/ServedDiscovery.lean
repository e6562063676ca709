/-
Discoveries while workers serve the queue.

* `RootContext.discoverServed_idle` : a discovery without workers is the one in which they never
  come;
* `RootContext.discoverServed_ends` : whatever the workers do, a discovery ends behind one of its
  passes;
* `Pass.ListsAnswers`, `Builder.visitServed_listsAnswers` : what a visit lists answers, and what
  answered before still does;
* `RootContext.discoverServed_answers` : **all handles of a discovery answer**, whatever the workers
  have taken of them by then.

## Design notes

Workers cannot change which declarations a pass has processed, so passes come to an end as they do
without workers.  They can run the units that are queued, and with them variables that a builder
reads; that is why nothing is said here of which tests are found.
-/
import TestTree.Proofs.Answers
import TestTree.Proofs.DiscoveryAlike
import TestTree.Proofs.PassLedger

namespace TestTree

/-! ### Without workers -/

namespace RootContext

variable {r : RootContext} {turns : Discovery.Turns} {search : Search} {v w : World}
  {res : Except Payload (Except StructuralError Discovery) × World} {e : PassEnd} {n : Nat}

theorem runPassServed_idle (r : RootContext) (search : Search) (w : World) :
    r.runPassServed .idle search w = r.runPass search w := by
  rw [runPassServed, runPass, Builder.visitServed_idle]
  rfl

theorem discoverFromServed_idle (r : RootContext) : ∀ (fuel passes : Nat) (search : Search)
    (w : World), r.discoverFromServed .idle fuel passes search w
      = r.discoverFrom fuel passes search w := by
  intro fuel
  induction fuel with
  | zero => exact fun _ _ _ => rfl
  | succ fuel ih =>
    intro passes search w
    rw [discoverFromServed, discoverFrom, runPassServed_idle]
    cases r.conclude? (passes + 1) (r.runPass search w) with
    | some ended => rfl
    | none => exact ih _ _ _

/-- **A discovery without workers is the one in which they never come.** -/
theorem discoverServed_idle (r : RootContext) (w : World) :
    r.discoverServed .idle w = r.discover w :=
  r.discoverFromServed_idle _ _ _ _

/-! ### The end of a discovery -/

/-- **A pass that leaves contexts has processed something new**, whatever the workers do. -/
theorem unprocessed_runPassServed (hl : (r.runPassServed turns search w).left = true) :
    r.unprocessed (r.runPassServed turns search w).search < r.unprocessed search :=
  unprocessed_lt (r.builder.visitServed_progress turns.during
    (r.opened search (World.serve (turns.before search w) w))) hl

theorem discoverFromServed_ends : ∀ (fuel n : Nat) (search : Search) (w : World),
    r.unprocessed search < fuel → ∃ m t v,
      r.Ends (m + 1) (r.runPassServed turns t v) (r.discoverFromServed turns fuel n search w) := by
  intro fuel
  induction fuel with
  | zero => intro n search w hfuel; exact absurd hfuel (Nat.not_lt_zero _)
  | succ fuel ih =>
    intro n search w hfuel
    rw [discoverFromServed]
    rcases r.conclude?_cases (n + 1) (r.runPassServed turns search w) with
      ⟨-, -, hl, hnone⟩ | ⟨res, hsome, hends⟩
    · -- a pass that is not the last one has left a context, so there is less to process than before
      rw [hnone]
      have hless : r.unprocessed (r.handOn (r.runPassServed turns search w))
          < r.unprocessed search := unprocessed_runPassServed hl
      exact ih _ _ _ (by omega)
    · rw [hsome]
      exact ⟨n, search, w, hends⟩

/-- **Whatever the workers do, a discovery ends behind one of its passes.** -/
theorem discoverServed_ends (turns : Discovery.Turns) (r : RootContext) (w : World) :
    ∃ n search v, r.Ends (n + 1) (r.runPassServed turns search v) (r.discoverServed turns w) :=
  discoverFromServed_ends _ 0 {} w (Nat.lt_succ_of_le (r.unprocessed_le {}))

end RootContext

/-! ### What a visit lists -/

/-- Between two moments of a pass handles may have been made and units run.  What answered before
still does, and so does every handle that was listed. -/
structure Pass.ListsAnswers (x y : Pass) : Prop
    extends World.KeepsAnswers x.world y.world where
  tests : x.world.listener.Calm → ∀ h ∈ y.search.tests, h ∈ x.search.tests ∨ y.world.Answers h

namespace Pass

variable {s : PassScope} {x y z : Pass}

theorem ListsAnswers.trans (h : x.ListsAnswers y) (k : y.ListsAnswers z) : x.ListsAnswers z where
  toKeepsAnswers := h.toKeepsAnswers.trans k.toKeepsAnswers
  tests hx d hd := by
    have hy : y.world.listener.Calm := h.listener ▸ hx
    rcases k.tests hy d hd with hd | hd
    · exact (h.tests hx d hd).imp_right (k.answers hy d)
    · exact .inr hd

/-- What a step makes has a unit of its own or an outcome, and is numbered for it. -/
theorem listsAnswers_of_deals (hg : x.Grows y) (hd : x.Deals s y) : x.ListsAnswers y where
  toKeepsAnswers := World.keepsAnswers_of_isPrefix hg.cells hg.listener
  tests _ h hh := by
    obtain ⟨hs, hg⟩ := hg
    obtain ⟨ks, cs, hd⟩ := hd
    -- both relations are about the handles that are new, and these are numbered like the new cells
    obtain rfl : hs = ks := List.append_cancel_left (hg.tests.symm.trans hd.tests)
    rw [hg.tests, List.mem_append] at hh
    refine hh.imp_right fun hnew => ?_
    have hall := hd.dealt
    rw [World.cells_eq_of_numbered hd.cells hg.makes.handles hall.length_eq,
      List.forall₂_map_right_iff, List.forall₂_same] at hall
    exact World.answers_of_dealt (hall h hnew)

theorem listsAnswers_visitRelation (s : PassScope) : VisitRelation s ListsAnswers :=
  (grows_visitRelation s).both (deals_visitRelation s) listsAnswers_of_deals ListsAnswers.trans

/-- Workers run what is queued, and list nothing. -/
theorem listsAnswers_served (x : Pass) (n : Nat) : x.ListsAnswers (x.served n) where
  toKeepsAnswers := World.keepsAnswers_useRelation.serve n x.world
  tests _ _ hh := .inl hh

end Pass

/-- **Whatever a visit lists answers**, whatever the workers do in between. -/
theorem Builder.visitServed_listsAnswers (turns : Builder → Pass → Nat) (s : PassScope)
    (b : Builder) (x : Pass) : x.ListsAnswers (b.visitServed turns s x).state :=
  visitServed_rel (Pass.listsAnswers_visitRelation s) (fun c y => y.listsAnswers_served (turns c y))
    b x

/-! ### What a discovery lists -/

namespace RootContext

variable {r : RootContext} {turns : Discovery.Turns} {search : Search} {v w : World}
  {res : Except Payload (Except StructuralError Discovery) × World} {e : PassEnd} {n : Nat}

/-- A pass lists handles that answer. -/
theorem runPassServed_answers (turns : Discovery.Turns) (r : RootContext) (search : Search)
    (w : World) : w.KeepsAnswers (r.runPassServed turns search w).world ∧
      (w.listener.Calm → (∀ h ∈ search.tests, w.Answers h) →
        ∀ h ∈ (r.runPassServed turns search w).search.tests,
          (r.runPassServed turns search w).world.Answers h) := by
  let v := World.serve (turns.before search w) w
  let ran := r.builder.visitServed turns.during (r.openedScope v) (r.opened search v)
  let e := PassEnd.of v.shelves.length ran
  have hbefore : w.KeepsAnswers v := World.keepsAnswers_useRelation.serve _ w
  have hopened : v.KeepsAnswers (r.opened search v).world := World.keepsAnswers_of_eq rfl rfl
  have hvisit : (r.opened search v).ListsAnswers ran.state :=
    r.builder.visitServed_listsAnswers turns.during _ _
  have hput : ran.state.world.KeepsAnswers e.world := World.keepsAnswers_of_eq rfl rfl
  have hbehind := hput.trans (World.keepsAnswers_useRelation.serve (turns.behind e) e.world)
  have hbegin := hbefore.trans hopened
  have hend := hvisit.toKeepsAnswers.trans hbehind
  refine ⟨hbegin.trans hend, fun hw hall h hh => ?_⟩
  have hcalm : (r.opened search v).world.listener.Calm := hbegin.listener ▸ hw
  -- what was listed before is kept by the workers and by the visit, what is new by the workers only
  rcases hvisit.tests hcalm h hh with hold | hnew
  · exact hend.answers hcalm h (hbegin.answers hw h (hall h hold))
  · exact hbehind.answers (hvisit.listener ▸ hcalm) h hnew

/-- What is done behind a pass without an error runs nothing. -/
theorem behind_keepsAnswers (r : RootContext) (e : PassEnd) :
    e.world.KeepsAnswers (r.behind e) := by
  rw [behind]
  cases e.direct with
  | some h => exact e.world.keepsAnswers_release h
  | none =>
    have hadds := e.world.adds_closeWarning e.shelf "teardown after discovery pass failed: "
      r.context.display
    exact World.keepsAnswers_of_isPrefix hadds.cells hadds.listener

/-- A discovery that began in the world `w` came to a result, whose handles answer. -/
def ListedFrom (w : World) (res : Except Payload (Except StructuralError Discovery) × World) :
    Prop :=
  ∃ d v, res = (.ok (.ok d), v) ∧ w.KeepsAnswers v ∧ ∀ h ∈ d.tests, v.Answers h

theorem ListedFrom.after (h : ListedFrom w res) (hv : v.KeepsAnswers w) : ListedFrom v res := by
  obtain ⟨d, z, hd, hz, hanswers⟩ := h
  exact ⟨d, z, hd, hv.trans hz, hanswers⟩

theorem finish_listed (r : RootContext) (n : Nat) (hall : ∀ h ∈ search.tests, w.Answers h) :
    ListedFrom w (r.finish n search w) :=
  ⟨_, _, rfl, World.keepsAnswers_of_eq rfl rfl, fun h hh => (hall h hh).congr rfl⟩

/-- The test that stands for a root that failed has its outcome. -/
theorem finishFailed_listed (r : RootContext) (n : Nat) (f : Failure) (hw : w.listener.Calm)
    (hall : ∀ h ∈ search.tests, w.Answers h) :
    ListedFrom w (r.finishFailed n f search w) := by
  let test : Description := ⟨r.context, r.name, r.location⟩
  have hcells := World.cells_completed (hw (.finished ⟨test, .failed f⟩))
  have hkept : w.KeepsAnswers (w.completed ⟨test, .failed f⟩).2 :=
    World.keepsAnswers_of_isPrefix ⟨_, hcells.symm⟩ (by rw [World.completed_calm (hw _)])
  rw [finishFailed, World.completed_calm (hw _)]
  rw [World.completed_calm (hw _)] at hkept
  refine (finish_listed r n fun h hh => ?_).after hkept
  rcases List.mem_append.mp hh with hold | hnew
  · exact hkept.answers hw h (hall h hold)
  · rw [List.mem_singleton.mp hnew]
    exact .inl ⟨.failed f, World.cell_last rfl⟩

/-- A discovery ends with an error, or with handles that answer. -/
theorem Ends.listed (h : r.Ends n e res) (hw : e.world.listener.Calm)
    (hall : ∀ k ∈ e.search.tests, e.world.Answers k) :
    (∃ error v, res = (.ok (.error error), v)) ∨ ListedFrom e.world res := by
  cases h with
  | @aborted error hf => exact .inl ⟨error, _, Prod.ext (abort_calm e error hw) rfl⟩
  | @failedDirect f k hf he hd =>
    have hkept := e.world.keepsAnswers_release k
    exact .inr ((finishFailed_listed r n f (hkept.listener ▸ hw) fun k hk =>
      hkept.answers hw k (hall k hk)).after hkept)
  | @failedSwept f hf he hd =>
    have hadds := e.world.adds_closeShelf e.shelf
    have hkept := World.keepsAnswers_of_isPrefix hadds.cells hadds.listener
    exact .inr ((finishFailed_listed r n _ (hkept.listener ▸ hw) fun k hk =>
      hkept.answers hw k (hall k hk)).after hkept)
  | finished hf he hl =>
    have hkept := r.behind_keepsAnswers e
    exact .inr ((finish_listed r n fun k hk => hkept.answers hw k (hall k hk)).after hkept)

theorem discoverFromServed_answers : ∀ (fuel n : Nat) (search : Search) (w : World),
    w.listener.Calm → (∀ h ∈ search.tests, w.Answers h) →
    (∃ error v, r.discoverFromServed turns fuel n search w = (.ok (.error error), v)) ∨
      ListedFrom w (r.discoverFromServed turns fuel n search w) := by
  intro fuel
  induction fuel with
  | zero => exact fun n search w _ hall => .inr (finish_listed r n hall)
  | succ fuel ih =>
    intro n search w hw hall
    obtain ⟨hpass, htests⟩ := r.runPassServed_answers turns search w
    rw [discoverFromServed]
    generalize r.runPassServed turns search w = e at hpass htests ⊢
    have he : e.world.listener.Calm := hpass.listener ▸ hw
    have hlisted := htests hw hall
    rcases r.conclude?_cases (n + 1) e with ⟨-, -, -, hnone⟩ | ⟨res, hsome, hends⟩
    · rw [hnone]
      have hbehind := r.behind_keepsAnswers e
      have hrest := ih (n + 1) (r.handOn e) (r.behind e) (hbehind.listener ▸ he) fun h hh =>
        hbehind.answers he h (hlisted h hh)
      exact hrest.imp_right fun h => h.after (hpass.trans hbehind)
    · rw [hsome]
      exact (hends.listed he hlisted).imp_right fun h => h.after hpass

/-- **All handles of a discovery answer.**  Whatever the workers take while builders are going on, a
discovery under a listener that does not panic ends with a structural error, or with a result; and
then every handle of the result has its outcome or waits for it, and what answered before the
discovery still does. -/
theorem discoverServed_answers (turns : Discovery.Turns) (r : RootContext) (hw : w.listener.Calm) :
    (∃ error v, r.discoverServed turns w = (.ok (.error error), v)) ∨
      ListedFrom w (r.discoverServed turns w) :=
  discoverFromServed_answers _ 0 {} w hw fun _ hh => absurd hh List.not_mem_nil

end RootContext

end TestTree

/-
What is closed when a context fails.

* `Builder.Comes.property` : what every step of a visit keeps is there wherever the visit comes to;
* `Pass.Directs` : the direct test that is met in the visit of a context is below that context;
* `Stocked.left_eq` : what is left on the shelf is what was registered and not closed, the latest first;
* **`RootContext.failed_context_sweep`** : a context that fails closes what was registered during its
  visit and is not closed yet, unless a direct test was met inside it.

## Design notes

Marks are heights of the shelf.  A visit leaves what was on the shelf before it as it was, whatever
contexts fail and close in between, so the mark that was taken when a context was entered still
separates what was registered since.
-/
import TestTree.Proofs.FailedContexts
import TestTree.Proofs.PassLedger
import TestTree.Proofs.Queueing
import TestTree.Proofs.Sweeps

namespace TestTree

/-! ### Parts of a visit -/

theorem Ran.behind_nil {ε σ α : Type} (r : Ran ε σ) : r.behind (fun _ => ([] : List α)) = [] := by
  rcases r with ⟨_ | e | p, s⟩ <;> rfl

namespace Builder

variable {s : PassScope} {b c : Builder} {x z : Pass} {P : Ran BuildError Pass → Prop}

/-- The history of a builder is that of its first statement, and of what is behind it. -/
theorem history_eq (b : Builder) (x : Pass) :
    b.history s x = b.alone.history s x ++ (b.alone.visit s x).behind (b.tail.history s) := by
  have hdone : Builder.done.history s = fun _ => [] := rfl
  cases b with
  | done => rfl
  | basic b next =>
    rw [alone, tail, history, history, hdone, Ran.behind_nil, List.append_nil, visit,
      Ran.andThen_done]
  | branch c yes no next =>
    rw [alone, tail, history, history, hdone, visit, Ran.andThen_done]
    split
    · rw [Ran.behind_nil, List.append_nil]
    · rw [Ran.behind_nil, List.append_nil]
  | autoClose r close next => rfl
  | deferClose close next => rfl
  | test name site body swallow next =>
    rw [alone, tail, history, history, hdone, Ran.behind_nil, List.append_nil, visit,
      Ran.andThen_done]
  | context name site inner swallow next =>
    rw [alone, tail, history, history, hdone, visit, Ran.andThen_done]
    cases x.enter? s name site with
    | inl r => dsimp only; rw [Ran.behind_nil, List.append_nil]
    | inr y => dsimp only; rw [Ran.behind_nil, List.append_nil]
  | pending name site swallow next =>
    rw [alone, tail, history, history, hdone, Ran.behind_nil, List.append_nil, visit,
      Ran.andThen_done]
  | afterSuite callback next => rfl
  | logCurrent next => rfl

/-- **What every step of a visit keeps is there wherever a visit comes to** that discards no structural
error. -/
theorem Comes.property (H : VisitProperty s P) (h : b.Comes s x c z) (hx : P ⟨.finished, x⟩)
    (hk : ∀ e, .discarded e ∉ b.history s x) : P ⟨.finished, z⟩ := by
  induction h with
  | here => exact hx
  | @behind b c x y z hb _ ih =>
    rw [b.history_eq, hb] at hk
    obtain ⟨hfirst, hrest⟩ := undiscarded_append hk
    have hy := b.alone.visit_property H hx hfirst
    rw [hb] at hy
    exact ih hy hrest
  | yes hc _ ih =>
    rw [history, if_pos hc] at hk
    exact ih hx (undiscarded_append hk).1
  | no hc _ ih =>
    rw [history, if_neg hc] at hk
    exact ih hx (undiscarded_append hk).1
  | @inside name site inner next c swallow x y z hy _ ih =>
    rw [history, hy] at hk
    have hinner := undiscarded_cons (undiscarded_append hk).1
    exact ih (H.inside hy hx) (undiscarded_append hinner).1

end Builder

/-! ### Where direct tests are -/

namespace Pass

variable {s : PassScope} {x y z : Pass}

/-- The visit of a context goes from `x` to `y`: a direct test that is met on the way is declared in
the context, or below it. -/
structure Directs (x y : Pass) : Prop where
  context : y.visit.context = x.visit.context
  direct : ∀ h, y.search.direct = some h →
    x.search.direct = some h ∨ x.visit.context.path <+: h.test.container.path

theorem Directs.trans (h : x.Directs y) (k : y.Directs z) : x.Directs z where
  context := k.context.trans h.context
  direct d hd := by
    rcases k.direct d hd with hd | hd
    · exact h.direct d hd
    · rw [h.context] at hd
      exact .inr hd

theorem directs_of_eq (hc : y.visit.context = x.visit.context)
    (hd : y.search.direct = x.search.direct) : x.Directs y :=
  ⟨hc, fun _ h => .inl (hd ▸ h)⟩

theorem directs_declareTest (x : Pass) (name : String) (site : Location) (body : Body) :
    x.Directs (x.declareTest s name site body).state := by
  by_cases hname : name ∈ x.visit.names
  · rw [declareTest_taken hname]
    exact directs_of_eq rfl rfl
  by_cases hp : x.isProcessed name = true
  · rw [declareTest_processed hname hp]
    exact directs_of_eq rfl rfl
  by_cases hran : x.visit.ran = true
  · rw [declareTest_replayed hname hp hran]
    exact directs_of_eq rfl rfl
  · rw [declareTest_direct hname hp hran]
    refine ⟨rfl, fun h hh => .inr ?_⟩
    cases hh
    exact List.prefix_rfl

theorem directs_declarePending (x : Pass) (name : String) (site : Location) :
    x.Directs (x.declarePending name site).state := by
  refine ⟨(files_declarePending x name site).context, fun h hh => .inl ?_⟩
  by_cases hname : name ∈ x.visit.names
  · rwa [declarePending_taken hname] at hh
  by_cases hp : x.isProcessed name = true
  · rwa [declarePending_processed hname hp] at hh
  · rwa [declarePending_new hname hp, direct_complete] at hh

theorem direct_fails (x : Pass) (name : String) (site : Location) (failure : Failure) :
    (x.fails name site failure).state.search.direct = x.search.direct :=
  Ran.andThen_rel (fun y z : Pass => z.search.direct = y.search.direct) (fun h k => k.trans h)
    (direct_complete x _) fun _ => rfl

theorem direct_leave (parent : Visit) (name : String) (site : Location) (mark : Nat)
    (r : Ran BuildError Pass) :
    (leave parent name site mark r).state.search.direct = r.state.search.direct := by
  have hfailed : ∀ failure, (leaveFailed name site mark failure
      (r.state.within parent)).state.search.direct = r.state.search.direct := by
    intro failure
    by_cases hd : (r.state.within parent).search.direct.isSome = true
    · rw [leaveFailed_owned hd]
      exact direct_fails (r.state.within parent) _ _ _
    · rw [leaveFailed_swept hd]
      exact direct_fails ((r.state.within parent).swept mark) _ _ _
  rw [leave]
  rcases r.ending with _ | (e | c) | p
  · exact direct_leaveFinished (r.state.within parent) name r.state.visit
  · rfl
  · exact hfailed _
  · exact hfailed _

theorem direct_enter {name : String} {site : Location} (hy : x.enter? s name site = .inr y) :
    y.search.direct = x.search.direct := by
  obtain ⟨hname, hp, hran⟩ := of_entered hy
  rw [enter?_new hname hp hran] at hy
  cases hy
  obtain ⟨_, hi⟩ := x.search.intern_entered (x.place name) site
  have hd := congrArg Search.direct hi
  exact hd

theorem directs_leave {name : String} {site : Location} {r : Ran BuildError Pass}
    (hy : x.enter? s name site = .inr y) (h : y.Directs r.state) (mark : Nat) :
    x.Directs (leave (x.parentVisit name) name site mark r).state := by
  refine ⟨(leave_keeps _ _ _ _ _).1, fun d hd => ?_⟩
  rw [direct_leave] at hd
  -- what is below the context that is left is below the one around it
  rcases h.direct d hd with hd | hd
  · exact .inl (direct_enter hy ▸ hd)
  · rw [(entered_eq hy).1] at hd
    exact .inr ((List.prefix_append _ _).trans hd)

theorem directs_levelRelation (s : PassScope) : LevelRelation s Directs where
  refl _ := directs_of_eq rfl rfl
  trans := Directs.trans
  perform x b := by
    rw [state_perform]
    exact directs_of_eq rfl rfl
  register _ _ _ _ := directs_of_eq rfl rfl
  say _ _ := directs_of_eq rfl rfl
  declareTest := directs_declareTest
  declarePending := directs_declarePending
  declareAfterSuite x callback := by
    rw [declareAfterSuite]
    split
    · exact directs_of_eq rfl rfl
    · exact directs_of_eq rfl rfl
  outside hr := by
    rcases outside_cases hr with ⟨_, rfl⟩ | ⟨-, hsearch, -⟩
    · exact directs_of_eq rfl rfl
    · exact directs_of_eq (files_outside hr).context (congrArg Search.direct hsearch)
  leave := directs_leave

end Pass

/-! ### What is left on the shelf -/

/-- A sublist of a list without repetitions is what of the list is in it. -/
theorem eq_filter_of_sublist {α : Type} [DecidableEq α] {l m : List α} (h : l.Sublist m)
    (hm : m.Nodup) : l = m.filter (· ∈ l) := by
  induction h with
  | slnil => rfl
  | @cons l m a hsub ih =>
    obtain ⟨ha, hm⟩ := List.nodup_cons.mp hm
    rw [List.filter_cons_of_neg (by simpa using fun hl => ha (hsub.subset hl)), ← ih hm]
  | @cons_cons l m a hsub ih =>
    obtain ⟨ha, hm⟩ := List.nodup_cons.mp hm
    rw [List.filter_cons_of_pos (by simp)]
    refine congrArg (a :: ·) ((ih hm).trans (List.filter_congr fun k hk => ?_))
    have hne : k ≠ a := fun hka => ha (hka ▸ hk)
    simp [hne]

/-- **What is left on the shelf is what was registered and not closed**, the latest first. -/
theorem Stocked.left_eq {es : List Event} {ns : List Nat} (h : Stocked es ns)
    (hn : (registeredIn es).Nodup) :
    ns = (registeredIn es).reverse.filter (· ∉ closedIn es) := by
  refine (eq_filter_of_sublist h.sublist (List.nodup_reverse.mpr hn)).trans
    (List.filter_congr fun k hk => ?_)
  have hdisjoint := (List.nodup_append.mp (h.perm.nodup_iff.mpr hn)).2.2
  have hmem : k ∈ closedIn es ∨ k ∈ ns :=
    List.mem_append.mp (h.perm.symm.subset (List.mem_reverse.mp hk))
  by_cases hc : k ∈ closedIn es
  · have hleft : k ∉ ns := fun hl => hdisjoint k hc k hl rfl
    simp [hc, hleft]
  · have hleft : k ∈ ns := hmem.resolve_left hc
    simp [hc, hleft]

theorem Notebook.Writes.nodup {n m : Notebook} {es : List Event} (h : n.Writes m es) :
    (registeredIn es).Nodup := by
  rw [h.numbers]
  exact List.nodup_range'

/-! ### Contexts that fail -/

/-- A context failed with the outcome `o`, when the handles `hs` were listed; before the failure was
told, the shelf and the notebook were `c`. -/
structure Pass.FailsWith (hs : List Handle) (c : Closet Closure) (o : Outcome)
    (r : Ran BuildError Pass) : Prop where
  closet : r.state.closet = ⟨c.shelf, c.book.add (.notified (.finished o))⟩
  /-- Unless the listener panics, there is one more handle, with that outcome. -/
  handle : r.ending = .finished → ∃ k, r.state.search.tests = hs ++ [k] ∧
    k.test = o.test ∧ r.state.world.cell k.cell = .done o

theorem Pass.fails_failsWith (x : Pass) (name : String) (site : Location) (f : Failure) :
    FailsWith x.search.tests x.closet ⟨⟨x.visit.context, name, site⟩, .failed f⟩
      (x.fails name site f) := by
  refine ⟨closet_fails x name site f, fun he => ?_⟩
  rw [fails] at he ⊢
  rcases complete_cases x ⟨⟨x.visit.context, name, site⟩, .failed f⟩ with
    ⟨p, w, hc⟩ | ⟨w, hc, hcells⟩
  · rw [hc] at he
    cases he
  · rw [hc]
    exact ⟨_, rfl, rfl, World.cell_last hcells⟩

namespace RootContext

variable {r : RootContext} {w₀ w : World} {search : Search} {n : Nat}

/-- No direct test was met where the visit of the root's builder enters a context. -/
theorem Begins.met (h : r.Begins w₀ n search w) (hk : ∀ e, .discarded e ∉ r.marks search w)
    {b : Builder} {p : Pass} (hp : r.builder.Comes (r.openedScope w) (r.opened search w) b p) :
    Pass.Met ⟨.finished, p⟩ := by
  refine hp.property (Pass.met_visitProperty _) (fun _ hs => ?_) hk
  rw [show (r.opened search w).search.direct = none from h.adds.2.1] at hs
  cases hs

/-- **A context that fails closes what was registered during its visit.**  Whenever the visit of the
root's builder has come to the declaration of a context that it enters, in a pass that discards no
structural error (one in which none occurs does not), and the builder of the context ends in an ordinary
error or in a panic:

* a direct test that the pass has met by then was declared in the context or below it, and nothing is
  closed;
* otherwise everything is closed that was registered since the context was entered and that no context
  inside it has closed, the latest first; what was on the shelf before stays there; and the errors of
  the callbacks that are closed are the notes of the failed test that stands for the context. -/
theorem failed_context_sweep (h : r.Begins w₀ n search w)
    (hk : ∀ e, .discarded e ∉ r.marks search w) {name : String} {site : Location}
    {inner next : Builder} {swallow : Bool} {p y : Pass}
    (hp : r.builder.Comes (r.openedScope w) (r.opened search w)
      (.context name site inner swallow next) p)
    (hy : p.enter? (r.openedScope w) name site = .inr y) {c : Cause}
    (hc : (inner.visit (r.openedScope w) y).ending = .failed (.failed c) ∨
      ∃ x : Payload, (inner.visit (r.openedScope w) y).ending = .panicked x ∧ x.toCause = c) :
    let i := (inner.visit (r.openedScope w) y).state
    let left := Pass.leave (p.parentVisit name) name site y.shelf.mark
      (inner.visit (r.openedScope w) y)
    let failed := fun notes => (⟨⟨p.visit.context, name, site⟩,
      .failed ⟨.contextBuild, c, notes⟩⟩ : Outcome)
    (∀ k, i.search.direct = some k →
      (∃ hs, i.search.tests = y.search.tests ++ hs ∧ k ∈ hs) ∧
      p.visit.context.path ++ [name] <+: k.test.container.path ∧
      Pass.FailsWith i.search.tests i.closet (failed []) left) ∧
    (i.search.direct = none → ∃ es more closing,
      y.world.book.Writes i.world.book es ∧ i.shelf = more ++ p.shelf ∧
      Shelf.serials more = (registeredIn es).reverse.filter (· ∉ closedIn es) ∧
      i.world.book.Writes (i.world.book.sweep more).2 closing ∧
      Closes (Shelf.serials more) closing ∧
      (i.world.book.rounds more).map Round.entry = more ∧
      Pass.FailsWith i.search.tests ⟨p.shelf, (i.world.book.sweep more).2⟩
        (failed ((i.world.book.rounds more).filterMap Round.error?)) left) := by
  intro i left failed
  have hnone : y.search.direct = none := (Pass.direct_entered hy (h.met hk hp)).2
  have hshelf : y.shelf = p.shelf := congrArg Closet.shelf (Pass.closet_entered hy)
  have hleft : left = Pass.leaveFailed name site y.shelf.mark (.ofCause .contextBuild c)
      (i.within (p.parentVisit name)) := Pass.leave_eq_leaveFailed _ _ _ _ hc
  refine ⟨fun k hd => ?_, fun hd => ?_⟩
  · obtain ⟨hs, hgrows⟩ := inner.visit_grows (r.openedScope w) y
    have hbelow := (inner.visit_level (Pass.directs_levelRelation (r.openedScope w)) y).direct k hd
    rw [hnone, (Pass.entered_eq hy).1] at hbelow
    have hnew := hgrows.direct k hd
    rw [hnone] at hnew
    refine ⟨⟨hs, hgrows.tests, hnew.resolve_left nofun⟩, hbelow.resolve_left nofun, ?_⟩
    have hsome : (i.within (p.parentVisit name)).search.direct.isSome = true :=
      Option.isSome_iff_exists.mpr ⟨k, hd⟩
    rw [hleft, Pass.leaveFailed_owned hsome]
    exact Pass.fails_failsWith (i.within (p.parentVisit name)) name site _
  · obtain ⟨es, more, hwrites, hmore, hstocked⟩ :=
      inner.visit_leavesStocked (s := r.openedScope w) y
    obtain ⟨closing, hclosing, hcloses⟩ := i.world.book.sweep_writes more
    let j := i.within (p.parentVisit name)
    have hj : j.shelf = more ++ y.shelf := hmore
    -- the mark that was taken on entering separates what was registered since
    have hsince : j.shelf.since y.shelf.mark = more := by
      rw [hj, Shelf.since, Shelf.mark]
      simp
    have hupTo : j.shelf.upTo y.shelf.mark = y.shelf := by
      rw [hj, Shelf.upTo, Shelf.mark]
      simp
    have hswept : j.swept y.shelf.mark
        = j.withCloset ⟨y.shelf, (j.world.book.sweep more).2⟩ := by
      rw [Pass.swept, hsince, hupTo]
    have hsome : ¬ j.search.direct.isSome = true := by
      rw [show j.search.direct = none from hd]
      exact Bool.false_ne_true
    have hfails := Pass.fails_failsWith (j.swept y.shelf.mark) name site
      ((Failure.ofCause .contextBuild c).withTeardown (j.world.book.sweep more).1)
    refine ⟨es, more, closing, hwrites, hshelf ▸ hj, hstocked.left_eq hwrites.nodup, hclosing,
      hcloses, rounds_entries _ _ _, ?_⟩
    rw [hleft, Pass.leaveFailed_swept hsome, hsince, ← hshelf, Notebook.rounds, ← sweep_errors]
    rw [hswept] at hfails ⊢
    exact hfails

end RootContext

/-- A root that registers a callback, with a context that registers two and fails; in between a context
inside it has registered another one and failed. -/
def sweepingRoot : RootContext :=
  ⟨0, "root", false, .site 0,
    .deferClose .done <|
    .context "c" (.site 1)
      (.deferClose (.basic (.fail ⟨.text "late", .plain⟩) .done) <|
        .context "d" (.site 2) (.deferClose .done <| .basic (.panic .other) .done) false <|
        .deferClose .done <| .basic (.fail ⟨.text "no", .sorted⟩) .done) false .done⟩

/-- The context closes its own two callbacks, and the callback of the root stays; a context that has met
a direct test closes nothing. -/
theorem failed_context_sweep_sweepingRoot :
    (∃ hs c left, Pass.FailsWith hs c ⟨⟨sweepingRoot.context, "c", .site 1⟩, .failed
        ⟨.contextBuild, .text "no", [⟨"deferred", .text "late"⟩]⟩⟩ left ∧ c.shelf.serials = [0] ∧
        closedIn c.book.acts.reverse = [2, 3, 1]) ∧
      ∃ hs c left, Pass.FailsWith hs c ⟨⟨brittleRoot.context, "c", .site 1⟩, .failed
        ⟨.contextBuild, .text "no", []⟩⟩ left ∧ closedIn c.book.acts.reverse = [] := by
  have hmarks : sweepingRoot.marks {} (.fresh (.held 1) .silent .lazy)
      = [.declared ⟨sweepingRoot.context, "c"⟩,
        .declared ⟨.child sweepingRoot.context "c" (.site 1), "d"⟩] := rfl
  have hmarks' : brittleRoot.marks {} (.fresh (.held 1) .silent .lazy)
      = [.declared ⟨brittleRoot.context, "c"⟩,
        .declared ⟨.child brittleRoot.context "c" (.site 1), "a"⟩,
        .declared ⟨brittleRoot.context, "b"⟩] := rfl
  have hfirst : ∀ r : RootContext, r.Begins (.fresh (.held 1) .silent .lazy) 0 {}
      (.fresh (.held 1) .silent .lazy) := fun _ => .first
  constructor
  · obtain ⟨-, hswept⟩ := RootContext.failed_context_sweep (hfirst sweepingRoot)
      (by rw [hmarks]; simp) (.behind rfl .here) rfl (.inl rfl)
    obtain ⟨es, more, closing, -, hmore, -, -, -, -, hfails⟩ := hswept rfl
    have hmore : [_, _] ++ _ = more ++ _ := hmore
    obtain rfl : _ = more := List.append_cancel_right hmore
    exact ⟨_, _, _, hfails, rfl, rfl⟩
  · obtain ⟨howned, -⟩ := RootContext.failed_context_sweep (hfirst brittleRoot)
      (by rw [hmarks']; simp) .here rfl (.inl rfl)
    obtain ⟨-, -, hfails⟩ := howned _ rfl
    exact ⟨_, _, _, hfails, rfl⟩

end TestTree

/-
Who owns the shelves of discovery passes.

* `World.owners` : the numbers of the shelves that direct units own;
* `World.Owned` : no shelf has two owners;
* `Builder.Propagates` : builders that lose no structural error;
* `Builder.not_raises` : a computable condition for that;
* `Pass.Tame` : how a part of a visit leaves the owners;
* `RootContext.discover_tidy` : **if a discovery that loses no structural error gives a result, no
  shelf has two owners**.

## Design notes

A pass that goes on behind a structural error can find a second direct test for its shelf.
Repeated names are kept in `Search.fatal`, whether a builder swallows the error or not, and
discovery ends with them; every other structural error has to reach the root by itself.
-/
import Mathlib.Data.List.Nodup
import TestTree.Proofs.Uses

namespace TestTree

/-! ### Owners -/

/-- The shelf that the unit in a cell owns. -/
def Cell.shelf? : Cell TestUnit Outcome → Option Nat
  | suspended u => u.shelf?
  | _ => none

namespace World

/-- The shelves that direct units own, in the order of their cells. -/
def owners (w : World) : List Nat :=
  w.cells.filterMap Cell.shelf?

/-- No shelf has two owners, and the shelves that have one are among the first `bound`. -/
structure Owned (w : World) (bound : Nat) : Prop where
  nodup : w.owners.Nodup
  lt : ∀ k ∈ w.owners, k < bound

variable {v w : World} {bound : Nat}

theorem Owned.congr (h : v.Owned bound) (ho : w.owners = v.owners) : w.Owned bound := by
  constructor
  · rw [ho]
    exact h.nodup
  · rw [ho]
    exact h.lt

theorem Owned.mono (h : v.Owned bound) {bound' : Nat} (hle : bound ≤ bound') : v.Owned bound' :=
  ⟨h.nodup, fun k hk => Nat.lt_of_lt_of_le (h.lt k hk) hle⟩

theorem owners_append {c : Cell TestUnit Outcome} (h : w.cells = v.cells ++ [c]) :
    w.owners = v.owners ++ c.shelf?.toList := by
  rw [owners, h, List.filterMap_append, owners]
  cases hc : c.shelf? <;> simp [hc]

/-- A new owner of the shelf that is number `k`. -/
theorem Owned.add (h : v.Owned (bound + 1)) (hb : bound ∉ v.owners)
    (ho : w.owners = v.owners ++ [bound]) : w.Owned (bound + 1) := by
  constructor
  · rw [ho, List.nodup_append]
    refine ⟨h.nodup, List.nodup_singleton _, fun a ha b hb' heq => hb ?_⟩
    rwa [← List.mem_singleton.mp hb', ← heq]
  · intro k hk
    rw [ho] at hk
    rcases List.mem_append.mp hk with hk | hk
    · exact h.lt k hk
    · rw [List.mem_singleton.mp hk]
      exact Nat.lt_succ_self _

@[simp] theorem owners_completed (w : World) (o : Outcome) : (w.completed o).2.owners = w.owners := by
  rw [completed, notify, Notebook.notify]
  cases w.listener.panic? (.finished o) with
  | some p => rfl
  | none => exact (owners_append (c := .done o) rfl).trans (List.append_nil _)

end World

/-! ### Structural errors -/

/-- The builder can end with a structural error that is no repeated name. -/
def Builder.Raises (b : Builder) : Prop :=
  ∃ s x e, (b.visit s x).ending = .failed (.structural e) ∧ (b.visit s x).state.search.fatal = none

/-- The statement fails with a structural error. -/
def Basic.isStructural : Basic → Bool
  | fail e => e.toBuildError.isStructural
  | _ => false

/-- A statement of the builder, or of one inside it, fails with a structural error. -/
def Builder.throws : Builder → Bool
  | done => false
  | basic b next => b.isStructural || next.throws
  | branch _ yes no next => yes.throws || no.throws || next.throws
  | autoClose _ _ next => next.throws
  | deferClose _ next => next.throws
  | test _ _ _ _ next => next.throws
  | context _ _ inner _ next => inner.throws || next.throws
  | pending _ _ _ next => next.throws
  | afterSuite _ next => next.throws
  | logCurrent next => next.throws

/-- No structural error of a context is swallowed by the builder around it, but for repeated names,
which are kept. -/
def Builder.Propagates : Builder → Prop
  | done => True
  | basic _ next => next.Propagates
  | branch _ yes no next => yes.Propagates ∧ no.Propagates ∧ next.Propagates
  | autoClose _ _ next => next.Propagates
  | deferClose _ next => next.Propagates
  | test _ _ _ _ next => next.Propagates
  | context _ _ inner swallow next =>
    (swallow = true → ¬ inner.Raises) ∧ inner.Propagates ∧ next.Propagates
  | pending _ _ _ next => next.Propagates
  | afterSuite _ next => next.Propagates
  | logCurrent next => next.Propagates

/-! ### Passes -/

namespace Pass

/-- What a part of a visit has done: a repeated name was met, it ended with a structural error, or
the shelf of the pass has at most one owner, and none unless a test was met. -/
inductive Tame (s : PassScope) (r : Ran BuildError Pass) : Prop
  | fatal (h : r.state.search.fatal.isSome = true)
  | structural (e : StructuralError) (h : r.ending = .failed (.structural e))
  | owned (h : r.state.world.Owned (s.shelf + 1))
      (hr : r.ending = .finished → s.shelf ∈ r.state.world.owners → r.state.visit.ran = true)

variable {s : PassScope} {x y : Pass} {r : Ran BuildError Pass}

theorem Tame.andThen (h : Tame s r) {next : Pass → Ran BuildError Pass}
    (hn : ∀ x, Tame s ⟨.finished, x⟩ → Tame s (next x)) : Tame s (r.andThen next) := by
  by_cases hr : r.ending = .finished
  · obtain ⟨_, x⟩ := r
    cases hr
    exact hn x h
  · rwa [Ran.andThen_of_ne hr]

/-- A step that changes neither owners nor what was met. -/
theorem Tame.keep (h : Tame s ⟨.finished, x⟩) (hf : r.state.search.fatal = x.search.fatal)
    (ho : r.state.world.owners = x.world.owners) (hr : r.state.visit.ran = x.visit.ran) :
    Tame s r := by
  cases h with
  | fatal h =>
    refine .fatal ?_
    rwa [hf]
  | structural e h => cases h
  | owned h hran =>
    refine .owned (h.congr ho) fun _ hs => ?_
    rw [ho] at hs
    rw [hr]
    exact hran rfl hs

/-- Whatever error a part of a visit ends with, a repeated name was met. -/
def Kept (r : Ran BuildError Pass) : Prop :=
  ∀ e, r.ending = .failed e → r.state.search.fatal.isSome = true

/-- An error can be swallowed if it is kept. -/
theorem Tame.swallowing (h : Tame s r) {b : Bool} (hb : b = true → Kept r) :
    Tame s (r.swallowing b) := by
  obtain ⟨_ | e | p, x⟩ := r
  · exact h
  · cases b with
    | false => exact h
    | true => exact .fatal (hb rfl e rfl)
  · exact h

/-- A handle for a known outcome: the only thing that can go wrong is a panic of the listener. -/
theorem complete_keeps (x : Pass) (o : Outcome) :
    (x.complete o).state.search.fatal = x.search.fatal ∧
      (x.complete o).state.world.owners = x.world.owners ∧
      (x.complete o).state.visit = x.visit ∧ ∀ e, (x.complete o).ending ≠ .failed e := by
  have ho := x.world.owners_completed o
  rw [complete]
  split
  · rename_i hc
    rw [hc] at ho
    exact ⟨rfl, ho, rfl, by rintro _ ⟨⟩⟩
  · rename_i hc
    rw [hc] at ho
    exact ⟨rfl, ho, rfl, by rintro _ ⟨⟩⟩

/-- A test that is declared fails only if its name was taken before. -/
theorem kept_declareTest (x : Pass) (name : String) (site : Location) (body : Body) :
    Kept (x.declareTest s name site body) := by
  intro e he
  by_cases hname : name ∈ x.visit.names
  · rw [declareTest_taken hname]
    rfl
  by_cases hp : x.isProcessed name = true
  · rw [declareTest_processed hname hp] at he
    cases he
  by_cases hran : x.visit.ran = true
  · rw [declareTest_replayed hname hp hran] at he
    cases he
  · rw [declareTest_direct hname hp hran] at he
    cases he

theorem tame_declareTest (h : Tame s ⟨.finished, x⟩) (name : String) (site : Location) (body : Body) :
    Tame s (x.declareTest s name site body) := by
  by_cases hname : name ∈ x.visit.names
  · rw [declareTest_taken hname]
    exact .fatal rfl
  by_cases hp : x.isProcessed name = true
  · rw [declareTest_processed hname hp]
    exact h.keep rfl rfl rfl
  by_cases hran : x.visit.ran = true
  · rw [declareTest_replayed hname hp hran]
    refine h.keep rfl ?_ rfl
    exact (World.owners_append (World.cells_schedule _ _)).trans (List.append_nil _)
  · rw [declareTest_direct hname hp hran]
    cases h with
    | fatal h => exact .fatal h
    | structural e h => cases h
    | owned h hr =>
      -- no test was met in this pass, so the shelf has no owner yet
      have hnew : s.shelf ∉ x.world.owners := fun hs => hran (hr rfl hs)
      have ho : (x.world.scheduleSuspended (.direct ⟨x.visit.context, name, site⟩ body s.scope
          s.shelf)).2.owners = x.world.owners ++ [s.shelf] :=
        World.owners_append
          (c := .suspended (.direct ⟨x.visit.context, name, site⟩ body s.scope s.shelf)) rfl
      exact .owned (h.add hnew ho) fun _ _ => rfl

theorem kept_declarePending (x : Pass) (name : String) (site : Location) :
    Kept (x.declarePending name site) := by
  intro e he
  by_cases hname : name ∈ x.visit.names
  · rw [declarePending_taken hname]
    rfl
  by_cases hp : x.isProcessed name = true
  · rw [declarePending_processed hname hp] at he
    cases he
  · rw [declarePending_new hname hp] at he
    exact absurd he ((complete_keeps _ _).2.2.2 e)

theorem tame_declarePending (h : Tame s ⟨.finished, x⟩) (name : String) (site : Location) :
    Tame s (x.declarePending name site) := by
  by_cases hname : name ∈ x.visit.names
  · rw [declarePending_taken hname]
    exact .fatal rfl
  by_cases hp : x.isProcessed name = true
  · rw [declarePending_processed hname hp]
    exact h.keep rfl rfl rfl
  · rw [declarePending_new hname hp]
    obtain ⟨hf, ho, hv, -⟩ := complete_keeps ((x.within (x.parentVisit name)).process name)
      ⟨⟨x.visit.context, name, site⟩, .pending⟩
    have hran := congrArg Visit.ran hv
    exact h.keep hf ho hran

/-- What can happen if nothing is entered: the name was taken, or nothing is done. -/
theorem outside_cases {name : String} {site : Location} (hr : x.enter? s name site = .inl r) :
    (∃ e, r = ⟨.failed (.structural e), x.faulty e⟩) ∨
      r.ending = .finished ∧ r.state.search = x.search ∧ r.state.world = x.world ∧
        r.state.visit.ran = x.visit.ran := by
  by_cases hname : name ∈ x.visit.names
  · rw [enter?_taken hname] at hr
    cases hr
    exact .inl ⟨_, rfl⟩
  by_cases hp : x.isProcessed name = true
  · rw [enter?_processed hname hp] at hr
    cases hr
    exact .inr ⟨rfl, rfl, rfl, rfl⟩
  by_cases hran : x.visit.ran = true
  · rw [enter?_skipped hname hp hran] at hr
    cases hr
    exact .inr ⟨rfl, rfl, rfl, rfl⟩
  · rw [enter?_new hname hp hran] at hr
    cases hr

theorem kept_outside {name : String} {site : Location} (hr : x.enter? s name site = .inl r) :
    Kept r := by
  intro e he
  rcases outside_cases hr with ⟨_, rfl⟩ | ⟨hfinished, -⟩
  · rfl
  · rw [hfinished] at he
    cases he

theorem tame_outside (h : Tame s ⟨.finished, x⟩) {name : String} {site : Location}
    (hr : x.enter? s name site = .inl r) : Tame s r := by
  rcases outside_cases hr with ⟨_, rfl⟩ | ⟨-, hsearch, hworld, hran⟩
  · exact .fatal rfl
  · exact h.keep (congrArg Search.fatal hsearch) (congrArg World.owners hworld) hran

/-- A context is entered only if no test was met before it, and so the shelf has no owner yet. -/
theorem tame_inside (h : Tame s ⟨.finished, x⟩) {name : String} {site : Location}
    (hy : x.enter? s name site = .inr y) : Tame s ⟨.finished, y⟩ := by
  obtain ⟨hname, hp, hran⟩ := of_entered hy
  rw [enter?_new hname hp hran] at hy
  cases hy
  obtain ⟨entered, hs⟩ := x.search.intern_entered (x.place name) site
  have hf := congrArg Search.fatal hs
  refine h.keep hf rfl ?_
  -- inside, nothing was met either
  exact (Bool.eq_false_iff.mpr hran).symm

theorem fails_keeps (x : Pass) (name : String) (site : Location) (failure : Failure) :
    (x.fails name site failure).state.search.fatal = x.search.fatal ∧
      (x.fails name site failure).state.world.owners = x.world.owners ∧
      ((x.fails name site failure).ending = .finished →
        (x.fails name site failure).state.visit.ran = true) ∧
      ∀ e, (x.fails name site failure).ending ≠ .failed e := by
  obtain ⟨hf, ho, -, hne⟩ := x.complete_keeps ⟨⟨x.visit.context, name, site⟩, .failed failure⟩
  rw [fails]
  generalize x.complete ⟨⟨x.visit.context, name, site⟩, .failed failure⟩ = c at hf ho hne ⊢
  obtain ⟨_ | e | p, y⟩ := c
  · exact ⟨hf, ho, fun _ => rfl, by rintro _ ⟨⟩⟩
  · exact absurd rfl (hne e)
  · exact ⟨hf, ho, by rintro ⟨⟩, by rintro _ ⟨⟩⟩

theorem leaveFailed_keeps (x : Pass) (name : String) (site : Location) (mark : Nat)
    (failure : Failure) :
    (leaveFailed name site mark failure x).state.search.fatal = x.search.fatal ∧
      (leaveFailed name site mark failure x).state.world.owners = x.world.owners ∧
      ((leaveFailed name site mark failure x).ending = .finished →
        (leaveFailed name site mark failure x).state.visit.ran = true) ∧
      ∀ e, (leaveFailed name site mark failure x).ending ≠ .failed e := by
  by_cases hd : x.search.direct.isSome = true
  · rw [leaveFailed_owned hd]
    exact fails_keeps _ _ _ _
  · rw [leaveFailed_swept hd]
    exact fails_keeps _ _ _ _

/-- Leaving a context: an owner that was found inside is a test that was met. -/
theorem tame_leave (h : Tame s r) (parent : Visit) (name : String) (site : Location) (mark : Nat) :
    Tame s (leave parent name site mark r) := by
  obtain ⟨ending, x⟩ := r
  -- a context that failed counts as a test that was met
  have hfailed : (∀ e, ending ≠ .failed (.structural e)) → ∀ failure,
      Tame s (leaveFailed name site mark failure (x.within parent)) := by
    intro hne failure
    obtain ⟨hf, ho, hr, -⟩ := leaveFailed_keeps (x.within parent) name site mark failure
    cases h with
    | fatal h =>
      refine .fatal ?_
      rwa [hf]
    | structural e h => exact absurd h (hne e)
    | owned h _ => exact .owned (h.congr ho) fun he _ => hr he
  rw [leave]
  rcases ending with _ | (e | c) | p
  · cases h with
    | fatal h =>
      refine .fatal ?_
      show ((x.within parent).leaveFinished name x.visit).search.fatal.isSome = true
      rwa [fatal_leaveFinished]
    | structural e h => cases h
    | owned h hr =>
      have ho : ((x.within parent).leaveFinished name x.visit).world.owners = x.world.owners :=
        congrArg World.owners (world_leaveFinished (x.within parent) name x.visit)
      refine .owned (h.congr ho) fun _ hs => ?_
      have hran : x.visit.ran = true := by
        refine hr rfl ?_
        rw [← ho]
        exact hs
      show ((x.within parent).leaveFinished name x.visit).visit.ran = true
      rw [visit_leaveFinished, hran, Bool.or_true]
  · exact .structural e rfl
  · exact hfailed (by rintro _ ⟨⟩) _
  · exact hfailed (by rintro _ ⟨⟩) _

/-- If a part of a visit ends with a structural error, a repeated name was met. -/
def Repeats (r : Ran BuildError Pass) : Prop :=
  ∀ e, r.ending = .failed (.structural e) → r.state.search.fatal.isSome = true

theorem Kept.repeats (h : Kept r) : Repeats r :=
  fun e he => h (.structural e) he

theorem Repeats.andThen (h : Repeats r) {next : Pass → Ran BuildError Pass}
    (hn : ∀ x, Repeats (next x)) : Repeats (r.andThen next) := by
  by_cases hr : r.ending = .finished
  · obtain ⟨_, x⟩ := r
    cases hr
    exact hn x
  · rwa [Ran.andThen_of_ne hr]

theorem Repeats.swallowing (h : Repeats r) (b : Bool) : Repeats (r.swallowing b) := by
  obtain ⟨_ | e | p, x⟩ := r
  · exact h
  · cases b with
    | false => exact h
    | true => exact nofun
  · exact h

/-- Only a structural error leaves a context. -/
theorem kept_leave (h : Repeats r) (parent : Visit) (name : String) (site : Location) (mark : Nat) :
    Kept (leave parent name site mark r) := by
  intro e he
  -- a context that failed in an ordinary way is listed as a test, and the visit goes on
  have hne := fun failure => (leaveFailed_keeps (r.state.within parent) name site mark failure).2.2.2
  rw [leave] at he ⊢
  cases hend : r.ending with
  | finished =>
    rw [hend] at he
    cases he
  | failed e =>
    rw [hend] at he
    cases e with
    | structural e => exact h e hend
    | failed c => exact absurd he (hne _ _)
  | panicked p =>
    rw [hend] at he
    exact absurd he (hne _ _)

end Pass

theorem Builder.repeats_visit {b : Builder} (hb : ¬ b.Raises) (s : PassScope) (x : Pass) :
    Pass.Repeats (b.visit s x) := by
  intro e he
  rw [Option.isSome_iff_ne_none]
  intro hf
  exact hb ⟨s, x, e, he, hf⟩

/-- **A visit of a builder that loses no structural error gives the shelf at most one owner.** -/
theorem Builder.visit_tame {s : PassScope} {b : Builder} (hb : b.Propagates) : ∀ {x : Pass},
    Pass.Tame s ⟨.finished, x⟩ → Pass.Tame s (b.visit s x) := by
  induction b with
  | done => intro x h; exact h
  | basic b next ih =>
    intro x h
    have hstate := x.state_perform s.scope b
    exact (h.keep (congrArg (·.search.fatal) hstate) (congrArg (·.world.owners) hstate)
      (congrArg (·.visit.ran) hstate)).andThen fun x h => ih hb h
  | branch c yes no next ihy ihn ih =>
    intro x h
    rw [visit]
    refine Pass.Tame.andThen ?_ fun x h => ih hb.2.2 h
    split
    · exact ihy hb.1 h
    · exact ihn hb.2.1 h
  | autoClose res close next ih => intro x h; exact ih hb (h.keep rfl rfl rfl)
  | deferClose close next ih => intro x h; exact ih hb (h.keep rfl rfl rfl)
  | test name site body swallow next ih =>
    intro x h
    have ht := Pass.tame_declareTest h name site body
    exact (ht.swallowing fun _ => Pass.kept_declareTest x name site body).andThen fun x h => ih hb h
  | context name site inner swallow next ihi ih =>
    intro x h
    obtain ⟨hraises, hinner, hnext⟩ := hb
    refine Pass.Tame.andThen ?_ fun x h => ih hnext h
    cases henter : x.enter? s name site with
    | inl r => exact (Pass.tame_outside h henter).swallowing fun _ => Pass.kept_outside henter
    | inr y =>
      -- what a context swallows is a repeated name, which discovery ends with in any case
      have hy := ihi hinner (Pass.tame_inside h henter)
      exact (Pass.tame_leave hy _ name site _).swallowing fun hswallow =>
        Pass.kept_leave (inner.repeats_visit (hraises hswallow) s y) _ _ _ _
  | pending name site swallow next ih =>
    intro x h
    have ht := Pass.tame_declarePending h name site
    exact (ht.swallowing fun _ => Pass.kept_declarePending x name site).andThen fun x h => ih hb h
  | afterSuite callback next ih =>
    intro x h
    refine ih hb ?_
    rw [Pass.declareAfterSuite]
    split
    · exact h.keep rfl rfl rfl
    · exact h
  | logCurrent next ih => intro x h; exact ih hb (h.keep rfl rfl rfl)

theorem Pass.repeats_perform (x : Pass) (s : Scope) {b : Basic} (hb : b.isStructural = false) :
    Repeats (x.perform s b) := by
  intro e he
  cases b with
  | fail t =>
    have ht : t.toBuildError = .structural e := Ending.failed.inj he
    rw [Basic.isStructural, ht] at hb
    cases hb
  | _ => cases he

/-- **A builder without a statement that fails structurally raises no structural error** but for
repeated names. -/
theorem Builder.not_raises {b : Builder} (hb : b.throws = false) : ¬ b.Raises := by
  -- an error that is swallowed or left behind was a repeated name, which stays in the search
  have hvisit : ∀ (s : PassScope) (x : Pass), Pass.Repeats (b.visit s x) := by
    intro s
    induction b with
    | done => intro x; exact nofun
    | basic b next ih =>
      intro x
      obtain ⟨hb, hnext⟩ := Bool.or_eq_false_iff.mp hb
      exact (x.repeats_perform s.scope hb).andThen (ih hnext)
    | branch c yes no next ihy ihn ih =>
      intro x
      obtain ⟨hb, hnext⟩ := Bool.or_eq_false_iff.mp hb
      obtain ⟨hyes, hno⟩ := Bool.or_eq_false_iff.mp hb
      rw [visit]
      refine Pass.Repeats.andThen ?_ (ih hnext)
      split
      · exact ihy hyes x
      · exact ihn hno x
    | autoClose res close next ih => intro x; exact ih hb _
    | deferClose close next ih => intro x; exact ih hb _
    | test name site body swallow next ih =>
      intro x
      have hkept := Pass.kept_declareTest (s := s) x name site body
      exact (hkept.repeats.swallowing swallow).andThen (ih hb)
    | context name site inner swallow next ihi ih =>
      intro x
      obtain ⟨hinner, hnext⟩ := Bool.or_eq_false_iff.mp hb
      refine Pass.Repeats.andThen (Pass.Repeats.swallowing ?_ swallow) (ih hnext)
      cases henter : x.enter? s name site with
      | inl r => exact (Pass.kept_outside henter).repeats
      | inr y => exact (Pass.kept_leave (ihi hinner y) _ name site _).repeats
    | pending name site swallow next ih =>
      intro x
      have hkept := Pass.kept_declarePending x name site
      exact (hkept.repeats.swallowing swallow).andThen (ih hb)
    | afterSuite callback next ih => intro x; exact ih hb _
    | logCurrent next ih => intro x; exact ih hb _
  rintro ⟨s, x, e, he, hf⟩
  have hsome := hvisit s x e he
  rw [hf] at hsome
  cases hsome

/-! ### Discoveries -/

/-- No shelf of a pass so far has two owners, and only handles of `hs` are queued. -/
structure World.Tidy (w : World) (hs : List Handle) : Prop where
  owned : w.Owned w.shelves.length
  queued : w.Within hs

namespace World

variable {v w : World} {hs : List Handle}

theorem tidy_fresh (pool : Pool Nat) (l : Listener) (policy : StartPolicy) (hp : pool.queue = []) :
    (fresh pool l policy).Tidy [] :=
  ⟨⟨List.nodup_nil, nofun⟩, within_nil hp⟩

theorem Tidy.congr (h : v.Tidy hs) (ho : w.owners = v.owners)
    (hl : w.shelves.length = v.shelves.length) (hp : w.pool = v.pool) : w.Tidy hs := by
  constructor
  · rw [hl]
    exact h.owned.congr ho
  · rw [Within, hp]
    exact h.queued

theorem Tidy.release (h : v.Tidy hs) {k : Handle} (hk : k ∈ hs) : (v.release k).Tidy hs := by
  refine ⟨?_, (movesWithin_release hk v h.queued).2⟩
  obtain ⟨_, _, hr, -⟩ := release_eq v k
  rw [hr]
  exact h.owned.congr rfl

theorem Tidy.closeShelf (h : v.Tidy hs) (k : Nat) : (v.closeShelf k).2.Tidy hs :=
  h.congr rfl (List.length_set ..) rfl

theorem Tidy.closeWarning (h : v.Tidy hs) (k : Nat) (message root : String) :
    (v.closeWarning k message root).Tidy hs := by
  obtain ⟨_, hc, -⟩ := closeWarning_eq v k message root
  rw [hc]
  exact (h.closeShelf k).congr rfl rfl rfl

end World

namespace RootContext

variable {r : RootContext} {w : World}

theorem fatal?_eq_none_iff {e : PassEnd} : fatal? e = none ↔
    e.search.fatal = none ∧ ∀ error, e.ending ≠ .failed (.structural error) := by
  obtain ⟨ending, left, direct, shelf, search, w⟩ := e
  rw [fatal?]
  cases hf : search.fatal with
  | some error => simp
  | none => rcases ending with _ | (e | c) | p <;> simp

/-- A pass lists the handles that it makes; its direct test is one of them. -/
theorem runPass_within (r : RootContext) {search : Search} (hd : search.direct = none)
    (hw : w.Within search.tests) :
    (r.runPass search w).world.Within (r.runPass search w).search.tests ∧
      ∀ h, (r.runPass search w).direct = some h → h ∈ (r.runPass search w).search.tests := by
  obtain ⟨hs, hgrows⟩ := r.builder.visit_grows
    ⟨r, ⟨r.index, w.book.invocations⟩, w.shelves.length⟩ (r.opened search w)
  have htests : (r.runPass search w).search.tests = search.tests ++ hs := hgrows.tests
  have hopened : World.Within search.tests (r.opened search w).world := hw
  rw [htests]
  refine ⟨hgrows.makes.within hopened, fun h hh => ?_⟩
  rcases hgrows.direct h hh with hh | hh
  · rw [show (r.opened search w).search.direct = none from hd] at hh
    cases hh
  · exact List.mem_append_right _ hh

/-- **A pass that discovery goes on behind.** -/
theorem runPass_tidy (hb : r.builder.Propagates) {search : Search} (hd : search.direct = none)
    (hw : w.Tidy search.tests) (hf : fatal? (r.runPass search w) = none) :
    (r.runPass search w).world.Tidy (r.runPass search w).search.tests := by
  obtain ⟨hfatal, hstructural⟩ := fatal?_eq_none_iff.mp hf
  let s : PassScope := ⟨r, ⟨r.index, w.book.invocations⟩, w.shelves.length⟩
  -- the shelf of the pass is new
  have hopened : Pass.Tame s ⟨.finished, r.opened search w⟩ := by
    refine .owned ((hw.owned.mono (Nat.le_succ _)).congr rfl) fun _ hs => ?_
    exact absurd (hw.owned.lt _ hs) (Nat.lt_irrefl _)
  have hlength := congrArg List.length (r.shelves_visit search w s r.builder)
  rw [List.length_append] at hlength
  refine ⟨?_, (r.runPass_within hd hw.queued).1⟩
  cases Builder.visit_tame hb hopened with
  | fatal h =>
    rw [show (r.builder.visit s (r.opened search w)).state.search.fatal = none from hfatal] at h
    cases h
  | structural e h => exact absurd h (hstructural e)
  | owned h _ =>
    rw [runPass_eq, hlength]
    exact h.congr rfl

/-- A discovery with a result is tidy. -/
def LeavesTidy (a : Except Payload (Except StructuralError Discovery) × World) : Prop :=
  ∀ d, a.1 = .ok (.ok d) → a.2.Tidy d.tests

theorem finish_tidy {search : Search} (hw : w.Tidy search.tests) (passes : Nat) :
    LeavesTidy (r.finish passes search w) := by
  intro d hd
  cases hd
  exact hw.congr rfl rfl rfl

theorem finishFailed_tidy {search : Search} (hw : w.Tidy search.tests) (passes : Nat)
    (failure : Failure) : LeavesTidy (r.finishFailed passes failure search w) := by
  have ho := w.owners_completed ⟨⟨r.context, r.name, r.location⟩, .failed failure⟩
  have hm := World.makes_completed w ⟨⟨r.context, r.name, r.location⟩, .failed failure⟩
  intro d hd
  rw [finishFailed] at hd ⊢
  generalize w.completed ⟨⟨r.context, r.name, r.location⟩, .failed failure⟩ = c at ho hm hd ⊢
  obtain ⟨_, v⟩ := c
  rcases hm with ⟨x, hx, -⟩ | ⟨h, hh, hm⟩
  · cases hx
    cases hd
  · cases hh
    let found : Search := { search with tests := search.tests ++ [h] }
    have hv : v.Tidy found.tests := by
      refine ⟨?_, hm.within hw.queued⟩
      rw [show v.shelves = w.shelves from hm.shelves]
      exact hw.owned.congr ho
    exact finish_tidy hv _ d hd

theorem abort_tidy (r : RootContext) (e : PassEnd) (error : StructuralError) :
    LeavesTidy (r.abort e error) := by
  intro d hd
  rw [abort] at hd
  split at hd
  · cases hd
  · cases hd

theorem discoverFrom_tidy (hb : r.builder.Propagates) : ∀ (fuel passes : Nat) (search : Search)
    (w : World), search.direct = none → w.Tidy search.tests →
    LeavesTidy (r.discoverFrom fuel passes search w) := by
  intro fuel
  induction fuel with
  | zero => intro passes search w _ hw; exact finish_tidy hw passes
  | succ fuel ih =>
    intro passes search w hd hw
    have hpass := runPass_tidy hb hd hw
    have hdirect := (r.runPass_within hd hw.queued).2
    have hnone : (r.runPass search w).search.direct = none := rfl
    rw [discoverFrom]
    -- a pass that is not tidy has an error that discovery ends with
    generalize r.runPass search w = e at hpass hdirect hnone ⊢
    cases hf : fatal? e with
    | some error =>
      rw [conclude?_of_fatal hf]
      exact abort_tidy r e error
    | none =>
      have htidy := hpass hf
      cases he : failure? e.ending with
      | some failure =>
        rw [conclude?_of_failure hf he, concludeFailed]
        cases hh : e.direct with
        | some h => exact finishFailed_tidy (htidy.release (hdirect h hh)) _ _
        | none => exact finishFailed_tidy (htidy.closeShelf _) _ _
      | none =>
        -- what comes behind the pass keeps its world tidy, and discovery goes on from there or ends
        have hbehind : (r.behind e).Tidy e.search.tests := by
          rw [behind]
          cases hh : e.direct with
          | some h => exact htidy.release (hdirect h hh)
          | none => exact htidy.closeWarning e.shelf _ _
        cases hl : e.left with
        | true =>
          rw [conclude?_of_left hf he hl]
          exact ih _ _ _ hnone hbehind
        | false =>
          rw [conclude?_of_finished hf he hl]
          exact finish_tidy hbehind _

/-- **If a discovery that loses no structural error gives a result, no shelf has two owners**, and
only its handles are queued. -/
theorem discover_tidy (hb : r.builder.Propagates) (hw : w.Tidy []) : LeavesTidy (r.discover w) :=
  discoverFrom_tidy hb _ _ _ w rfl hw

end RootContext

end TestTree

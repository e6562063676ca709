/-
Sessions with one root, and what becomes of every close callback in them.

* `Session.Step`, `Session.Runs` : discover, use handles and the pool, and let go of results;
* `Builder.history_of_not_swallows`, `RootContext.discover_quiet` : builders and listeners with
  which every discovery is such a step;
* `RootContext.Settles` : what becomes of the callbacks that a pass registers;
* `Session.callbacks_close_once` : **every callback is closed exactly once, and never before its
  owner is done.**

## Design notes

A discovery that ends with a panic of the listener is no step of a session.  While units run, the
listener may panic whenever it likes.
-/
import TestTree.Proofs.PassCustody
import TestTree.World.Session

namespace TestTree

open scoped List

/-! ### Builders that swallow nothing -/

/-- Some declaration of the builder swallows errors. -/
def Builder.swallows : Builder → Bool
  | done => false
  | basic _ next => next.swallows
  | branch _ yes no next => yes.swallows || no.swallows || next.swallows
  | autoClose _ _ next => next.swallows
  | deferClose _ next => next.swallows
  | test _ _ _ swallow next => swallow || next.swallows
  | context _ _ inner swallow next => swallow || inner.swallows || next.swallows
  | pending _ _ swallow next => swallow || next.swallows
  | afterSuite _ next => next.swallows
  | logCurrent next => next.swallows

/-- What is said of the rest of a script, if the rest is run. -/
theorem Ran.forall_behind {ε σ α : Type} {r : Ran ε σ} {f : σ → List α} {P : α → Prop}
    (h : ∀ x, ∀ a ∈ f x, P a) : ∀ a ∈ r.behind f, P a := by
  rcases r with ⟨_ | e | p, x⟩
  · exact h x
  · rintro _ ⟨⟩
  · rintro _ ⟨⟩

/-- A builder that swallows nothing discards no structural error. -/
theorem Builder.history_of_not_swallows (s : PassScope) {b : Builder} (hb : b.swallows = false) :
    ∀ x, ∀ m ∈ b.history s x, ∀ e, m ≠ .discarded e := by
  induction b with
  | done => intro x m hm; cases hm
  | basic b next ih =>
    intro x m hm
    rcases List.mem_append.mp hm with hm | hm
    · cases hs : (x.perform s.scope b).structural? with
      | none => rw [hs] at hm; cases hm
      | some e =>
        rw [hs] at hm
        rw [List.mem_singleton.mp hm]
        rintro _ ⟨⟩
    · exact Ran.forall_behind (ih hb) m hm
  | branch c yes no next ihy ihn ih =>
    intro x m hm
    obtain ⟨hb, hnext⟩ := Bool.or_eq_false_iff.mp hb
    obtain ⟨hyes, hno⟩ := Bool.or_eq_false_iff.mp hb
    rw [history] at hm
    split at hm
    · exact (List.mem_append.mp hm).elim (ihy hyes x m) (Ran.forall_behind (ih hnext) m)
    · exact (List.mem_append.mp hm).elim (ihn hno x m) (Ran.forall_behind (ih hnext) m)
  | autoClose res close next ih => intro x; exact ih hb _
  | deferClose close next ih => intro x; exact ih hb _
  | test name site body swallow next ih =>
    intro x m hm
    obtain ⟨rfl, hnext⟩ := Bool.or_eq_false_iff.mp hb
    rcases List.mem_append.mp hm with hm | hm
    · rw [List.mem_singleton.mp hm]
      rintro _ ⟨⟩
    · exact Ran.forall_behind (ih hnext) m hm
  | context name site inner swallow next ihi ih =>
    intro x m hm
    obtain ⟨hb, hnext⟩ := Bool.or_eq_false_iff.mp hb
    obtain ⟨rfl, hinner⟩ := Bool.or_eq_false_iff.mp hb
    rw [history] at hm
    split at hm
    · rcases List.mem_append.mp hm with hm | hm
      · rw [List.mem_singleton.mp hm]
        rintro _ ⟨⟩
      · exact Ran.forall_behind (ih hnext) m hm
    · rcases List.mem_append.mp hm with hm | hm
      · rcases List.mem_cons.mp hm with rfl | hm
        · rintro _ ⟨⟩
        · exact ihi hinner _ m ((List.mem_append.mp hm).resolve_right List.not_mem_nil)
      · exact Ran.forall_behind (ih hnext) m hm
  | pending name site swallow next ih =>
    intro x m hm
    obtain ⟨rfl, hnext⟩ := Bool.or_eq_false_iff.mp hb
    rcases List.mem_append.mp hm with hm | hm
    · rw [List.mem_singleton.mp hm]
      rintro _ ⟨⟩
    · exact Ran.forall_behind (ih hnext) m hm
  | afterSuite callback next ih => intro x; exact ih hb _
  | logCurrent next ih => intro x; exact ih hb _

theorem RootContext.forwards_of_not_swallows {r : RootContext} (hb : r.builder.swallows = false)
    (w : World) : r.Forwards w :=
  fun _ search v _ error he => r.builder.history_of_not_swallows _ hb (r.opened search v)
    _ he error rfl

/-! ### Listeners that do not panic during discovery -/

/-- A listener that does not panic at outcomes lets every test be cancelled. -/
theorem World.cancelAll_quiet (hs : List Handle) : ∀ {w : World},
    (∀ o, w.listener.panic? (.finished o) = none) → ∃ count, (w.cancelAll hs).1 = .ok count := by
  induction hs with
  | nil => intro w _; exact ⟨0, rfl⟩
  | cons h rest ih =>
    intro w hw
    obtain ⟨b, v, hc, hv⟩ : ∃ b v, w.cancel h = (.ok b, v) ∧ v.listener = w.listener := by
      rcases w.cancel_cases h with ⟨-, hc⟩ | ⟨unit, es, hu, hr⟩
      · exact ⟨_, _, hc, rfl⟩
      · refine ⟨true, (w.cancel h).2, Prod.ext ?_ rfl, hr.listener⟩
        have hl : ∀ n, (((w.setCell h.cell .cancelled).dropUnit unit).trace .debug "cancelled test"
            [("test", h.test.display)]).listener.panic? n = w.listener.panic? n := fun n =>
          congrArg (fun l : Listener => l.panic? n)
            (listener_dropUnit (w.setCell h.cell .cancelled) unit)
        rw [cancel, hu]
        dsimp only
        rw [notify, Notebook.notify, hl, hw]
    obtain ⟨count, hcount⟩ := ih (hv ▸ hw)
    rw [cancelAll, hc]
    dsimp only
    generalize v.cancelAll rest = d at hcount
    obtain ⟨_ | n, z⟩ := d
    · cases hcount
    · exact ⟨_, rfl⟩

/-- **With a listener that does not panic at outcomes, no panic leaves a discovery.** -/
theorem RootContext.discover_quiet {r : RootContext} {w : World}
    (hw : ∀ o, w.listener.panic? (.finished o) = none) : ∀ p, (r.discover w).1 ≠ .error p := by
  obtain ⟨n, search, v, hb, hend⟩ := r.discover_ends w
  obtain ⟨hadds, hdirect, -⟩ := hb.adds
  obtain ⟨hs, -, hpass, -⟩ := r.runPass_adds search v hdirect
  have he : ∀ o, (r.runPass search v).world.listener.panic? (.finished o) = none := by
    rw [hpass.listener, hadds.listener]
    exact hw
  have hfailed : ∀ {n failure search} {w : World}, (∀ o, w.listener.panic? (.finished o) = none) →
      ∀ p, (r.finishFailed n failure search w).1 ≠ .error p := by
    intro n failure search w hw p
    rw [finishFailed, World.completed_calm (hw _)]
    rintro ⟨⟩
  generalize r.discover w = a at hend
  intro p
  cases hend with
  | aborted hf =>
    obtain ⟨count, hcount⟩ := World.cancelAll_quiet (r.runPass search v).search.tests he
    rw [abort]
    generalize (r.runPass search v).world.cancelAll (r.runPass search v).search.tests = d at hcount
    obtain ⟨_ | n, z⟩ := d
    · cases hcount
    · rintro ⟨⟩
  | failedDirect hf hfailure hd =>
    obtain ⟨_, _, hr, -⟩ := (r.runPass search v).world.release_eq _
    exact hfailed (fun o => by rw [hr]; exact he o) p
  | failedSwept hf hfailure hd =>
    exact hfailed (w := ((r.runPass search v).world.closeShelf (r.runPass search v).shelf).2) he p
  | finished hf hfailure hl => rintro ⟨⟩

/-! ### Steps -/

namespace Session

/-- One step of a session. -/
inductive Step : Session → Session → Prop
  /-- The root is discovered, with a result or an error.  No builder discards a structural error,
  and the listener does not end the discovery with a panic. -/
  | discover {s : Session} (hk : s.root.Forwards s.drop.2.world)
      (hp : ∀ p, s.discover.1 ≠ .error p) : Step s s.discover.2
  /-- The result is let go of. -/
  | drop {s : Session} : Step s s.drop.2
  /-- Handles are started, waited for or cancelled, or the pool serves its queue. -/
  | use {s : Session} (u : Use) : Step s { s with world := s.world.use u }
  /-- The callbacks behind all tests are run. -/
  | afterSuite {s : Session} {d : Discovery} (hd : s.result = some d) :
      Step s { s with
        world := (d.runAfterSuite s.world).2.2, result := some (d.runAfterSuite s.world).2.1 }
  /-- A variable of the root is set. -/
  | set {s : Session} (name : String) (value : Int) :
      Step s { s with
        world := { s.world with book := s.world.book.setShared s.root.index name value } }

/-- Steps one after another. -/
abbrev Runs : Session → Session → Prop :=
  Relation.ReflTransGen Step

variable {s t : Session}

theorem root_drop (s : Session) : s.drop.2.root = s.root := by
  rw [drop]
  split <;> rfl

theorem discover_eq (s : Session) : s.discover.1 = (s.root.discover s.drop.2.world).1 ∧
    s.discover.2.world = (s.root.discover s.drop.2.world).2 ∧ s.discover.2.root = s.root := by
  rw [discover, s.root_drop]
  split
  · rename_i hd
    rw [hd]
    exact ⟨rfl, rfl, rfl⟩
  · rename_i hd
    rw [hd]
    exact ⟨rfl, rfl, rfl⟩

theorem Step.root (h : Step s t) : t.root = s.root := by
  cases h with
  | discover hk hp => exact s.discover_eq.2.2
  | drop => exact s.root_drop
  | use u => rfl
  | afterSuite hd => rfl
  | set name value => rfl

/-- Callbacks behind all tests register and close nothing. -/
theorem safely_runCallbacks (root : String) (cs : List Closure) : ∀ w : World,
    World.Safely none none w (Discovery.runCallbacks root cs w).2 := by
  induction cs with
  | nil => exact World.safely_refl
  | cons c rest ih =>
    intro w
    have hrun : World.Safely none none w
        { w with book := (c.script.run c.scope none w.book).state } :=
      World.safely_notes (c.script.run_notes _ _ _) rfl rfl rfl
    have htraced : ∀ z : World, ∀ message, World.Safely none none z
        (z.trace .warn message [("root", root)]) := fun z message =>
      World.safely_notes (Notebook.notes_of_eq rfl rfl) rfl rfl rfl
    rw [Discovery.runCallbacks]
    dsimp only
    split
    · exact hrun.trans (ih _)
    · exact (hrun.trans (htraced _ _)).trans (ih _)

theorem safely_drop (s : Session) : World.Safely none none s.world s.drop.2.world := by
  rw [drop]
  split
  · exact World.safely_refl _
  · exact World.safely_dropAll _ _

/-- **A step of a session keeps custody.** -/
theorem Step.safely (h : Step s t) : World.Safely none none s.world t.world := by
  cases h with
  | discover hk hp =>
    obtain ⟨hanswer, hworld, -⟩ := s.discover_eq
    rw [hanswer] at hp
    rw [hworld]
    exact s.safely_drop.trans (RootContext.discover_safely hk hp)
  | drop => exact s.safely_drop
  | use u => exact s.world.safely_use u
  | afterSuite hd => exact safely_runCallbacks _ _ _
  | set name value => exact World.safely_notes (Notebook.notes_of_eq rfl rfl) rfl rfl rfl

theorem Runs.safely (h : Runs s t) : World.Safely none none s.world t.world := by
  induction h with
  | refl => exact World.safely_refl _
  | tail _ hstep ih => exact ih.trans hstep.safely

theorem Runs.root (h : Runs s t) : t.root = s.root := by
  induction h with
  | refl => rfl
  | tail _ hstep ih => exact hstep.root.trans ih

end Session

/-! ### What becomes of callbacks -/

/-- What becomes of the callbacks that the pass of `r` registers which begins with `search` in `v`;
the discovery ends in `d`, and `w` is a later moment. -/
structure RootContext.Settles (r : RootContext) (search : Search) (v d w : World) : Prop where
  /-- The pass itself closes callbacks of contexts that fail, and leaves all others on its shelf,
  the latest first. -/
  stocked : ∃ es, v.book.Writes (r.runPass search v).world.book es ∧
    Stocked es ((r.runPass search v).world.shelf (r.runPass search v).shelf).serials ∧
    ((r.runPass search v).world.shelf (r.runPass search v).shelf).serials
      <+ (registeredIn es).reverse
  /-- Without a direct test the shelf is closed before another pass begins, and before the discovery
  ends. -/
  undirected : (r.runPass search v).direct = none →
    RootContext.Clears (r.runPass search v).shelf (r.runPass search v).world
        (r.behind (r.runPass search v)) ∧
      RootContext.Clears (r.runPass search v).shelf (r.runPass search v).world d
  /-- A direct test owns the shelf: it is closed when the unit of the test comes to its end. -/
  directed : ∀ h, (r.runPass search v).direct = some h → ∃ body es,
    let u : TestUnit := .direct h.test body ⟨r.index, v.book.invocations⟩ (r.runPass search v).shelf
    (r.runPass search v).world.cell h.cell = .suspended u ∧
      (r.runPass search v).world.book.Writes w.book es ∧
      (r.runPass search v).world.Course w h.cell u es

/-- **Every close callback is closed exactly once, and never before its owner is done.**  In a
session that began in a fresh world:

* what was registered was closed once, or waits on a shelf; when no unit is left, nothing waits;
* from any moment on, every unit that waits takes its course: what its pass left on its shelf is not
  closed before its script has ended, or it was cancelled, abandoned or dropped, and is then closed
  together with what the script registered, in reverse order of registration;
* every pass of every discovery leaves its callbacks to its direct test, or closes them. -/
theorem Session.callbacks_close_once {pool : Pool Nat} {l : Listener} {policy : StartPolicy}
    {r : RootContext} {t : Session} (h : Runs ⟨.fresh pool l policy, r, none⟩ t) :
    t.world.closings ++ t.world.pending ~ List.range t.world.book.serials ∧
    ((∀ i, (t.world.cell i).isSuspended = false) →
      t.world.closings ~ List.range t.world.book.serials) ∧
    ∀ m, Runs ⟨.fresh pool l policy, r, none⟩ m →
      (Runs m t → ∃ es, m.world.TakesCourse t.world es) ∧
      (r.Forwards m.drop.2.world → (∀ p, m.discover.1 ≠ .error p) → Runs m.discover.2 t →
        ∀ n search v, r.Begins m.drop.2.world n search v →
          r.Settles search v m.discover.2.world t.world) := by
  have hfresh : (World.fresh pool l policy).Custody none := World.custody_fresh pool l policy
  have hend := (h.safely hfresh).2
  refine ⟨hend.accounted, fun hdone => ?_, fun m hm => ?_⟩
  · have hall := hend.accounted
    rwa [World.Accounted, hend.pending_eq_nil hdone, List.append_nil] at hall
  · have hcustody := (hm.safely hfresh).2
    refine ⟨fun hmt => (hmt.safely hcustody).1, fun hk hp hmt n search v hb => ?_⟩
    obtain ⟨hanswer, hworld, -⟩ := m.discover_eq
    have hroot : m.root = r := hm.root
    rw [hroot] at hanswer hworld
    rw [hanswer] at hp
    have hdropped := (m.safely_drop hcustody).2
    obtain ⟨hs, cs, es, hy⟩ := r.runPass_yields search v hb.adds.2.1
    have hv := (RootContext.begins_safely hk hb hdropped).2
    have hpass := (hy.safely (hk n search v hb) hv).2
    refine ⟨⟨es, hy.writes, hy.stocked, hy.stocked.sublist⟩, fun hd => ?_, fun d hd => ?_⟩
    · rw [hworld]
      exact RootContext.undirected_clears hk hb hdropped hp hd
    · rcases hy.direct with ⟨hnone, -⟩ | ⟨d', body, -, hsome, hcell⟩
      · rw [hnone] at hd
        cases hd
      · rw [hsome] at hd
        cases hd
        -- from the end of the pass to the end of the discovery, and on to the later moment
        have hway := (RootContext.pass_safely hk hb hdropped hp).trans (hworld ▸ hmt.safely)
        obtain ⟨⟨fs, hfs⟩, -⟩ := hway hpass
        exact ⟨body, fs, hcell, hfs.writes, hfs.course _ _ hcell⟩

/-! ### A session in which the listener panics -/

/-- A root that registers a callback, with a context whose test registers another one. -/
def closingRoot : RootContext :=
  ⟨0, "root", false, .site 0,
    .deferClose .done <| .context "a" (.site 1)
      (.deferClose .done <| .test "x" (.site 2) (.deferClose .done .done) false .done) false <|
      .test "y" (.site 3) .done false .done⟩

/-- Both tests are discovered and waited for; the listener panics when the first one starts. -/
def closingSession : Session :=
  let s : Session :=
    ⟨.fresh (.held 1) (.recorder (some ⟨.started, "x", .fixed "no"⟩)) .lazy, closingRoot, none⟩
  let d := s.discover.2
  { d with world := (d.world.use (.wait ⟨default, 0⟩)).use (.wait ⟨default, 1⟩) }

/-- The first test is abandoned and the second one replayed; both close what they own. -/
theorem callbacks_close_once_closingSession :
    closingSession.world.closings = [1, 0, 2] ∧
      closingSession.world.closings ~ List.range closingSession.world.book.serials := by
  have hruns : Session.Runs ⟨.fresh (.held 1) (.recorder (some ⟨.started, "x", .fixed "no"⟩)) .lazy,
      closingRoot, none⟩ closingSession := by
    have hp := closingRoot.discover_quiet
      (w := .fresh (.held 1) (.recorder (some ⟨.started, "x", .fixed "no"⟩)) .lazy) fun _ => rfl
    refine .tail (.tail (.single (.discover ?_ fun p => ?_)) (.use (.wait ⟨default, 0⟩)))
      (.use (.wait ⟨default, 1⟩))
    · exact RootContext.forwards_of_not_swallows rfl _
    · rw [(Session.discover_eq _).1]
      exact hp p
  have hcells : closingSession.world.cells = [.abandoned, .done ⟨_, .success 0⟩] := rfl
  refine ⟨rfl, (Session.callbacks_close_once hruns).2.1 fun i => ?_⟩
  rw [World.cell, hcells]
  rcases i with _ | _ | i <;> rfl

end TestTree

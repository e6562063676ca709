/-
Discovery of all roots of a suite.

* `Suite.Discovers` : the roots are discovered one after another, whatever becomes of them;
* `Suite.discovers_gathers` : all discoveries together gather the handles of all roots;
* `Suite.find_of_ok`, `find_of_error` : what a suite finds, by what its roots give;
* `Suite.rebuild` : the suite with other builders for its disabled roots;
* `Suite.find_all_or_nothing` : **a suite finds the tests of all roots, or leaves nothing behind.**

## Design notes

The later roots are still discovered when one is wrong, and what they have made is cancelled too, so
that the error is the first one in the order of declaration.
-/
import TestTree.Proofs.AfterSuite
import TestTree.Proofs.Gathering
import TestTree.Suite.Basic

namespace TestTree

open scoped List

/-! ### Lists of results -/

section Results

variable {ε α : Type}

/-- Among several results all are good, or there is a first error. -/
theorem all_ok_or_first_error (rs : List (Except ε α)) : (∃ as : List α, rs = as.map .ok) ∨
    ∃ (as : List α) (e : ε) (later : List (Except ε α)), rs = as.map .ok ++ .error e :: later := by
  induction rs with
  | nil => exact .inl ⟨[], rfl⟩
  | cons r rest ih =>
    cases r with
    | error e => exact .inr ⟨[], e, rest, rfl⟩
    | ok a =>
      rcases ih with ⟨as, rfl⟩ | ⟨as, e, later, rfl⟩
      · exact .inl ⟨a :: as, rfl⟩
      · exact .inr ⟨a :: as, e, later, rfl⟩

theorem filterMap_map_ok (as : List α) :
    (as.map .ok : List (Except ε α)).filterMap Except.toOption = as := by
  rw [List.filterMap_map]
  exact List.filterMap_some

end Results

/-! ### Handles that are let go of -/

namespace World

variable {w z : World} {hs ks : List Handle} {h : Handle}

/-- A handle that is not suspended is let go of without a trace. -/
theorem drop_of_final (hh : (w.cell h.cell).isSuspended = false) : w.drop h = w := by
  rw [drop]
  split
  · rfl
  · cases hc : w.cell h.cell with
    | suspended u =>
      rw [hc] at hh
      cases hh
    | _ => rfl

theorem dropAll_of_final (hs : List Handle) :
    (∀ h ∈ hs, (w.cell h.cell).isSuspended = false) → w.dropAll hs = w := by
  induction hs with
  | nil => intro _; rfl
  | cons h rest ih =>
    intro hall
    show (w.drop h).dropAll rest = w
    rw [drop_of_final (hall h List.mem_cons_self)]
    exact ih fun k hk => hall k (List.mem_cons_of_mem _ hk)

theorem dropResults_of_final (ds : List Discovery) :
    (∀ h ∈ ds.flatMap Discovery.tests, (w.cell h.cell).isSuspended = false) →
    w.dropResults ds = w := by
  induction ds with
  | nil => intro _; rfl
  | cons d rest ih =>
    intro hall
    rw [List.flatMap_cons] at hall
    show (w.dropAll d.tests).dropResults rest = w
    rw [dropAll_of_final _ fun h hh => hall h (List.mem_append_left _ hh)]
    exact ih fun h hh => hall h (List.mem_append_right _ hh)

/-- Tests that are cancelled in one go can be cancelled in two. -/
theorem cancelAll_append (ks : List Handle) : ∀ {w : World} {count : Nat},
    w.cancelAll (hs ++ ks) = (.ok count, z) →
    ∃ m n v, w.cancelAll hs = (.ok m, v) ∧ v.cancelAll ks = (.ok n, z) := by
  induction hs with
  | nil => intro w count h; exact ⟨0, count, w, rfl, h⟩
  | cons h rest ih =>
    intro w count hall
    rw [List.cons_append, cancelAll] at hall
    rw [cancelAll]
    generalize w.cancel h = c at hall ⊢
    obtain ⟨p | b, u⟩ := c
    · cases hall
    · dsimp only at hall ⊢
      cases hrest : u.cancelAll (rest ++ ks) with
      | mk r x =>
        rw [hrest] at hall
        cases r with
        | error p => cases hall
        | ok k =>
          obtain rfl : x = z := congrArg Prod.snd hall
          obtain ⟨m, n, v, hm, hn⟩ := ih hrest
          rw [hm]
          exact ⟨_, n, v, rfl, hn⟩

/-! ### Builders that are entered -/

theorem entrances_cancelAll (w : World) (hs : List Handle) :
    (w.cancelAll hs).2.book.entrances = w.book.entrances := by
  refine cancelAll_rel (R := fun v w => w.book.entrances = v.book.entrances) (fun _ => rfl)
    (fun h k => k.trans h) (fun h _ w => ?_) w
  by_cases hu : ∃ unit, w.cell h.cell = .suspended unit
  · obtain ⟨unit, hu⟩ := hu
    have hdropped : (((w.setCell h.cell .cancelled).dropUnit unit).trace .debug "cancelled test"
        [("test", h.test.display)]).book.entrances = w.book.entrances :=
      Notebook.entrances_of_deeds ((w.setCell h.cell .cancelled).deeds_dropUnit unit)
    rw [cancel_eq hu]
    exact (Notebook.entrances_add _ _).trans hdropped
  · rw [cancel_of_ne fun unit h => hu ⟨unit, h⟩]

/-- Between `v` and `w` only builders were entered whose roots have numbers in `roots`. -/
def Enters (v w : World) (roots : List Nat) : Prop :=
  ∃ ts, w.book.entrances = ts ++ v.book.entrances ∧ ∀ t ∈ ts, t.1 ∈ roots

theorem enters_of_eq {v : World} (h : w.book.entrances = v.book.entrances) (roots : List Nat) :
    v.Enters w roots :=
  ⟨[], h, nofun⟩

theorem Enters.trans {u v : World} {roots more : List Nat} (h : u.Enters v roots)
    (k : v.Enters w more) : u.Enters w (roots ++ more) := by
  obtain ⟨ts, hv, hts⟩ := h
  obtain ⟨us, hw, hus⟩ := k
  refine ⟨us ++ ts, by rw [hw, hv, List.append_assoc], fun t ht => ?_⟩
  rcases List.mem_append.mp ht with ht | ht
  · exact List.mem_append_right _ (hus t ht)
  · exact List.mem_append_left _ (hts t ht)

end World

namespace RootContext

variable {r : RootContext} {w : World} {e : PassEnd} {n : Nat}

/-- Behind the last pass of a discovery no builder is entered. -/
theorem Ends.entrances {a : Except Payload (Except StructuralError Discovery) × World}
    (h : r.Ends n e a) (he : e.world.listener.Calm) :
    a.2.book.entrances = e.world.book.entrances := by
  have hfailed : ∀ {w : World} {f : Failure}, w.listener.Calm →
      (r.finishFailed n f e.search w).2.book.entrances = w.book.entrances := by
    intro w f hw
    have hown := w.entrances_completed ⟨⟨r.context, r.name, r.location⟩, .failed f⟩
    rw [World.completed_calm (hw _)] at hown
    rw [finishFailed, World.completed_calm (hw _)]
    exact (Notebook.entrances_add _ _).trans hown
  cases h with
  | aborted hf =>
    have hcancelled := e.world.entrances_cancelAll e.search.tests
    obtain ⟨count, v, hc⟩ := World.cancelAll_calm e.search.tests he
    rw [hc] at hcancelled
    rw [abort, hc]
    exact (Notebook.entrances_add _ _).trans ((v.entrances_closeWarning _ _ _).trans hcancelled)
  | @failedDirect f h _ _ _ =>
    obtain ⟨_, _, hr, -⟩ := e.world.release_eq h
    rw [hfailed (by rw [hr]; exact he), World.entrances_release]
  | failedSwept =>
    exact (hfailed (w := (e.world.closeShelf e.shelf).2) he).trans (Notebook.entrances_sweep _ _)
  | finished => exact (Notebook.entrances_add _ _).trans (r.entrances_behind e)

/-- **A discovery enters builders of its own root only.** -/
theorem discover_enters (r : RootContext) (hw : w.listener.Calm) :
    w.Enters (r.discover w).2 [r.index] := by
  obtain ⟨n, search, v, hb, hend⟩ := r.discover_ends w
  obtain ⟨hadds, hdirect, -⟩ := hb.adds
  obtain ⟨hs, -, hpass, -⟩ := r.runPass_adds search v hdirect
  have hcalm : (r.runPass search v).world.listener.Calm := by
    rw [hpass.listener, hadds.listener]
    exact hw
  refine ⟨Footstep.entrances r.index (r.walk n {} w ++ r.footsteps search v), ?_, fun t ht => ?_⟩
  · rw [hend.entrances hcalm, entrances_runPass, hb.entrances, Footstep.entrances_append,
      List.append_assoc]
  · rw [Footstep.entrances, List.mem_reverse] at ht
    obtain ⟨path, -, rfl⟩ := List.mem_map.mp ht
    exact List.mem_singleton.mpr rfl

end RootContext

/-! ### All roots -/

namespace Suite

variable {s : Suite} {rs : List RootContext} {w v z : World}
  {found : List (Except StructuralError Discovery)} {ds : List Discovery}

/-- The roots are discovered one after another, each in the world that the one before it left. -/
inductive Discovers : List RootContext → World → List (Except StructuralError Discovery) → World →
    Prop
  | nil (w : World) : Discovers [] w [] w
  | cons {r : RootContext} {rest : List RootContext} {w v z : World}
      {first : Except StructuralError Discovery} {more : List (Except StructuralError Discovery)}
      (hd : r.discover w = (.ok first, v)) (h : Discovers rest v more z) :
      Discovers (r :: rest) w (first :: more) z

theorem Discovers.discoverEach_eq (h : Discovers rs w found v) :
    discoverEach rs w = (found.map .ok, v) := by
  induction h with
  | nil w => rfl
  | cons hd _ ih => rw [discoverEach, hd]; dsimp only; rw [ih]; rfl

/-- **All discoveries together gather the handles of all roots.**  Suspended are at most the handles of
the results. -/
theorem discovers_gathers (rs : List RootContext) : ∀ {w : World}, w.listener.Calm →
    ∃ found v hs es, Discovers rs w found v ∧ w.Enters v (rs.map RootContext.index) ∧
      w.Gathers v none hs ((found.filterMap Except.toOption).flatMap Discovery.tests) es ∧
      ∀ ds : List Discovery, found = ds.map .ok → hs = ds.flatMap Discovery.tests := by
  induction rs with
  | nil =>
    intro w _
    refine ⟨[], w, [], [], .nil w, World.enters_of_eq rfl _, w.collects_nil.gathers,
      fun ds hds => ?_⟩
    rw [List.map_eq_nil_iff.mp hds.symm]
    rfl
  | cons r rest ih =>
    intro w hw
    obtain ⟨hs, live, es, hg, hcases⟩ := r.discover_gathers hw
    have henters := r.discover_enters hw
    rcases hd : r.discover w with ⟨res, u⟩
    rw [hd] at hg hcases henters
    obtain ⟨found, v, ks, fs, hmore, hlater, kg, hall⟩ := ih (hg.listener ▸ hw)
    rcases hcases with ⟨d, hok, rfl, rfl⟩ | ⟨⟨error, herror⟩, rfl⟩
    · cases hok
      refine ⟨.ok d :: found, v, _, _, .cons hd hmore, henters.trans hlater, hg.trans kg,
        fun ds hds => ?_⟩
      cases ds with
      | nil => cases hds
      | cons k ds =>
        obtain ⟨hk, hrest⟩ := List.cons.inj hds
        cases hk
        rw [hall ds hrest]
        rfl
    · cases herror
      refine ⟨.error error :: found, v, _, _, .cons hd hmore, henters.trans hlater, hg.trans kg,
        fun ds hds => ?_⟩
      cases ds with
      | nil => cases hds
      | cons k ds => cases (List.cons.inj hds).1

theorem skipDisabled_rests (s : Suite) (w : World) : w.Rests (s.skipDisabled w) := by
  have hall : ∀ (rs : List RootContext) (w : World), w.Rests (rs.foldl (fun w r =>
      w.trace .info "skipping disabled root context" [("root", r.name)]) w) := by
    intro rs
    induction rs with
    | nil => intro w; exact ⟨rfl, rfl, rfl, rfl, rfl, rfl, rfl⟩
    | cons r rest ih =>
      intro w
      have htrace : w.Rests (w.trace .info "skipping disabled root context" [("root", r.name)]) :=
        ⟨rfl, rfl, rfl, rfl, rfl, rfl, rfl⟩
      exact htrace.trans (ih _)
  exact hall _ w

/-- Several results whose tests can all be cancelled in one go. -/
theorem cancelResults_eq : ∀ (ds : List Discovery) {w : World} {count : Nat},
    w.cancelAll (ds.flatMap Discovery.tests) = (.ok count, z) → cancelResults ds w = (none, z) := by
  intro ds
  induction ds with
  | nil =>
    intro w count h
    obtain rfl : w = z := congrArg Prod.snd h
    rfl
  | cons d rest ih =>
    intro w count h
    rw [List.flatMap_cons] at h
    obtain ⟨m, n, v, hfirst, hrest⟩ := World.cancelAll_append _ h
    rw [cancelResults, hfirst]
    exact ih hrest

/-! ### What a suite finds -/

section Results

variable (found : List (Except StructuralError Discovery))

theorem results_map_ok : results (found.map .ok) = found.filterMap Except.toOption := by
  rw [results, List.filterMap_map]
  refine List.filterMap_congr fun f _ => ?_
  cases f with
  | error e => rfl
  | ok d => rfl

theorem firstPanic?_map_ok : firstPanic? (found.map .ok) = none :=
  List.findSome?_eq_none_iff.mpr fun f hf => by
    obtain ⟨g, -, rfl⟩ := List.mem_map.mp hf
    rfl

end Results

theorem firstError?_results (ds : List Discovery) :
    firstError? ((ds.map Except.ok).map .ok) = none :=
  List.findSome?_eq_none_iff.mpr fun f hf => by
    obtain ⟨g, hg, rfl⟩ := List.mem_map.mp hf
    obtain ⟨d, -, rfl⟩ := List.mem_map.mp hg
    rfl

theorem firstError?_error (ds : List Discovery) (e : StructuralError)
    (later : List (Except StructuralError Discovery)) :
    firstError? ((ds.map Except.ok ++ Except.error e :: later).map .ok) = some e := by
  have hfirst := firstError?_results ds
  rw [firstError?] at hfirst
  rw [firstError?, List.map_append, List.findSome?_append, hfirst]
  rfl

/-- Without an error nothing but the results is found. -/
theorem settle_of_ok (ds : List Discovery) (w : World) :
    settle ((ds.map Except.ok).map .ok) w = (.ok (.ok ds), w) := by
  rw [settle, firstPanic?_map_ok, firstError?_results, results_map_ok, filterMap_map_ok]

/-- Without an error a suite finds what its roots give. -/
theorem find_of_ok (h : Discovers s.enabled (s.skipDisabled w) (ds.map .ok) v) :
    s.find w = (.ok (.ok ds), v) := by
  rw [find, h.discoverEach_eq]
  exact settle_of_ok ds v

/-- With an error a suite finds the first one, and all tests are cancelled. -/
theorem find_of_error {e : StructuralError} {later : List (Except StructuralError Discovery)}
    {live : List Handle} {count : Nat} (hf : found = ds.map .ok ++ .error e :: later)
    (h : Discovers s.enabled (s.skipDisabled w) found v)
    (hlive : live = (found.filterMap Except.toOption).flatMap Discovery.tests)
    (hc : v.cancelAll live = (.ok count, z))
    (hz : ∀ h ∈ live, (z.cell h.cell).isSuspended = false) :
    s.find w = (.ok (.error e), z) := by
  rw [hlive] at hc hz
  rw [find, h.discoverEach_eq]
  dsimp only
  rw [settle, firstPanic?_map_ok, results_map_ok, hf, firstError?_error, ← hf]
  dsimp only
  rw [cancelResults_eq _ hc]
  dsimp only
  rw [World.dropResults_of_final _ hz]

/-! ### Disabled roots -/

/-- The suite with other builders for its disabled roots. -/
def rebuild (s : Suite) (builder : RootContext → Builder) : Suite :=
  { s with roots := s.roots.map fun r => if r.disabled then { r with builder := builder r } else r }

theorem enabled_rebuild (s : Suite) (builder : RootContext → Builder) :
    (s.rebuild builder).enabled = s.enabled := by
  obtain ⟨roots, settings⟩ := s
  show (roots.map _).filter _ = roots.filter _
  induction roots with
  | nil => rfl
  | cons r rest ih =>
    cases hr : r.disabled with
    | true => simp [hr, ih]
    | false => simp [hr, ih]

theorem skipDisabled_rebuild (s : Suite) (builder : RootContext → Builder) (w : World) :
    (s.rebuild builder).skipDisabled w = s.skipDisabled w := by
  obtain ⟨roots, settings⟩ := s
  show ((roots.map _).filter _).foldl _ w = (roots.filter _).foldl _ w
  induction roots generalizing w with
  | nil => rfl
  | cons r rest ih =>
    cases hr : r.disabled with
    | true => simp [hr, ih]
    | false => simp [hr, ih]

/-- **No builder of a disabled root has a say in what a suite finds.** -/
theorem find_rebuild (s : Suite) (builder : RootContext → Builder) (w : World) :
    (s.rebuild builder).find w = s.find w := by
  rw [find, find, enabled_rebuild, skipDisabled_rebuild]

/-! ### All or nothing -/

/-- **A suite finds the tests of all roots, or leaves nothing behind.**  If the listener does not
panic, every root that is not disabled is discovered, whatever becomes of the others, and

* there are results exactly if all roots give results; they are these, in the order of the roots;
* there is an error exactly if some root gives one; it is the one of the first such root in the order
  of declaration.  Then nothing is left to be done of what all roots have made: no handle is
  suspended, no body was run and none can be, what was registered was closed once, and the listener
  was told once of every handle;
* only builders of roots that are not disabled were entered, and other builders of disabled roots
  change nothing. -/
theorem find_all_or_nothing (s : Suite) (hw : w.listener.Calm) : ∃ found v,
    Discovers s.enabled (s.skipDisabled w) found v ∧
    (∀ ds : List Discovery, s.find w = (.ok (.ok ds), v) ↔ found = ds.map .ok) ∧
    ((∃ ds, (s.find w).1 = .ok (.ok ds)) ↔ ∀ f ∈ found, ∃ d, f = .ok d) ∧
    (∀ e, (s.find w).1 = .ok (.error e) ↔
      ∃ (ds : List Discovery) (later : List (Except StructuralError Discovery)),
        found = ds.map .ok ++ .error e :: later) ∧
    (∀ e, (s.find w).1 = .ok (.error e) → ∃ hs es, w.Spent (s.find w).2 hs es ∧
      ∀ d, .ok d ∈ found → d.tests ⊆ hs) ∧
    w.Enters (s.find w).2 (s.enabled.map RootContext.index) ∧
    ∀ builder, (s.rebuild builder).find w = s.find w := by
  have hskip := s.skipDisabled_rests w
  obtain ⟨found, v, hs, es, hd, henters, hg, -⟩ :=
    discovers_gathers s.enabled (w := s.skipDisabled w) (hskip.listener ▸ hw)
  let live := (found.filterMap Except.toOption).flatMap Discovery.tests
  have hall : w.Gathers v none hs live es := (World.gathers_rests hskip).trans hg
  have hentered : w.Enters v (s.enabled.map RootContext.index) :=
    (World.enters_of_eq (Notebook.entrances_of_acts hskip.acts) []).trans henters
  have hgood : ∀ {ds : List Discovery}, ∀ f ∈ (ds.map .ok : List (Except StructuralError Discovery)),
      ∃ d, f = .ok d := by
    intro ds f hf
    obtain ⟨d, -, rfl⟩ := List.mem_map.mp hf
    exact ⟨d, rfl⟩
  have hwrong : ∀ {ds : List Discovery} {e : StructuralError}
      {later : List (Except StructuralError Discovery)},
      ¬ ∀ f ∈ ds.map .ok ++ .error e :: later, ∃ d, f = .ok d := by
    intro ds e later h
    obtain ⟨d, hok⟩ := h (.error e) (List.mem_append_right _ List.mem_cons_self)
    cases hok
  refine ⟨found, v, hd, ?_⟩
  rcases all_ok_or_first_error found with ⟨ds, rfl⟩ | ⟨ds, e, later, hf⟩
  · rw [find_of_ok hd]
    refine ⟨fun ks => ⟨fun h => ?_, fun h => ?_⟩, ⟨fun _ => hgood, fun _ => ⟨ds, rfl⟩⟩,
      fun e => ⟨nofun, fun ⟨ks, later, h⟩ => ?_⟩, nofun, hentered, fun b => ?_⟩
    · cases h
      rfl
    · rw [List.map_injective_iff.mpr (fun _ _ => Except.ok.inj) h]
    · exact absurd (h ▸ hgood) hwrong
    · rw [find_rebuild, find_of_ok hd]
  · obtain ⟨count, z, fs, hc, hl, -, hcancelled⟩ := hall.cancelAll hw
    have hfinal : ∀ h ∈ live, (z.cell h.cell).isSuspended = false := fun h hh =>
      hcancelled.final (hall.lt (hall.part.subset hh)).1
    have hfind := find_of_error hf hd rfl hc hfinal
    have hz := v.entrances_cancelAll live
    rw [hc] at hz
    rw [hfind]
    refine ⟨fun ks => ⟨nofun, fun h => ?_⟩, ⟨nofun, fun h => ?_⟩, fun e' => ⟨fun h => ?_, fun h => ?_⟩,
      fun _ _ => ⟨_, _, hcancelled.spent, fun d hd' => ?_⟩, ?_, fun b => ?_⟩
    · exact absurd (hf ▸ h ▸ hgood) hwrong
    · exact absurd (hf ▸ h) hwrong
    · cases h
      exact ⟨ds, later, hf⟩
    · obtain ⟨ks, others, h⟩ := h
      have hfirst := firstError?_error ds e later
      rw [← hf, h, firstError?_error] at hfirst
      rw [Option.some.inj hfirst]
    · intro h hh
      refine hall.part.subset (List.mem_flatMap.mpr ⟨d, ?_, hh⟩)
      exact List.mem_filterMap.mpr ⟨.ok d, hd', rfl⟩
    · have h := hentered.trans (World.enters_of_eq hz [])
      rwa [List.append_nil] at h
    · rw [find_rebuild, hfind]

end Suite

/-- A suite whose second root is disabled, and whose third and fourth roots declare a name twice.  The
first one has a callback that waits behind its test. -/
def mixedSuite : Suite :=
  { roots := [
      ⟨0, "root", false, .site 0,
        .deferClose .done <| .test "a" (.site 1) .done false <| .pending "p" (.site 2) false .done⟩,
      ⟨1, "root", true, .site 3, .test "b" (.site 4) .done false .done⟩,
      ⟨2, "wrong", false, .site 5,
        .test "x" (.site 6) .done false <| .test "x" (.site 7) .done false .done⟩,
      ⟨3, "later", false, .site 8,
        .deferClose .done <| .test "y" (.site 9) .done false <| .test "y" (.site 10) .done false
          .done⟩] }

/-- The error is the one of the third root.  Four handles are made, the two callbacks closed, and three
builders entered. -/
theorem find_all_or_nothing_mixedSuite :
    (mixedSuite.find (.fresh (.held 1) .silent .eager)).1
        = .ok (.error (.duplicateName "x" "wrong")) ∧
      (∃ hs es, World.Spent (.fresh (.held 1) .silent .eager)
          (mixedSuite.find (.fresh (.held 1) .silent .eager)).2 hs es ∧
        hs.length = 4 ∧ closedIn es = [1, 0]) ∧
      (mixedSuite.find (.fresh (.held 1) .silent .eager)).2.book.entrances
        = [(3, ["later"]), (2, ["wrong"]), (0, ["root"])] := by
  have herror : (mixedSuite.find (.fresh (.held 1) .silent .eager)).1
      = .ok (.error (.duplicateName "x" "wrong")) := rfl
  obtain ⟨found, v, -, -, -, -, hspent, -⟩ :=
    mixedSuite.find_all_or_nothing (w := .fresh (.held 1) .silent .eager) fun _ => rfl
  obtain ⟨hs, es, h, -⟩ := hspent _ herror
  refine ⟨herror, ⟨hs, es, h, ?_, ?_⟩, rfl⟩
  · have hlength :
        (mixedSuite.find (.fresh (.held 1) .silent .eager)).2.cells.length = 4 := rfl
    have hall := h.length
    rw [hlength] at hall
    exact (hall.trans (Nat.zero_add _)).symm
  · have hclosings :
        (mixedSuite.find (.fresh (.held 1) .silent .eager)).2.closings = [1, 0] := rfl
    exact (World.closings_of_writes h.writes).symm.trans hclosings

end TestTree

/-
Tests of a local root do not interfere.

* `World.Apart` : units of different handles have different shelves and different paths;
* `World.Fate` : what has become of a handle: its unit still finds what it would have found at
  once, or it has ended as it would have ended at once;
* `World.Separate` : every handle has such a fate; every move keeps this;
* `RootContext.outcomes_independent` : **two runs agree on every test that is executed in both**.
-/
import TestTree.Proofs.BodiesOnce
import TestTree.Proofs.DiscoveryAlike
import TestTree.Proofs.Ownership
import TestTree.Proofs.UnitRuns

namespace TestTree

namespace World

/-! ### Handles that stand apart -/

/-- Units of different handles own different shelves and belong to tests of different paths. -/
structure Apart (r : RootContext) (hs : List Handle) (w : World) : Prop where
  calm : w.listener.Calm
  unset : ∀ k, w.book.invocations ≤ k → ∀ name, w.book.locals k name = 0
  test : ∀ h ∈ hs, ∀ u, w.cell h.cell = .suspended u → u.test = h.test
  differ : ∀ h ∈ hs, ∀ k ∈ hs, ∀ u u', k.cell ≠ h.cell → w.cell h.cell = .suspended u →
    w.cell k.cell = .suspended u' → u'.test.path ≠ u.test.path ∧
      ∀ i, u'.shelf? = some i → u.shelf? ≠ some i

/-- What has become in `w` of a handle of `v`. -/
inductive Fate (r : RootContext) (v w : World) (h : Handle) : Prop
  /-- There never was a unit. -/
  | still (hn : ∀ u, v.cell h.cell ≠ .suspended u) (hc : w.cell h.cell = v.cell h.cell)
  | waits {u : TestUnit} (hv : v.cell h.cell = .suspended u) (hc : w.cell h.cell = .suspended u)
      (hr : FindsSame r v w u)
  | cancelled {u : TestUnit} (hv : v.cell h.cell = .suspended u) (hc : w.cell h.cell = .cancelled)
  | ran {u : TestUnit} {res : TestResult} {es : List Event} (hv : v.cell h.cell = .suspended u)
      (hc : w.cell h.cell = .done ⟨u.test, res⟩) (ht : v.Tells u res es)
      (ha : w.book.account u.test.path = es.reverse)

/-- No handle of `v` has interfered with another one on the way to `w`. -/
structure Separate (r : RootContext) (hs : List Handle) (v w : World) : Prop where
  calm : w.listener.Calm
  unset : ∀ k, w.book.invocations ≤ k → ∀ name, w.book.locals k name = 0
  fates : ∀ h ∈ hs, Fate r v w h

variable {r : RootContext} {hs : List Handle} {v w z : World} {u : TestUnit} {h k : Handle}

theorem Fate.waiting (hf : Fate r v w h) (hu : w.cell h.cell = .suspended u) :
    v.cell h.cell = .suspended u ∧ FindsSame r v w u := by
  cases hf with
  | still hn hc => exact absurd (hc.symm.trans hu) (hn u)
  | waits hv hc hr =>
    rw [hc] at hu
    cases hu
    exact ⟨hv, hr⟩
  | cancelled hv hc =>
    rw [hc] at hu
    cases hu
  | ran hv hc ht ha =>
    rw [hc] at hu
    cases hu

/-- The fate of a handle does not change while the unit of another one runs or is dropped. -/
theorem Fate.keep (hf : Fate r v w k) (hl : UsesUnit u w z) (hc : z.cell k.cell = w.cell k.cell)
    (hz : z.book.locals z.book.invocations = v.book.locals v.book.invocations)
    (hd : ∀ u', v.cell k.cell = .suspended u' → u'.test.path ≠ u.test.path ∧
      ∀ i, u'.shelf? = some i → u.shelf? ≠ some i) : Fate r v z k := by
  cases hf with
  | still hn hw => exact .still hn (hc.trans hw)
  | waits hv hw hr => exact .waits hv (hc.trans hw) (hr.keep hl (hd _ hv).2 hz)
  | cancelled hv hw => exact .cancelled hv (hc.trans hw)
  | ran hv hw ht ha =>
    obtain ⟨es, hes, hrecord⟩ := hl.record
    refine .ran hv (hc.trans hw) ht ?_
    rw [Notebook.account_eq hrecord (hes _ (hd _ hv).1)]
    exact ha

/-- Variables of later invocations stay unset while a unit runs or is dropped. -/
theorem FindsSame.unset (hr : FindsSame r v w u) (hl : UsesUnit u w z)
    (hw : ∀ k, w.book.invocations ≤ k → ∀ name, w.book.locals k name = 0) :
    ∀ k, z.book.invocations ≤ k → ∀ name, z.book.locals k name = 0 := by
  intro k hk name
  have hinv := hl.invocations
  have hne : u.shelf? ≠ some k := by
    intro hu
    cases hr with
    | direct hb hv hw hi hl' hs =>
      cases hu
      omega
    | replayed hb hl' => cases hu
  rw [(hl.others k hne (.inr hk)).2]
  exact hw k (hinv.trans hk) name

/-- The unit of the handle `h` has run or was dropped: all other handles keep their fates. -/
theorem Separate.other (hA : v.Apart r hs) (hw : Separate r hs v w) (hh : h ∈ hs)
    (hu : w.cell h.cell = .suspended u) (hl : UsesUnit u w z) (hz : z.listener = w.listener)
    (hcells : ∀ j, j ≠ h.cell → z.cell j = w.cell j)
    (hself : ∀ k, k.cell = h.cell → Fate r v z k) : Separate r hs v z := by
  obtain ⟨hv, hr⟩ := (hw.fates h hh).waiting hu
  have hunset := hr.unset hl hw.unset
  refine ⟨?_, hunset, fun k hk => ?_⟩
  · rw [hz]
    exact hw.calm
  · by_cases hkh : k.cell = h.cell
    · exact hself k hkh
    · refine (hw.fates k hk).keep hl (hcells _ hkh) ?_ fun u' hu' =>
        hA.differ h hh k hk u u' hkh hv hu'
      -- a replay that is still to come begins an invocation of its own, in `z` as in `v`
      funext name
      rw [hunset _ (Nat.le_refl _), hA.unset _ (Nat.le_refl _)]

/-- **A unit that runs ends as it would have ended at once.** -/
theorem Separate.run (hA : v.Apart r hs) (hw : Separate r hs v w) (hh : h ∈ hs) :
    Separate r hs v (w.runCell h.cell).2 := by
  by_cases hu : ∃ u, w.cell h.cell = .suspended u
  · obtain ⟨u, hu⟩ := hu
    obtain ⟨hv, hr⟩ := (hw.fates h hh).waiting hu
    -- it finds in `w` what it would have found in `v`, and so it ends as it would have there
    have hr' : FindsSame r v (w.begun h.cell u) u := hr.congr rfl rfl rfl
    have hcalm : (w.begun h.cell u).listener.Calm := hw.calm
    obtain ⟨res, es, htv, htw⟩ := hr'.tells hA.calm hcalm
    have hrun : (w.begun h.cell u).runUnit u = (.ok res, ((w.begun h.cell u).runUnit u).2) :=
      Prod.ext htw.result rfl
    rw [runCell_suspended hw.calm hu hrun]
    have hbegun : UsesUnit u w (w.begun h.cell u) := usesUnit_add w (fun _ _ => rfl) _
    have hended : UsesUnit u ((w.begun h.cell u).runUnit u).2
        (((w.begun h.cell u).runUnit u).2.ended h.cell ⟨u.test, res⟩) := by
      refine usesUnit_add _ (fun path hp => ?_) _
      simpa [Event.finishes] using Ne.symm hp
    have hself : (((w.begun h.cell u).runUnit u).2.ended h.cell ⟨u.test, res⟩).cell h.cell
        = .done ⟨u.test, res⟩ := cell_ended_self hu hrun
    have haccount : (((w.begun h.cell u).runUnit u).2.ended h.cell ⟨u.test, res⟩).book.account
        u.test.path = es.reverse := by
      refine Notebook.account_ran (o := ⟨u.test, res⟩) (n := w.book) htw.inner rfl ?_
      exact congrArg (Event.notified (.finished ⟨u.test, res⟩) :: ·) htw.record
    refine hw.other hA hh hu ((hbegun.trans (hr'.run_usesUnit hA.calm hcalm)).trans hended) ?_
      (fun j hj => cell_ended_of_ne hrun hj) fun k hk => ?_
    · exact listener_runUnit (w.begun h.cell u) u
    · refine .ran (by rwa [hk]) ?_ htv haccount
      rw [hk]
      exact hself
  · rw [runCell_of_ne fun u hc => hu ⟨u, hc⟩]
    exact hw

/-- **A unit that is cancelled takes nothing from the others.** -/
theorem Separate.cancel (hA : v.Apart r hs) (hw : Separate r hs v w) (hh : h ∈ hs) :
    Separate r hs v (w.cancel h).2 := by
  by_cases hu : ∃ u, w.cell h.cell = .suspended u
  · obtain ⟨u, hu⟩ := hu
    obtain ⟨hv, hr⟩ := (hw.fates h hh).waiting hu
    -- the callbacks that are closed belong to the shelf of the unit
    have hr' : FindsSame r v (w.setCell h.cell .cancelled) u := hr.congr rfl rfl rfl
    rw [cancel_suspended hw.calm hu]
    have hcell : UsesUnit u w (w.setCell h.cell .cancelled) :=
      ⟨⟨[], nofun, rfl⟩, rfl, Nat.le_refl _, fun _ _ _ => ⟨rfl, rfl⟩⟩
    have htold : UsesUnit u ((w.setCell h.cell .cancelled).dropUnit u) (w.withdrawn h u) := by
      refine (usesUnit_add _ (fun _ _ => rfl) _).trans (usesUnit_add _ (fun path hp => ?_) _)
      simpa [Event.finishes, unfinished, hA.test h hh u hv] using Ne.symm hp
    refine hw.other hA hh hu ((hcell.trans hr'.drop_usesUnit).trans htold)
      (listener_withdrawn _ _ _)
      (fun j hj => cell_withdrawn_of_ne hj) fun k hk => ?_
    have hself := cell_withdrawn_self hu
    rw [← hk] at hv hself
    exact .cancelled hv hself
  · rw [cancel_of_ne fun u hc => hu ⟨u, hc⟩]
    exact hw

theorem Separate.rest (hw : Separate r hs v w) (hz : w.Rests z) : Separate r hs v z := by
  have hcell : ∀ j, z.cell j = w.cell j := fun j => by rw [cell, cell, hz.cells]
  have haccount : ∀ path, z.book.account path = w.book.account path := fun path => by
    rw [Notebook.account, Notebook.record, hz.acts]
    rfl
  refine ⟨by rw [hz.listener]; exact hw.calm, fun k hk name => ?_, fun k hk => ?_⟩
  · rw [hz.invocations] at hk
    rw [Notebook.locals, hz.store]
    exact hw.unset k hk name
  · cases hw.fates k hk with
    | still hn hc => exact .still hn ((hcell _).trans hc)
    | waits hv hc hr =>
      exact .waits hv ((hcell _).trans hc) (hr.congr hz.shelves hz.store hz.invocations)
    | cancelled hv hc => exact .cancelled hv ((hcell _).trans hc)
    | ran hv hc ht ha => exact .ran hv ((hcell _).trans hc) ht ((haccount _).trans ha)

/-- **Every move keeps the handles separate.** -/
theorem Separate.move (hA : v.Apart r hs) (hm : Move hs w z) (hw : Separate r hs v w) :
    Separate r hs v z := by
  cases hm with
  | rest h => exact hw.rest h
  | run hh => exact hw.run hA hh
  | cancel hh => exact hw.cancel hA hh

/-! ### Executed tests -/

/-- What a unit does and how it ends is determined. -/
theorem Tells.unique {res res' : TestResult} {es es' : List Event} (h : v.Tells u res es)
    (k : v.Tells u res' es') : res' = res ∧ es' = es :=
  ⟨Except.ok.inj (k.result.symm.trans h.result),
    List.append_cancel_right (k.record.symm.trans h.record)⟩

/-- A test that was executed ended as it would have ended at once. -/
theorem Separate.executed (hw : Separate r hs v w) (hh : h ∈ hs)
    (he : (executed? v w h).isSome = true) : ∃ u res es, v.cell h.cell = .suspended u ∧
      v.Tells u res es ∧ w.outcome? h = some ⟨u.test, res⟩ ∧
      w.book.account u.test.path = es.reverse := by
  rw [executed?] at he
  cases hw.fates h hh with
  | still hn hc =>
    split at he
    · rename_i u _ hu _
      exact absurd hu (hn u)
    · cases he
  | waits hv hc hr =>
    rw [hv, hc] at he
    cases he
  | cancelled hv hc =>
    rw [hv, hc] at he
    cases he
  | @ran u res es hv hc ht ha =>
    refine ⟨u, res, es, hv, ht, ?_, ha⟩
    rw [outcome?, hc]
    rfl

end World

/-! ### Two runs -/

/-- What a list of optional values that are all different tells about their places. -/
theorem index_eq_of_nodup {α β : Type} {f : α → Option β} {l : List α} (h : (l.filterMap f).Nodup)
    {i j : Nat} {a b : α} {c : β} (ha : l[i]? = some a) (hb : l[j]? = some b) (hfa : f a = some c)
    (hfb : f b = some c) : i = j := by
  rw [List.Nodup, List.pairwise_filterMap, List.pairwise_iff_getElem] at h
  obtain ⟨hi, rfl⟩ := List.getElem?_eq_some_iff.mp ha
  obtain ⟨hj, rfl⟩ := List.getElem?_eq_some_iff.mp hb
  rcases Nat.lt_trichotomy i j with hij | hij | hij
  · exact absurd rfl (h i j hi hj hij c hfa c hfb)
  · exact hij
  · exact absurd rfl (h j i hj hi hij c hfb c hfa)

theorem HandlesInOrder.issued_cell {r : RootContext} {bound : Nat} {tests : List Handle}
    {processed : List NamePath} {v : World} (h : HandlesInOrder r bound tests processed v.cells)
    {k : Handle} (hk : k ∈ tests) : k.Issued r bound (v.cell k.cell) := by
  obtain ⟨i, hi, rfl⟩ := List.getElem_of_mem hk
  have hlength := h.issued.length_eq
  have hcell : tests[i].cell = i := by
    have hi' : i < (tests.map Handle.cell).length := by rwa [List.length_map]
    calc tests[i].cell = (tests.map Handle.cell)[i] := (List.getElem_map _).symm
      _ = i := by simp [h.numbered]
  rw [hcell, World.cell, List.getElem?_eq_getElem (hlength ▸ hi)]
  exact h.issued.get hi (hlength ▸ hi)

namespace World

variable {r : RootContext} {bound : Nat} {tests : List Handle} {processed : List NamePath}
  {v w : World}

theorem getElem?_of_suspended {i : Nat} {u : TestUnit} (h : v.cell i = .suspended u) :
    v.cells[i]? = some (.suspended u) := by
  rw [cell] at h
  cases hc : v.cells[i]? with
  | none =>
    rw [hc] at h
    cases h
  | some c =>
    rw [hc] at h
    exact congrArg some h

/-- The handles of a tidy discovery stand apart. -/
theorem Alike.apart (h : Alike r bound tests processed v w) (ht : v.Tidy tests) :
    v.Apart r tests where
  calm := h.left
  unset k hk name := h.book.unset k (h.book.left ▸ hk) name
  test k hk u hu := by
    have hissued := h.inOrder.issued_cell hk
    rw [hu] at hissued
    cases hissued <;> rfl
  differ := by
    intro k hk k' hk' u u' hne hu hu'
    have hcell := getElem?_of_suspended hu
    have hcell' := getElem?_of_suspended hu'
    refine ⟨fun hp => hne ?_, fun i hi hi' => hne ?_⟩
    · exact index_eq_of_nodup h.inOrder.paths hcell' hcell (congrArg some hp) rfl
    · exact index_eq_of_nodup ht.owned.nodup hcell' hcell hi hi'

/-- Nothing has become of the handles yet, in either of two alike worlds. -/
theorem Alike.separate (hb : r.builder.IsLocal) (h : Alike r bound tests processed v w) :
    Separate r tests v w where
  calm := h.right
  unset k hk name := by
    rw [h.book.locals]
    exact h.book.unset k (h.book.right ▸ hk) name
  fates := by
    intro k hk
    have hissued := h.inOrder.issued_cell hk
    have hcell : w.cell k.cell = v.cell k.cell := by rw [cell, cell, h.cells]
    -- an outcome that was known at once, a replay, or a direct test
    generalize hv : v.cell k.cell = c at hissued
    cases hissued with
    | done o => exact .still (fun u hu => by rw [hv] at hu; cases hu) hcell
    | replayed =>
      refine .waits hv (hcell.trans hv) (.replayed hb ?_)
      rw [h.book.locals, h.book.left, h.book.right]
    | direct hbody hk =>
      refine .waits hv (hcell.trans hv) (.direct hbody ?_ ?_ ?_ (h.book.locals _) (h.shelves _))
      · rwa [h.leftLength]
      · rwa [h.rightLength]
      · rwa [h.book.right]

end World

namespace RootContext

variable {r : RootContext}

/-- **Tests of a local root do not interfere.**  Two discoveries return the same, whatever the
pools, the listeners and the policies are: the same contexts and the same handles, or the same
structural error. And whatever is done with the handles behind either of them, in any order, a
test that is executed in both ends with the same outcome in both, and its account is the same: the
same lines of its body and of its close callbacks, in the same order. -/
theorem outcomes_independent (hl : r.builder.IsLocal) (hp : r.builder.Propagates)
    {l₁ l₂ : Listener} (hl₁ : l₁.Calm) (hl₂ : l₂.Calm) {pool₁ pool₂ : Pool Nat}
    (hq₁ : pool₁.queue = []) (hq₂ : pool₂.queue = []) (policy₁ policy₂ : StartPolicy) :
    (∃ x, (r.discover (.fresh pool₁ l₁ policy₁)).1 = .ok x ∧
      (r.discover (.fresh pool₂ l₂ policy₂)).1 = .ok x) ∧
    ∀ d v₁ v₂, r.discover (.fresh pool₁ l₁ policy₁) = (.ok (.ok d), v₁) →
      r.discover (.fresh pool₂ l₂ policy₂) = (.ok (.ok d), v₂) →
      ∀ us₁ us₂ : List Use, (∀ u ∈ us₁, ∀ h ∈ u.handles, h ∈ d.tests) →
        (∀ u ∈ us₂, ∀ h ∈ u.handles, h ∈ d.tests) → ∀ h ∈ d.tests,
        (World.executed? v₁ (v₁.useAll us₁) h).isSome = true →
        (World.executed? v₂ (v₂.useAll us₂) h).isSome = true →
        ∃ o, o.test = h.test ∧ (v₁.useAll us₁).outcome? h = some o ∧
          (v₂.useAll us₂).outcome? h = some o ∧
          (v₁.useAll us₁).book.account h.test.path = (v₂.useAll us₂).book.account h.test.path := by
  have hboth := discover_alike hl hl₁ hl₂ pool₁ pool₂ policy₁ policy₂
  have hone := discover_alike hl hl₁ hl₁ pool₁ pool₁ policy₁ policy₁
  constructor
  · obtain ⟨x, hx⟩ := hboth.returns
    exact ⟨x, hx, hboth.result.trans hx⟩
  intro d v₁ v₂ hd₁ hd₂ us₁ us₂ hus₁ hus₂ h hh he₁ he₂
  have htidy₁ := discover_tidy hp (World.tidy_fresh pool₁ l₁ policy₁ hq₁)
  have htidy₂ := discover_tidy hp (World.tidy_fresh pool₂ l₂ policy₂ hq₂)
  rw [hd₁] at hboth hone htidy₁
  rw [hd₂] at hboth htidy₂
  obtain ⟨bound, processed, hv₂⟩ := hboth.world d rfl
  obtain ⟨_, _, hv₁⟩ := hone.world d rfl
  have hA := hv₁.apart (htidy₁ d rfl)
  -- both runs are compared with the world behind the first discovery
  have hw₁ : World.Separate r d.tests v₁ (v₁.useAll us₁) :=
    (World.useAll_moves hus₁ v₁ (htidy₁ d rfl).queued).1.keep (fun hm hw => hw.move hA hm)
      (hv₁.separate hl)
  have hw₂ : World.Separate r d.tests v₁ (v₂.useAll us₂) :=
    (World.useAll_moves hus₂ v₂ (htidy₂ d rfl).queued).1.keep (fun hm hw => hw.move hA hm)
      (hv₂.separate hl)
  have hcell : v₂.cell h.cell = v₁.cell h.cell := by rw [World.cell, World.cell, hv₂.cells]
  rw [World.executed?, hcell, ← World.executed?] at he₂
  obtain ⟨u, res, es, hu, htells, hout, hacc⟩ := hw₁.executed hh he₁
  obtain ⟨u', res', es', hu', htells', hout', hacc'⟩ := hw₂.executed hh he₂
  -- in both the unit has ended as it would have ended behind the first discovery
  rw [hu] at hu'
  cases hu'
  obtain ⟨rfl, rfl⟩ := htells.unique htells'
  have htest := hA.test h hh u hu
  rw [← htest]
  exact ⟨⟨u.test, res'⟩, rfl, hout, hout', hacc.trans hacc'.symm⟩

/-- A root with a variable that is counted before its tests and in each of them; the second test
is in a context whose errors are swallowed. -/
def countingRoot : RootContext :=
  ⟨0, "root", false, .site 0,
    .basic (.incr "$n") <|
    .deferClose (.basic (.logVar "$n") .done) <|
    .test "first" (.site 1) (.basic (.incr "$n") (.basic (.logVar "$n") .done)) false <|
    .context "inner" (.site 2)
      (.test "second" (.site 3) (.basic (.incr "$n") (.basic (.logVar "$n") .done)) false .done)
      true .done⟩

theorem isLocal_countingRoot : countingRoot.builder.IsLocal := by
  have hn : LocalName "$n" := rfl
  simp [countingRoot, Builder.IsLocal, Body.IsLocal, Callback.IsLocal, Basic.IsLocal, hn]

theorem propagates_countingRoot : countingRoot.builder.Propagates :=
  ⟨fun _ => Builder.not_raises rfl, trivial, trivial⟩

/-- The handles of the two tests of `countingRoot`. -/
def countingFirst : Handle :=
  ⟨⟨countingRoot.context, "first", .site 1⟩, 0⟩

def countingSecond : Handle :=
  ⟨⟨.child countingRoot.context "inner" (.site 2), "second", .site 3⟩, 1⟩

/-- Another policy, a neighbour that is cancelled and another order make no difference to the second
test: its variable is counted once before its body and once in it. -/
theorem outcomes_independent_countingRoot :
    ∃ d v₁ v₂, countingRoot.discover (.fresh (.held 1) .silent .eager) = (.ok (.ok d), v₁) ∧
      countingRoot.discover (.fresh (.held 1) .silent .lazy) = (.ok (.ok d), v₂) ∧
      ∃ o, o.test = countingSecond.test ∧
        (v₁.useAll [.waitAll d.tests]).outcome? countingSecond = some o ∧
        (v₂.useAll [.cancel countingFirst, .start countingSecond, .runPool]).outcome? countingSecond
          = some o ∧
        (v₁.useAll [.waitAll d.tests]).book.account countingSecond.test.path =
          (v₂.useAll [.cancel countingFirst, .start countingSecond, .runPool]).book.account
            countingSecond.test.path ∧
        (v₁.useAll [.waitAll d.tests]).book.account countingSecond.test.path =
          [.ran 0 ["root", "inner", "second"], .said 0 "var $n=2", .closed 0, .said 0 "var $n=2"] := by
  have hcalm : Listener.silent.Calm := fun _ => rfl
  have hqueue : (.held 1 : Pool Nat).queue = [] := rfl
  obtain ⟨⟨x, h₁, h₂⟩, hall⟩ := outcomes_independent isLocal_countingRoot propagates_countingRoot
    hcalm hcalm hqueue hqueue .eager .lazy
  -- only the list of tests is computed: the list of contexts is sorted
  have htests : ((countingRoot.discover (.fresh (.held 1) .silent .eager)).1.toOption.bind
      Except.toOption).map Discovery.tests = some [countingFirst, countingSecond] := rfl
  rw [h₁] at htests
  cases x with
  | error e => cases htests
  | ok d =>
    have ht : d.tests = [countingFirst, countingSecond] := Option.some.inj htests
    refine ⟨d, _, _, Prod.ext h₁ rfl, Prod.ext h₂ rfl, ?_⟩
    rw [ht]
    have hall' := hall d _ _ (Prod.ext h₁ rfl) (Prod.ext h₂ rfl)
      [.waitAll [countingFirst, countingSecond]]
      [.cancel countingFirst, .start countingSecond, .runPool]
    obtain ⟨o, ho, ho₁, ho₂, haccount⟩ := hall' (by simp [ht, Use.handles])
      (by simp [ht, Use.handles]) countingSecond (by simp [ht]) rfl rfl
    exact ⟨o, ho, ho₁, ho₂, haccount, rfl⟩

end RootContext

end TestTree

/-
What start policies do to the handles of a discovery.

* `World.Due`, `World.serve_final` : a pool that serves its queue makes every cell final whose unit is
  queued;
* `World.wait_waits`, `World.waitAll_final` : waiting for a handle runs its unit, and waiting for
  several handles makes all of them final;
* `World.untouched_useRelation` : as long as a handle of a lazy world is neither started nor awaited,
  its unit is not run, whatever else is done;
* `World.dormant_useRelation` : as long as no handle at all is, nothing begins;
* `RootContext.start_policies` : **an eager discovery starts everything, and a lazy one nothing**.
-/
import TestTree.Proofs.Cancelling
import TestTree.Proofs.Protocol
import TestTree.Proofs.Queueing
import TestTree.Proofs.Sessions

namespace TestTree

namespace World

variable {v w : World} {h : Handle} {i j : Nat} {u : TestUnit}

/-! ### Serving the queue -/

/-- A cell that is run becomes final, if a unit waits in it. -/
theorem runCell_final (hu : w.cell i = .suspended u) :
    ((w.runCell i).2.cell i).isDone = true := by
  obtain ⟨c, book, shelves, hw, hc, -⟩ := runCell_eq hu
  rw [cell_of_set (congrArg World.cells hw) (lt_of_suspended hu)]
  rcases hc with rfl | ⟨o, rfl⟩
  · rfl
  · rfl

/-- No other cell is changed, nor is what is final. -/
theorem cell_runCell_of_ne (hj : j ≠ i) : (w.runCell i).2.cell j = w.cell j := by
  by_cases hu : ∃ u, w.cell i = .suspended u
  · obtain ⟨u, hu⟩ := hu
    obtain ⟨c, book, shelves, hw, -⟩ := runCell_eq hu
    exact cell_of_set_ne (congrArg World.cells hw) hj
  · rw [runCell_of_ne fun u k => hu ⟨u, k⟩]

/-- The cell is final, or its unit waits in the queue. -/
def Due (w : World) (j : Nat) : Prop :=
  (w.cell j).isDone = true ∨ (∃ u, w.cell j = .suspended u) ∧ j ∈ w.pool.queue

/-- A cell that is run is due no more. -/
theorem isDone_runCell (hj : (w.cell j).isDone = true ∨ ∃ u, w.cell j = .suspended u) :
    ((w.runCell j).2.cell j).isDone = true := by
  rcases hj with hdone | ⟨u, hu⟩
  · rw [runCell_of_ne fun u hu => by rw [hu] at hdone; cases hdone]
    exact hdone
  · exact runCell_final hu

/-- A worker takes the first entry of the queue. -/
theorem serveOne_cons {rest : List Nat} (hq : w.pool.queue = i :: rest) :
    w.serveOne.pool.queue = rest ∧ ∃ z : World, z.cells = w.cells ∧
      w.serveOne.cells = (z.runCell i).2.cells := by
  let z : World :=
    { w with pool := { w.pool with queue := rest, active := w.pool.active + 1 } }
  have hpool := congrArg Pool.queue (z.pool_runCell i)
  rw [serveOne, Pool.take?, hq]
  dsimp only
  rcases hrun : z.runCell i with ⟨panic, y⟩
  rw [hrun] at hpool
  refine ⟨?_, z, rfl, ?_⟩
  · cases panic <;> exact hpool
  · rw [hrun]
    cases panic <;> rfl

/-- **What is queued is final when the queue has been served.** -/
theorem serve_final : ∀ (n : Nat) {w : World}, w.pool.queue.length ≤ n → w.Due j →
    ((serve n w).cell j).isDone = true := by
  intro n
  induction n with
  | zero =>
    intro w hn hj
    have hq := List.length_eq_zero_iff.mp (Nat.le_zero.mp hn)
    refine hj.resolve_right fun hk => ?_
    rw [hq] at hk
    cases hk.2
  | succ n ih =>
    intro w hn hj
    cases hq : w.pool.queue with
    | nil =>
      have hidle : w.serveOne = w := by
        rw [serveOne, Pool.take?, hq]
      rw [serve, hidle]
      exact ih (by rw [hq]; exact Nat.zero_le n) hj
    | cons i rest =>
      obtain ⟨hrest, z, hz, hcells⟩ := serveOne_cons hq
      have hcell : w.serveOne.cell = (z.runCell i).2.cell := cell_congr hcells
      refine ih ?_ ?_
      · rw [hq, List.length_cons] at hn
        rw [hrest]
        exact Nat.le_of_succ_le_succ hn
      · -- either this entry is the one of the cell, or the cell has another one
        rw [Due, hcell, hrest]
        by_cases hji : j = i
        · subst hji
          rw [Due, ← cell_congr hz] at hj
          exact .inl (isDone_runCell (hj.imp_right And.left))
        · rw [cell_runCell_of_ne hji, cell_congr hz]
          refine hj.imp_right fun hk => ⟨hk.1, ?_⟩
          have hmem := hk.2
          rw [hq] at hmem
          exact (List.mem_cons.mp hmem).resolve_left hji

theorem runPool_final (hs : w.pool.shutDown = false) (hj : w.Due j) :
    (w.runPool.cell j).isDone = true := by
  rw [runPool, if_neg (by rw [hs]; exact Bool.false_ne_true)]
  exact serve_final (w := { w with pool := w.pool.letGo }) _ (Nat.le_refl _) hj

theorem shutDownPool_final (hs : w.pool.shutDown = false) (hj : w.Due j) :
    (w.shutDownPool.cell j).isDone = true := by
  rw [shutDownPool, if_neg (by rw [hs]; exact Bool.false_ne_true)]
  exact serve_final (w := { w with pool := w.pool.refuse.letGo }) _ (Nat.le_refl _) hj

/-! ### Waiting -/

/-- **Whoever waits for a handle whose unit waits runs the unit**, and nothing else. -/
theorem wait_waits (hw : w.listener.Calm) (hk : w.Waits h) :
    ∃ r v, w.wait h = (.ok (some ⟨h.test, r⟩), v) ∧ v.cell h.cell = .done ⟨h.test, r⟩ ∧
      (∀ i, i ≠ h.cell → v.cell i = w.cell i) ∧ v.listener = w.listener ∧
      v.book.told = w.book.told ++ [.started h.test, .finished ⟨h.test, r⟩] := by
  obtain ⟨u, hu, ht, hreturns⟩ := hk
  obtain ⟨r, hr⟩ := hreturns (w.begun h.cell u)
  rcases hrun : (w.begun h.cell u).runUnit u with ⟨e, z⟩
  rw [hrun] at hr
  cases hr
  have hself := cell_ended_self (o := ⟨u.test, r⟩) hu hrun
  have hlistener := listener_runUnit (w.begun h.cell u) u
  have htold := told_runUnit (w.begun h.cell u) u
  rw [hrun] at hlistener htold
  rw [ht] at hself
  refine ⟨r, z.ended h.cell ⟨h.test, r⟩, ?_, hself, fun i hi => cell_ended_of_ne hrun hi, hlistener,
    ?_⟩
  · rw [wait, runCell_suspended hw hu hrun, ht]
    dsimp only
    rw [outcome?, hself]
    rfl
  · show (z.book.add (.notified (.finished ⟨h.test, r⟩))).told = _
    rw [Notebook.told_add, show z.book.told = _ from htold]
    show (w.book.add (.notified (.started u.test))).told ++ _ = _
    rw [Notebook.told_add, ht, List.append_assoc]
    rfl

/-- Waiting for a handle gives its outcome, and other cells stay as they are. -/
theorem wait_placed (hw : w.listener.Calm) (hk : w.Placed False h) :
    ∃ o v, w.wait h = (.ok (some o), v) ∧ v.cell h.cell = .done o ∧ v.listener = w.listener ∧
      ∀ i, i ≠ h.cell → v.cell i = w.cell i := by
  rcases hk with ⟨o, ho⟩ | ⟨hwaits, -⟩
  · refine ⟨o, w, ?_, ho, rfl, fun _ _ => rfl⟩
    rw [wait, runCell_of_ne fun u hu => by rw [ho] at hu; cases hu]
    dsimp only
    rw [outcome?, ho]
    rfl
  · obtain ⟨r, v, hv, hcell, hother, hl, -⟩ := wait_waits hw hwaits
    exact ⟨_, v, hv, hcell, hl, hother⟩

/-- **Waiting for several handles gives all of them their outcomes.** -/
theorem waitEach_final (ks : List Handle) : ∀ {w : World}, w.listener.Calm →
    (∀ k ∈ ks, w.Placed False k) → ∃ os v, w.waitEach ks = (.ok os, v) ∧
      (∀ k ∈ ks, ∃ o, v.cell k.cell = .done o) ∧
      ∀ i, (∃ o, w.cell i = .done o) → ∃ o, v.cell i = .done o := by
  induction ks with
  | nil =>
    intro w _ _
    exact ⟨[], w, rfl, nofun, fun _ hi => hi⟩
  | cons k rest ih =>
    intro w hw hks
    obtain ⟨o, z, hz, hk, hl, hother⟩ := wait_placed hw (hks k List.mem_cons_self)
    have hkept : ∀ i, (∃ o, w.cell i = .done o) → ∃ o, z.cell i = .done o := by
      intro i hi
      by_cases hik : i = k.cell
      · exact ⟨o, hik ▸ hk⟩
      · rwa [hother i hik]
    have hrest : ∀ l ∈ rest, z.Placed False l := by
      intro l hl
      rcases hks l (List.mem_cons_of_mem _ hl) with hdone | ⟨⟨u, hu, hunit⟩, -⟩
      · exact .inl (hkept _ hdone)
      · by_cases hlk : l.cell = k.cell
        · exact .inl ⟨o, hlk ▸ hk⟩
        · exact .inr ⟨⟨u, (hother _ hlk).trans hu, hunit⟩, False.elim⟩
    obtain ⟨os, v, hv, hfinal, hstay⟩ := ih (hl ▸ hw) hrest
    refine ⟨o :: os, v, ?_, fun l hl => ?_, fun i hi => hstay i (hkept i hi)⟩
    · rw [waitEach, hz]
      dsimp only
      rw [hv]
      rfl
    · rcases List.mem_cons.mp hl with rfl | hl
      · exact hstay _ ⟨o, hk⟩
      · exact hfinal l hl

theorem startAll_eq (ks : List Handle) (w : World) :
    (w.startAll ks).cells = w.cells ∧ (w.startAll ks).listener = w.listener := by
  refine startAll_rel (R := fun v w => w.cells = v.cells ∧ w.listener = v.listener)
    (fun _ => ⟨rfl, rfl⟩) (fun h k => ⟨k.1.trans h.1, k.2.trans h.2⟩) (fun k _ v => ?_) w
  obtain ⟨_, _, hv, -⟩ := start_eq v k
  have hcells := congrArg World.cells hv
  have hlistener := congrArg World.listener hv
  exact ⟨hcells, hlistener⟩

/-- **Waiting for all handles that are placed gives all of them their outcomes.** -/
theorem waitAll_final (hw : w.listener.Calm) {ks : List Handle} {q : Prop}
    (hks : ∀ k ∈ ks, w.Placed q k) : ∃ os v, w.waitAll ks = (.ok os, v) ∧
      ∀ k ∈ ks, ∃ o, v.cell k.cell = .done o := by
  obtain ⟨hcells, hlistener⟩ := startAll_eq ks w
  have hcell := cell_congr hcells
  obtain ⟨os, v, hv, hfinal, -⟩ := waitEach_final ks (w := w.startAll ks) (hlistener ▸ hw)
    fun k hk => by
      rw [Placed, Waits, hcell]
      exact (hks k hk).imp_right fun hwaits => ⟨hwaits.1, False.elim⟩
  exact ⟨os, v, hv, hfinal⟩

end World

/-! ### Lazy worlds -/

namespace World

variable {w : World} {c : Cell TestUnit Outcome} {i : Nat}

/-- In a lazy world nobody has begun the unit of the cell `i`, which holds `c`: it is as it was, or it
was cancelled. -/
structure Untouched (c : Cell TestUnit Outcome) (i : Nat) (w : World) : Prop where
  policy : w.policy = .lazy
  queue : i ∉ w.pool.queue
  cell : w.cell i = c ∨ c.isSuspended = true ∧ w.cell i = .cancelled

theorem policy_runCell (w : World) (i : Nat) : (w.runCell i).2.policy = w.policy := by
  by_cases hu : ∃ u, w.cell i = .suspended u
  · obtain ⟨u, hu⟩ := hu
    obtain ⟨c, book, shelves, hw, -⟩ := runCell_eq hu
    rw [hw]
  · rw [runCell_of_ne fun u k => hu ⟨u, k⟩]

theorem policy_withdrawn (w : World) (k : Handle) (u : TestUnit) :
    (w.withdrawn k u).policy = w.policy := by
  obtain ⟨_, _, hw, -⟩ := (w.setCell k.cell .cancelled).dropUnit_eq u
  have hpolicy := congrArg World.policy hw
  exact hpolicy

theorem release_lazy (hw : w.policy = .lazy) (k : Handle) : w.release k = w := by
  rw [release, hw]

theorem Untouched.runCell (h : w.Untouched c i) {j : Nat} (hj : j ≠ i) :
    (w.runCell j).2.Untouched c i := by
  refine ⟨(w.policy_runCell j).trans h.policy, ?_, ?_⟩
  · rw [pool_runCell]
    exact h.queue
  · rw [cell_runCell_of_ne hj.symm]
    exact h.cell

theorem Untouched.cancel (h : w.Untouched c i) (k : Handle) : (w.cancel k).2.Untouched c i := by
  by_cases hu : ∃ u, w.cell k.cell = .suspended u
  · obtain ⟨u, hu⟩ := hu
    have hpool := w.pool_cancel k
    rw [cancel_eq hu] at hpool ⊢
    refine ⟨(w.policy_withdrawn k u).trans h.policy, hpool ▸ h.queue, ?_⟩
    by_cases hk : i = k.cell
    · subst hk
      have hc : c = .suspended u := by
        rcases h.cell with hc | ⟨-, hc⟩
        · rw [← hc, hu]
        · rw [hu] at hc
          cases hc
      rw [hc]
      exact .inr ⟨rfl, cell_withdrawn_self hu⟩
    · rw [cell_withdrawn_of_ne hk]
      exact h.cell
  · rw [cancel_of_ne fun u hc => hu ⟨u, hc⟩]
    exact h

theorem Untouched.start (h : w.Untouched c i) {k : Handle} (hk : k.cell ≠ i) :
    (w.start k).Untouched c i := by
  rw [World.start]
  split
  · cases hp : w.pool.submit? k.cell with
    | none => exact ⟨h.policy, h.queue, h.cell⟩
    | some pool =>
      refine ⟨h.policy, fun hi => ?_, h.cell⟩
      rw [Pool.submit?] at hp
      split at hp
      · cases hp
      · cases hp
        rcases List.mem_append.mp hi with hi | hi
        · exact h.queue hi
        · exact hk (List.mem_singleton.mp hi).symm
  · exact h

/-- A worker takes an entry of the queue, which is of another cell. -/
theorem Untouched.serveOne (h : w.Untouched c i) : w.serveOne.Untouched c i := by
  rw [World.serveOne, Pool.take?]
  cases hq : w.pool.queue with
  | nil => exact h
  | cons j rest =>
    have hj : j ≠ i := fun hji => h.queue (by rw [hq, hji]; exact List.mem_cons_self)
    let z : World :=
      { w with pool := { w.pool with queue := rest, active := w.pool.active + 1 } }
    have hz : z.Untouched c i :=
      ⟨h.policy, fun hi => h.queue (by rw [hq]; exact List.mem_cons_of_mem _ hi), h.cell⟩
    obtain ⟨hpolicy, hqueue, hcell⟩ := hz.runCell hj
    dsimp only
    rcases hrun : z.runCell j with ⟨panic, y⟩
    rw [hrun] at hpolicy hqueue hcell
    cases panic with
    | none => exact ⟨hpolicy, hqueue, hcell⟩
    | some p => exact ⟨hpolicy, hqueue, hcell⟩

theorem untouched_useRelation (c : Cell TestUnit Outcome) (i : Nat) :
    UseRelation (fun k => k.cell ≠ i) (fun _ => True)
      (fun v w => v.Untouched c i → w.Untouched c i) where
  refl _ := id
  trans h k := k ∘ h
  serveOne _ h := h.serveOne
  pool hq h := ⟨h.policy, hq ▸ h.queue, h.cell⟩
  start hk _ h := h.start hk
  run hk _ h := h.runCell hk
  release _ _ h := by rwa [release_lazy h.policy]
  cancel _ _ h := h.cancel _

/-- A lazy world in which nothing is queued and nothing has begun but `es`. -/
structure Dormant (es : List Event) (w : World) : Prop where
  policy : w.policy = .lazy
  queue : w.pool.queue = []
  beginnings : w.book.beginnings = es

theorem Dormant.cancel {es : List Event} (h : w.Dormant es) (k : Handle) :
    (w.cancel k).2.Dormant es := by
  by_cases hu : ∃ u, w.cell k.cell = .suspended u
  · obtain ⟨u, hu⟩ := hu
    have hpool := w.pool_cancel k
    have hdeeds := (w.setCell k.cell .cancelled).deeds_dropUnit u
    rw [cancel_eq hu] at hpool ⊢
    refine ⟨(w.policy_withdrawn k u).trans h.policy, hpool ▸ h.queue, ?_⟩
    refine (Notebook.beginnings_add _ rfl).trans ?_
    refine (Notebook.beginnings_add (e := .traced _) _ rfl).trans ?_
    exact (Notebook.beginnings_of_deeds hdeeds).trans h.beginnings
  · rw [cancel_of_ne fun u hc => hu ⟨u, hc⟩]
    exact h

theorem dormant_useRelation (es : List Event) :
    UseRelation (fun _ => False) (fun _ => True) (fun v w => v.Dormant es → w.Dormant es) where
  refl _ := id
  trans h k := k ∘ h
  serveOne _ h := by
    rw [World.serveOne, Pool.take?, h.queue]
    exact h
  pool hq h := ⟨h.policy, hq.trans h.queue, h.beginnings⟩
  start hk := hk.elim
  run hk := hk.elim
  release _ _ h := by rwa [release_lazy h.policy]
  cancel _ _ h := h.cancel _

end World

/-! ### Discoveries -/

namespace RootContext

variable {r : RootContext} {w v : World} {d : Discovery}

/-- A handle of a discovery has a new cell, unless it stands for a root that failed. -/
theorem discover_new (hd : r.discover w = (.ok (.ok d), v)) {h : Handle} (hh : h ∈ d.tests) :
    w.cells.length ≤ h.cell ∨ ∃ o, v.cell h.cell = .done o := by
  obtain ⟨n, search, z, hbegins, hends⟩ := r.discover_ends w
  obtain ⟨hadds, hdirect, -⟩ := hbegins.adds
  obtain ⟨hs, htests, hpass, -⟩ := r.runPass_adds search z hdirect
  obtain ⟨own, hall, hown⟩ := (hends.resultOf hd).tests
  rw [hall, htests] at hh
  rcases List.mem_append.mp hh with hh | hh
  · exact .inl ((hadds.trans hpass).lt hh).1
  · obtain ⟨-, f, -, hdone⟩ := hown h (Option.mem_toList.mp hh)
    exact .inr ⟨_, hdone⟩

/-- What an eager discovery queued is due. -/
theorem due_of_eager (hk : r.Forwards w) (hd : r.discover w = (.ok (.ok d), v)) (hq : w.Queues)
    {h : Handle} (hh : h ∈ d.tests) : v.Due h.cell := by
  obtain ⟨-, hplaced⟩ := discover_places hk hd
  rcases hplaced h hh with ⟨o, hdone⟩ | ⟨⟨u, hu, -⟩, hqueue⟩
  · exact .inl (by rw [hdone]; rfl)
  · exact .inr ⟨⟨u, hu⟩, hqueue hq⟩

/-- Behind a lazy discovery nobody begins the unit of a handle that is neither started nor awaited. -/
theorem untouched_of_lazy (hk : r.Forwards w) (hd : r.discover w = (.ok (.ok d), v))
    (hlazy : w.policy = .lazy) (hqueue : ∀ i ∈ w.pool.queue, i < w.cells.length) {h : Handle}
    (hh : h ∈ d.tests) {us : List Use} (hus : ∀ u ∈ us, ∀ k ∈ u.begins, k.cell ≠ h.cell) :
    (v.useAll us).cell h.cell = v.cell h.cell ∨
      (v.cell h.cell).isSuspended = true ∧ (v.useAll us).cell h.cell = .cancelled := by
  obtain ⟨ho, -⟩ := discover_places hk hd
  have hpool : v.pool = w.pool := ho.pool (World.not_queues_of_lazy hlazy)
  rcases discover_new hd hh with hnew | ⟨o, hdone⟩
  · -- what was queued before the discovery has an older cell
    have hnot : h.cell ∉ v.pool.queue := fun hi => by
      rw [hpool] at hi
      exact Nat.not_lt_of_le hnew (hqueue _ hi)
    exact ((World.untouched_useRelation _ _).useAll hus (fun _ _ _ _ => trivial) v
      ⟨ho.policy.trans hlazy, hnot, .inl rfl⟩).cell
  · refine .inl ((v.useAll_cell us h.cell).resolve_right fun hs => ?_)
    rw [hdone] at hs
    cases hs.1

/-- Behind a lazy discovery nothing begins, unless some handle is started or awaited. -/
theorem dormant_of_lazy (hk : r.Forwards w) (hd : r.discover w = (.ok (.ok d), v))
    (hlazy : w.policy = .lazy) (hqueue : w.pool.queue = []) {us : List Use}
    (hus : ∀ u ∈ us, u.begins = []) : (v.useAll us).book.beginnings = w.book.beginnings := by
  obtain ⟨ho, -⟩ := discover_places hk hd
  have hpool : v.pool = w.pool := ho.pool (World.not_queues_of_lazy hlazy)
  have hv : v.Dormant w.book.beginnings := ⟨ho.policy.trans hlazy, hpool ▸ hqueue, ho.beginnings⟩
  refine ((World.dormant_useRelation _).useAll (fun u hu k hk => ?_) (fun _ _ _ _ => trivial) v
    hv).beginnings
  rw [hus u hu] at hk
  cases hk

/-- **Start policies.**  Of a discovery that has a result, if no builder discards a structural error
and the listener does not panic:

* if the policy is eager, and the pool accepts handles, every handle that is not final is queued, so
  that all are final when the pool has served its queue;
* if the policy is lazy, the pool is as it was, and no test has begun; from then on the unit of a
  handle is not run before the handle is started or awaited, and nothing begins before some handle
  is, unless it was queued before;
* if the policy is eager, and the pool was shut down, every handle that is not final is suspended,
  and whoever waits for it runs it;
* in any case, whoever waits for all handles makes all of them final. -/
theorem start_policies (hk : r.Forwards w) (hw : w.listener.Calm)
    (hd : r.discover w = (.ok (.ok d), v)) :
    (w.policy = .eager → w.pool.shutDown = false → ∀ h ∈ d.tests,
      ((v.cell h.cell).isDone = true ∨ h.cell ∈ v.pool.queue) ∧
      (v.runPool.cell h.cell).isDone = true ∧ (v.shutDownPool.cell h.cell).isDone = true) ∧
    (w.policy = .lazy → v.pool = w.pool ∧ v.book.beginnings = w.book.beginnings ∧
      ∀ us : List Use,
        ((∀ i ∈ w.pool.queue, i < w.cells.length) → ∀ h ∈ d.tests,
          (∀ u ∈ us, ∀ k ∈ u.begins, k.cell ≠ h.cell) →
          (v.useAll us).cell h.cell = v.cell h.cell ∨
            (v.cell h.cell).isSuspended = true ∧ (v.useAll us).cell h.cell = .cancelled) ∧
        (w.pool.queue = [] → (∀ u ∈ us, u.begins = []) →
          (v.useAll us).book.beginnings = w.book.beginnings)) ∧
    (w.policy = .eager → w.pool.shutDown = true → v.pool = w.pool ∧
      ∀ h ∈ d.tests, (v.cell h.cell).isDone = true ∨ (v.cell h.cell).isSuspended = true ∧
        ∃ o z, v.wait h = (.ok (some o), z) ∧ o.test = h.test ∧ z.cell h.cell = .done o ∧
          z.book.told = v.book.told ++ [.started h.test, .finished o]) ∧
    ∃ os z, v.waitAll d.tests = (.ok os, z) ∧ ∀ h ∈ d.tests, (z.cell h.cell).isDone = true := by
  obtain ⟨ho, hplaced⟩ := discover_places hk hd
  have hlistener : v.listener.Calm := ho.listener ▸ hw
  refine ⟨fun heager hopen h hh => ?_, fun hlazy => ?_, fun heager hshut => ?_, ?_⟩
  · have hdue := due_of_eager hk hd ⟨heager, hopen⟩ hh
    have hv : v.pool.shutDown = false := ho.shutDown.trans hopen
    exact ⟨hdue.imp_right And.right, World.runPool_final hv hdue, World.shutDownPool_final hv hdue⟩
  · exact ⟨ho.pool (World.not_queues_of_lazy hlazy), ho.beginnings, fun us =>
      ⟨fun hqueue _ hh => untouched_of_lazy hk hd hlazy hqueue hh,
        fun hqueue => dormant_of_lazy hk hd hlazy hqueue⟩⟩
  · refine ⟨ho.pool (World.not_queues_of_shutDown hshut), fun h hh => ?_⟩
    rcases hplaced h hh with ⟨o, hdone⟩ | ⟨hwaits, -⟩
    · exact .inl (by rw [hdone]; rfl)
    · obtain ⟨res, z, hz, hdone, -, -, htold⟩ := World.wait_waits hlistener hwaits
      obtain ⟨u, hu, -⟩ := hwaits
      exact .inr ⟨by rw [hu]; rfl, _, z, hz, rfl, hdone, htold⟩
  · obtain ⟨os, z, hz, hfinal⟩ := World.waitAll_final hlistener hplaced
    refine ⟨os, z, hz, fun h hh => ?_⟩
    obtain ⟨o, hdone⟩ := hfinal h hh
    rw [hdone]
    rfl

end RootContext

/-- A root that fails, behind a context that fails and a test. -/
def failingRoot : RootContext :=
  ⟨0, "root", false, .site 0,
    .context "c" (.site 1)
      (.test "a" (.site 2) .done false <| .basic (.fail ⟨.text "no", .sorted⟩) .done) false <|
    .test "b" (.site 3) .done false <| .basic (.fail ⟨.text "no", .sorted⟩) .done⟩

/-- Two passes end normally and one with a failure of the root.  The tests are queued if the policy is
eager and the pool accepts them, and are run by whoever waits for them else. -/
theorem start_policies_failingRoot :
    (∃ d v, failingRoot.discover (.fresh (.held 1) .silent .eager) = (.ok (.ok d), v) ∧
      d.tests.length = 4 ∧ v.pool.queue = [2, 0] ∧
      ∀ h ∈ d.tests, (v.runPool.cell h.cell).isDone = true) ∧
    (∃ d v, failingRoot.discover (.fresh (.held 1) .silent .lazy) = (.ok (.ok d), v) ∧
      v.pool = .held 1 ∧ (v.cell 0).isSuspended = true ∧
      ∀ us : List Use, (∀ u ∈ us, u.begins = []) → (v.useAll us).book.beginnings = []) ∧
    ∃ d v, failingRoot.discover (.fresh (Pool.held 1).refuse .silent .eager) = (.ok (.ok d), v) ∧
      v.pool.queue = [] ∧ ∃ os z, v.waitAll d.tests = (.ok os, z) ∧
        ∀ h ∈ d.tests, (z.cell h.cell).isDone = true := by
  have hk : ∀ w, failingRoot.Forwards w := RootContext.forwards_of_not_swallows rfl
  refine ⟨⟨_, _, rfl, rfl, rfl, ?_⟩, ⟨_, _, rfl, rfl, rfl, ?_⟩, ⟨_, _, rfl, rfl, ?_⟩⟩
  · obtain ⟨heager, -⟩ := RootContext.start_policies
      (w := .fresh (.held 1) .silent .eager) (hk _) (fun _ => rfl) rfl
    exact fun h hh => (heager rfl rfl h hh).2.1
  · obtain ⟨-, hlazy, -⟩ := RootContext.start_policies
      (w := .fresh (.held 1) .silent .lazy) (hk _) (fun _ => rfl) rfl
    obtain ⟨-, -, huses⟩ := hlazy rfl
    exact fun us => (huses us).2 rfl
  · obtain ⟨-, -, -, hall⟩ := RootContext.start_policies
      (w := .fresh (Pool.held 1).refuse .silent .eager) (hk _) (fun _ => rfl) rfl
    exact hall

end TestTree

/-
How often contexts are set up until all tests have run.

* `TestUnit.SetsUp` : a unit that replays its test enters each context on its way once;
* `World.Pays` : what moves of handles have set up, of what the handles were to set up;
* `RootContext.setups_counted` : **a context is set up once for each test inside it, and one more time
  if the last visit of it meets no test**.
-/
import TestTree.Proofs.Cancelling
import TestTree.Proofs.BodiesOnce
import TestTree.Proofs.SetupVisits

namespace TestTree

/-! ### Running the tests -/

/-- A way through contexts enters each of them once. -/
theorem count_entries (root : Nat) {path : NamePath} (hpath : path ≠ []) (ext : NamePath) :
    ((entries root ext 0).filterMap Event.entered?).count (root, path)
      = (decide (path <+: ext)).toNat := by
  let heads := (List.range' 1 ext.length).map fun k => (root, ext.take k)
  have hentries : (entries root ext 0).filterMap Event.entered? = heads.reverse := by
    rw [entries, List.filterMap_reverse, List.filterMap_map]
    exact congrArg List.reverse (congrFun List.filterMap_eq_map _)
  have hnodup : heads.Nodup := by
    refine List.Nodup.map_on (fun j hj k hk heq => ?_) List.nodup_range'
    rw [List.mem_range'_1] at hj hk
    have hlen := congrArg List.length (Prod.mk.inj heq).2
    rw [List.length_take, List.length_take] at hlen
    omega
  rw [hentries, List.count_reverse]
  by_cases hway : path <+: ext
  · have hmem : (root, path) ∈ heads := by
      have hpos := List.length_pos_iff.mpr hpath
      have hle := hway.length_le
      refine List.mem_map.mpr ⟨path.length, List.mem_range'_1.mpr ⟨hpos, by omega⟩, ?_⟩
      rw [← List.prefix_iff_eq_take.mp hway]
    rw [List.count_eq_one_of_mem hnodup hmem, decide_eq_true hway]
    rfl
  · have hnot : (root, path) ∉ heads := by
      intro hmem
      obtain ⟨k, -, heq⟩ := List.mem_map.mp hmem
      exact hway ((Prod.mk.inj heq).2 ▸ List.take_prefix _ _)
    rw [List.count_eq_zero_of_not_mem hnot, decide_eq_false hway]
    rfl

/-- The unit enters the context if it replays its test through it, and enters it once then. -/
def TestUnit.SetsUp (root : Nat) (path : NamePath) (u : TestUnit) : Prop :=
  ∀ w : World, (w.runUnit u).2.book.entrances.count (root, path)
    = w.book.entrances.count (root, path) + ((Cell.suspended u).replays path).toNat

theorem TestUnit.setsUp_direct (root : Nat) (path : NamePath) (d : Description) (body : Body)
    (scope : Scope) (shelf : Nat) : (direct d body scope shelf).SetsUp root path := by
  intro w
  have hframe := (Body.run_framed (t := ⟨d, w.listener, scope⟩) (Q := fun _ => True)
    (Notebook.frame_deeds scope) trivial body
    ⟨w.shelf shelf, w.book.add (.ran scope.root d.path)⟩).book
  refine congrArg (List.count (root, path)) ?_
  refine (Notebook.entrances_sweep _ _).trans ?_
  exact (Notebook.entrances_of_deeds (congrArg Prod.fst hframe)).trans (Notebook.entrances_add _ _)

theorem TestUnit.setsUp_replayed {r : RootContext} {p : Plan} (h : r.builder.Declares p)
    (hd : p.Distinct) {d : Description} (ht : d ∈ p.tests r.context) {path : NamePath}
    (hpath : path ≠ []) : (replayed d r).SetsUp r.index path := by
  intro w
  obtain ⟨-, hdeeds⟩ := r.replay_listed h hd ht w.listener w.book
  show (replay w.listener r d w.book).2.entrances.count _ = _
  rw [Notebook.entrances_eq_deeds, hdeeds, List.filterMap_cons, List.filterMap_append,
    ← Notebook.entrances_eq_deeds]
  show (_ ++ _ : List _).count _ = _
  rw [List.count_append, count_entries r.index hpath, Nat.add_comm]
  rfl

namespace Finding

/-- **The unit of a listed test sets up the contexts on its way, if it is a replay.** -/
theorem HeldBy.setsUp {r : RootContext} {p : Plan} {v : World} {f : Finding} {h : Handle}
    (hb : r.builder.Declares p) (hd : p.Distinct) (hf : f ∈ r.findings p)
    (hheld : f.HeldBy r v.cells h) {u : TestUnit} (hu : v.cell h.cell = .suspended u)
    {path : NamePath} (hpath : path ≠ []) : u.SetsUp r.index path := by
  obtain ⟨d, body, rfl, rfl | ⟨scope, shelf, -, rfl⟩⟩ := hheld.of_suspended hu
  · exact TestUnit.setsUp_replayed hb hd (mem_tests hf) hpath
  · exact TestUnit.setsUp_direct _ _ _ _ _ _

end Finding

/-- The unit of the cell waits, or was cancelled before it began. -/
def Cell.isUnrun : Cell TestUnit Outcome → Bool
  | .suspended _ => true
  | .cancelled => true
  | _ => false

namespace World

variable {u v w : World} {root : Nat} {path : NamePath} {hs : List Handle} {h : Handle}

/-- The handle was to be replayed through the context in the world `v`, and has not been up to
`w`. -/
def owes (path : NamePath) (v w : World) (h : Handle) : Bool :=
  (v.cell h.cell).replays path && (w.cell h.cell).isUnrun

/-- How often the context was set up, and was to be set up by handles of `hs` that have not run. -/
def account (root : Nat) (path : NamePath) (hs : List Handle) (v w : World) : Nat :=
  w.book.entrances.count (root, path) + hs.countP (owes path v w)

/-- What moves of handles have done between `v` and `w`: a replay that began has entered the context
once, and one that the listener kept from beginning has not. -/
structure Pays (root : Nat) (path : NamePath) (hs : List Handle) (v w : World) : Prop where
  listener : w.listener = v.listener
  cells : ∀ h ∈ hs, v.KeepsCell w h.cell
  most : account root path hs v w ≤ account root path hs v v
  exact : v.listener.Calm → account root path hs v w = account root path hs v v

/-- One handle less. -/
theorem countP_one {f g : Handle → Bool} (hnd : (hs.map Handle.cell).Nodup) (hh : h ∈ hs)
    (hg : g h = false) (hother : ∀ k ∈ hs, k.cell ≠ h.cell → f k = g k) :
    hs.countP f = hs.countP g + (f h).toNat := by
  cases hf : f h with
  | true =>
    have hperm := perm_filterMap (f := Option.guard g) (g := Option.guard f) (b := h) hnd hh
      (by simp [Option.guard, hg]) (by simp [Option.guard, hf]) fun k hk hc => by
        simp [Option.guard, hother k hk hc]
    have hlen := hperm.length_eq
    rwa [List.filterMap_eq_filter, List.filterMap_eq_filter, List.length_cons,
      ← List.countP_eq_length_filter, ← List.countP_eq_length_filter] at hlen
  | false =>
    refine List.countP_congr fun k hk => ?_
    by_cases hc : k.cell = h.cell
    · obtain rfl : k = h := List.inj_on_of_nodup_map hnd hk hh hc
      rw [hf, hg]
    · rw [hother k hk hc]

theorem account_congr (hb : u.book.entrances = w.book.entrances)
    (hc : ∀ h ∈ hs, owes path v u h = owes path v w h) :
    account root path hs v u = account root path hs v w := by
  rw [account, account, hb, List.countP_congr fun h hh => by rw [hc h hh]]

/-- A step that pays nothing. -/
theorem Pays.keep (hv : Pays root path hs v w) (hl : u.listener = w.listener)
    (hk : ∀ h ∈ hs, w.KeepsCell u h.cell)
    (ha : account root path hs v u = account root path hs v w) : Pays root path hs v u where
  listener := hl.trans hv.listener
  cells h hh := (hv.cells h hh).trans (hk h hh)
  most := by
    rw [ha]
    exact hv.most
  exact hcalm := by
    rw [ha]
    exact hv.exact hcalm

theorem Pays.rest (hv : Pays root path hs v w) (hr : w.Rests u) : Pays root path hs v u := by
  have hcell := congrFun (cell_congr hr.cells)
  refine hv.keep hr.listener (fun h _ => .inl (hcell _)) ?_
  refine account_congr (Notebook.entrances_of_acts hr.acts) fun h _ => ?_
  rw [owes, owes, hcell]

/-- A test that is cancelled sets up nothing, and would have. -/
theorem Pays.cancel (hv : Pays root path hs v w) (hh : h ∈ hs) :
    Pays root path hs v (w.cancel h).2 := by
  have hkeeps : ∀ i, w.KeepsCell (w.cancel h).2 i := fun i => (Move.cancel hh).keepsCell
  by_cases hu : ∃ unit, w.cell h.cell = .suspended unit
  · obtain ⟨unit, hu⟩ := hu
    rw [cancel_eq hu] at hkeeps ⊢
    refine hv.keep (listener_withdrawn _ _ _) (fun k _ => hkeeps k.cell) ?_
    refine account_congr ?_ fun k _ => ?_
    · show ((w.setCell h.cell .cancelled).dropUnit unit).book.entrances = _
      exact Notebook.entrances_of_deeds (deeds_dropUnit (w.setCell h.cell .cancelled) unit)
    · by_cases hc : k.cell = h.cell
      · rw [owes, owes, hc, cell_withdrawn_self hu, hu]
        rfl
      · rw [owes, owes, cell_withdrawn_of_ne hc]
  · rw [cancel_of_ne fun unit hc => hu ⟨unit, hc⟩]
    exact hv

/-- A unit that runs sets up what it was to set up, unless the listener panics when it begins. -/
theorem entrances_runCell {i : Nat} {unit : TestUnit} (hu : w.cell i = .suspended unit)
    (hsets : unit.SetsUp root path) :
    (¬ w.listener.Calm ∧ (w.runCell i).2.book.entrances.count (root, path)
        = w.book.entrances.count (root, path)) ∨
      (w.runCell i).2.book.entrances.count (root, path)
        = w.book.entrances.count (root, path) + ((Cell.suspended unit).replays path).toNat := by
  obtain ⟨c, book, shelves, hw, -, told, htold⟩ := runCell_eq hu
  rw [hw]
  -- what the listener is told enters no builder
  have hdeeds : ∀ n : Notebook, book.deeds = told.map .notified ++ n.deeds →
      book.entrances = n.entrances := by
    intro n hn
    have hnone : (told.map Event.notified).filterMap Event.entered? = [] := by
      rw [List.filterMap_map]
      exact List.filterMap_eq_nil_iff.mpr fun _ _ => rfl
    rw [Notebook.entrances_eq_deeds, hn, List.filterMap_append, hnone, List.nil_append,
      ← Notebook.entrances_eq_deeds]
  rcases htold with ⟨hcalm, hd⟩ | hd
  · exact .inl ⟨hcalm, congrArg (List.count _) (hdeeds _ hd)⟩
  · exact .inr ((congrArg (List.count _) (hdeeds _ hd)).trans (hsets _))

/-- A handle whose unit has come to its end owes nothing any more. -/
theorem Pays.ended (hv : Pays root path hs v w) (hnd : (hs.map Handle.cell).Nodup) (hh : h ∈ hs)
    {unit : TestUnit} (hu : w.cell h.cell = .suspended unit) {c : Cell TestUnit Outcome}
    (hc : c.isSuspended = false ∧ c.isUnrun = false) (hcells : u.cells = w.cells.set h.cell c)
    (hl : u.listener = w.listener)
    (hsets : (¬ w.listener.Calm ∧
        u.book.entrances.count (root, path) = w.book.entrances.count (root, path)) ∨
      u.book.entrances.count (root, path)
        = w.book.entrances.count (root, path) + ((Cell.suspended unit).replays path).toNat) :
    Pays root path hs v u := by
  have hvu := (hv.cells h hh).eq_suspended hu
  have hbefore : owes path v w h = (Cell.suspended unit).replays path := by
    rw [owes, hvu, hu]
    exact Bool.and_true _
  have hbehind : owes path v u h = false := by
    rw [owes, cell_of_set hcells (lt_of_suspended hu), hc.2, Bool.and_false]
  have hone : hs.countP (owes path v w) = hs.countP (owes path v u) + (owes path v w h).toNat :=
    countP_one hnd hh hbehind fun k _ hk => by rw [owes, owes, cell_of_set_ne hcells hk]
  rw [hbefore] at hone
  refine ⟨hl.trans hv.listener,
    fun k hk => (hv.cells k hk).trans (keepsCell_set hu hc.1 hcells), ?_,
    fun hcalm => ?_⟩
  · have hmost := hv.most
    rw [account] at hmost ⊢
    rcases hsets with ⟨-, hsets⟩ | hsets
    · omega
    · omega
  · rw [← hv.exact hcalm, account, account]
    rcases hsets with ⟨hpanics, -⟩ | hsets
    · rw [hv.listener] at hpanics
      exact absurd hcalm hpanics
    · omega

theorem Pays.run (hv : Pays root path hs v w) (hnd : (hs.map Handle.cell).Nodup)
    (hunits : ∀ h ∈ hs, ∀ unit, v.cell h.cell = .suspended unit → unit.SetsUp root path)
    (hh : h ∈ hs) : Pays root path hs v (w.runCell h.cell).2 := by
  by_cases hu : ∃ unit, w.cell h.cell = .suspended unit
  · obtain ⟨unit, hu⟩ := hu
    have hsets := hunits h hh unit ((hv.cells h hh).eq_suspended hu)
    obtain ⟨c, book, shelves, hran, hc, -⟩ := runCell_eq hu
    refine hv.ended hnd hh hu (c := c) ?_ ?_ ?_ (entrances_runCell hu hsets)
    · rcases hc with rfl | ⟨o, rfl⟩
      · exact ⟨rfl, rfl⟩
      · exact ⟨rfl, rfl⟩
    · rw [hran]
    · rw [hran]
  · rw [runCell_of_ne fun unit hc => hu ⟨unit, hc⟩]
    exact hv

/-- **Whatever is done with handles pays what they owe, and no more.** -/
theorem Pays.move (hnd : (hs.map Handle.cell).Nodup)
    (hunits : ∀ h ∈ hs, ∀ unit, v.cell h.cell = .suspended unit → unit.SetsUp root path)
    (hm : Move hs w u) (hv : Pays root path hs v w) : Pays root path hs v u := by
  cases hm with
  | rest hr => exact hv.rest hr
  | run hh => exact hv.run hnd hunits hh
  | cancel hh => exact hv.cancel hh

theorem owes_self (v : World) : owes path v v = fun h => (v.cell h.cell).replays path := by
  funext h
  rw [owes]
  cases v.cell h.cell with
  | suspended unit => exact Bool.and_true _
  | _ => rfl

theorem pays_refl (root : Nat) (path : NamePath) (hs : List Handle) (v : World) :
    Pays root path hs v v :=
  ⟨rfl, fun _ _ => .inl rfl, Nat.le_refl _, fun _ => rfl⟩

/-- Where every handle has run, or is known, nothing is owed. -/
theorem account_final (hfinal : ∀ h ∈ hs, (w.cell h.cell).isDone = true ∧ w.cell h.cell ≠ .cancelled) :
    account root path hs v w = w.book.entrances.count (root, path) := by
  have hnone : hs.countP (owes path v w) = 0 := by
    refine List.countP_eq_zero.mpr fun h hh => ?_
    obtain ⟨hdone, hc⟩ := hfinal h hh
    rw [owes, Bool.and_eq_true, not_and]
    intro _
    cases hcell : w.cell h.cell with
    | suspended unit =>
      rw [hcell] at hdone
      cases hdone
    | cancelled => exact absurd hcell hc
    | _ => exact Bool.false_ne_true
  rw [account, hnone, Nat.add_zero]

/-- Handles that were made are counted by their cells. -/
theorem Adds.replays_eq (h : v.Adds w hs) :
    w.replays path = v.replays path + hs.countP fun k => (w.cell k.cell).replays path := by
  obtain ⟨more, hmore⟩ := h.cells
  have hlen := h.length
  rw [← hmore, List.length_append] at hlen
  have hnew : hs.map (fun k => w.cell k.cell) = more := by
    rw [show hs.map (fun k => w.cell k.cell) = (hs.map Handle.cell).map w.cell by
      rw [List.map_map]; rfl, h.handles]
    refine List.ext_getElem (by simp; omega) fun n hn hm => ?_
    rw [List.getElem_map, List.getElem_range', cell, ← hmore, Nat.one_mul,
      List.getElem?_append_right (Nat.le_add_right _ _), Nat.add_sub_cancel_left,
      List.getElem?_eq_getElem hm]
    rfl
  rw [replays, replays, ← hmore, List.countP_append, ← hnew, List.countP_map]
  rfl

end World

namespace RootContext

variable {r : RootContext} {p : Plan}

/-- **A context is set up once for each test inside it, and one more time if the last visit that
discovery makes to it meets no test.**  Visits and replays count together, whatever is done with the
handles; they come to exactly as many once every test has run, unless the listener panics.  Where
every context declares tests, no visit meets none. -/
theorem setups_counted (h : r.builder.Declares p) (hd : p.Distinct) (hs : p.Sound) {w : World}
    (hw : r.CalmFor p w.listener) (hq : w.pool.queue = []) :
    ∃ d v, r.discover w = (.ok (.ok d), v) ∧
      ∀ us : List Use, (∀ u ∈ us, ∀ t ∈ u.handles, t ∈ d.tests) →
        ∀ k i, (k, i) ∈ (r.context, p) :: p.inside r.context →
          let setups := (v.useAll us).book.entrances.count (r.index, k.path)
          let before := w.book.entrances.count (r.index, k.path)
          setups ≤ before + (i.tests k).length + (if i.idles then 1 else 0) ∧
          (i.Busy → i.tests k ≠ [] → setups ≤ before + (i.tests k).length) ∧
          (w.listener.Calm → (∀ t ∈ d.tests, ((v.useAll us).cell t.cell).isDone = true ∧
              (v.useAll us).cell t.cell ≠ .cancelled) →
            setups = before + (i.tests k).length + (if i.idles then 1 else 0)) := by
  obtain ⟨d, v, hdv, k, hsetups⟩ := discover_setups h hd hs hw
  obtain ⟨hs', hts, hl⟩ := k.lists
  rw [List.nil_append] at hts
  subst hts
  refine ⟨d, v, hdv, fun us hus k i hk => ?_⟩
  have hpath : k.path ≠ [] := k.path_ne_nil
  obtain ⟨hmoves, -⟩ := World.useAll_moves hus v (hl.adds.within (World.within_nil hq))
  have hpays : World.Pays r.index k.path d.tests v (v.useAll us) := by
    refine hmoves.keep (fun hm hv => hv.move hl.adds.nodup ?_ hm) (World.pays_refl _ _ _ v)
    intro t ht unit hu
    obtain ⟨f, hf, hheld⟩ := exists_of_forall₂ hl.held ht
    exact hheld.setsUp h hd (List.mem_of_mem_filter hf) hu hpath
  -- what the handles owe in the beginning is what discovery has left to replays
  have hstart : World.account r.index k.path d.tests v v
      = w.book.entrances.count (r.index, k.path) + i.due := by
    have hall := hsetups k.path hpath
    rw [World.setups, World.setups, hl.adds.replays_eq, hd.bill_of_mem hk] at hall
    rw [World.account, World.owes_self]
    omega
  have hdue : i.due = (i.tests k).length + if i.idles then 1 else 0 := by
    rw [Plan.due, Plan.length_tests]
    cases i.idles <;> rfl
  rw [hdue, ← Nat.add_assoc] at hstart
  have hmost := hpays.most
  have hexact := hpays.exact
  rw [hstart] at hmost hexact
  have hbound := (Nat.le_add_right _ _).trans hmost
  refine ⟨hbound, fun hbusy ht => ?_, fun hcalm hfinal => ?_⟩
  · have hcount : 0 < i.testCount := by
      rw [← i.length_tests k]
      exact List.length_pos_iff.mpr ht
    rwa [hbusy.idles (hs.of_mem hk) hcount] at hbound
  · rw [← hexact (hl.adds.listener ▸ hcalm), World.account_final hfinal]

end RootContext

/-- A root with a test, and a context without one behind it. -/
def trailingRoot : RootContext :=
  ⟨0, "root", false, .site 0,
    .basic (.log "setup") <| .test "t" (.site 1) .done false <|
    .context "c" (.site 2) .done false .done⟩

/-- What the root declares. -/
def trailingPlan : Plan :=
  .test "t" (.site 1) .done <| .context "c" (.site 2) false (.stop .finished) <| .stop .finished

theorem trailingRoot_declares : trailingRoot.builder.Declares trailingPlan :=
  .basic rfl (.test (.context .done .done))

theorem trailingPlan_distinct : trailingPlan.Distinct := by
  simp [trailingPlan, Plan.Distinct, Plan.names]

theorem trailingPlan_sound : trailingPlan.Sound :=
  ⟨rfl, rfl⟩

/-- The last visit of the root finds the context behind its test. -/
theorem trailingPlan_idles : trailingPlan.idles = true := by
  rw [Plan.idles_of_leaves rfl, Plan.idles_of_not_leaves rfl]
  rfl

/-- The root is set up twice, for its test and for the context behind it, and the context once. -/
theorem setups_counted_trailingRoot :
    ∃ d v, trailingRoot.discover (.fresh (.held 1) .silent .lazy) = (.ok (.ok d), v) ∧
      ∀ us : List Use, (∀ u ∈ us, ∀ t ∈ u.handles, t ∈ d.tests) →
        (v.useAll us).book.entrances.count (0, ["root"]) ≤ 2 ∧
        ((∀ t ∈ d.tests, ((v.useAll us).cell t.cell).isDone = true ∧
            (v.useAll us).cell t.cell ≠ .cancelled) →
          (v.useAll us).book.entrances.count (0, ["root", "c"]) = 1) := by
  obtain ⟨d, v, hd, hall⟩ := RootContext.setups_counted trailingRoot_declares trailingPlan_distinct
    trailingPlan_sound (w := .fresh (.held 1) .silent .lazy)
    (RootContext.calmFor_of_calm fun _ => rfl) rfl
  refine ⟨d, v, hd, fun us hus => ⟨?_, fun hfinal => ?_⟩⟩
  · obtain ⟨hbound, -⟩ := hall us hus _ _ List.mem_cons_self
    rwa [trailingPlan_idles] at hbound
  · obtain ⟨-, -, hexact⟩ := hall us hus _ _ (List.mem_cons_of_mem _ List.mem_cons_self)
    have hone := hexact (fun _ => rfl) hfinal
    rwa [Plan.idles_of_not_leaves rfl] at hone

/-- **Setup code can be repeated more often than there are tests.**  The root is entered again only
to find the context behind its one test. -/
theorem trailingRoot_entered_twice : trailingRoot.builder.Declares trailingPlan ∧
    trailingPlan.Distinct ∧ trailingPlan.Sound ∧
    (trailingPlan.tests trailingRoot.context).length = 1 ∧
    ∀ policy : StartPolicy, ∃ d v,
      trailingRoot.discover (.fresh (.held 1) .silent policy) = (.ok (.ok d), v) ∧
        (∀ t ∈ d.tests, ((v.use (.waitAll d.tests)).cell t.cell).isDone = true ∧
          (v.use (.waitAll d.tests)).cell t.cell ≠ .cancelled) ∧
        (v.use (.waitAll d.tests)).book.entrances.count (0, ["root"]) = 2 := by
  refine ⟨trailingRoot_declares, trailingPlan_distinct, trailingPlan_sound, rfl, fun policy => ?_⟩
  cases policy
  · exact ⟨_, _, rfl, List.forall_mem_cons.mpr ⟨⟨rfl, nofun⟩, nofun⟩, rfl⟩
  · exact ⟨_, _, rfl, List.forall_mem_cons.mpr ⟨⟨rfl, nofun⟩, nofun⟩, rfl⟩

end TestTree

/-
What the run of a unit depends on, and what it leaves alone.

* `Notebook.record` : what happened, without diagnostics and without the numbers of registrations;
* `Notebook.account` : what happened while the test of a path ran;
* `Notebook.Mirrors` : local variables of two scopes agree, and the same was added to two records;
* `World.FindsSame` : two worlds in which a unit finds the same shelf and the same variables;
* `World.FindsSame.tells` : **the unit ends alike in both and adds the same to both records**;
* `World.FindsSame.run_usesUnit`, `drop_usesUnit` : a unit leaves all other shelves and variables
  alone.
-/
import TestTree.Proofs.Locality
import TestTree.Proofs.Uses

namespace TestTree

/-! ### Records -/

@[simp] theorem Event.isAct_unnumbered (e : Event) : e.unnumbered.isAct = e.isAct := by
  cases e <;> rfl

@[simp] theorem Event.isBoundary_unnumbered (e : Event) : e.unnumbered.isBoundary = e.isBoundary := by
  cases e <;> rfl

/-- The test of a path is started. -/
def Event.starts (path : NamePath) : Event → Bool
  | .notified (.started d) => d.path == path
  | _ => false

/-- The test of a path is finished. -/
def Event.finishes (path : NamePath) : Event → Bool
  | .notified (.finished o) => o.test.path == path
  | _ => false

namespace Notebook

/-- What happened, the latest first: neither diagnostics nor the numbers of registrations count. -/
def record (n : Notebook) : List Event :=
  n.acts.map Event.unnumbered

theorem record_add (n : Notebook) (e : Event) :
    (n.add e).record = (if e.isAct then [e.unnumbered] else []) ++ n.record := by
  cases h : e.isAct <;> simp [record, acts, add, h]

/-- What happened between the start and the end of the test of a path, in order: builders that were
entered, lines, the body, and callbacks that were registered and closed. -/
def account (n : Notebook) (path : NamePath) : List Event :=
  (((n.record.dropWhile fun e => !e.finishes path).drop 1).takeWhile fun e => !e.starts path).reverse

/-- No test is started or finished. -/
def Inner (es : List Event) : Prop :=
  ∀ e ∈ es, e.isBoundary = false

variable {n m : Notebook} {es : List Event} {d : Description} {path : NamePath}

theorem Inner.starts (h : Inner es) : ∀ e ∈ es, (!e.starts path) = true := by
  intro e he
  have hb := h e he
  cases e with
  | notified n => cases n <;> first | rfl | cases hb
  | _ => rfl

theorem Inner.finishes (h : Inner es) : ∀ e ∈ es, (!e.finishes path) = true := by
  intro e he
  have hb := h e he
  cases e with
  | notified n => cases n <;> first | rfl | cases hb
  | _ => rfl

theorem account_ran (h : Inner es) {o : Outcome} (ho : o.test = d)
    (hm : m.record = .notified (.finished o) :: (es ++ .notified (.started d) :: n.record)) :
    m.account d.path = es.reverse := by
  have hfinish : (Event.notified (.finished o)).finishes d.path = true := by simp [Event.finishes, ho]
  have hstart : (Event.notified (.started d)).starts d.path = true := by simp [Event.starts]
  rw [account, hm, List.dropWhile_cons_of_neg (by simp [hfinish]), List.drop_one, List.tail_cons,
    List.takeWhile_append_of_pos h.starts, List.takeWhile_cons_of_neg (by simp [hstart]),
    List.append_nil]

theorem account_eq (hm : m.record = es ++ n.record) (h : ∀ e ∈ es, (!e.finishes path) = true) :
    m.account path = n.account path := by
  rw [account, hm, List.dropWhile_append_of_pos h, account]

/-! ### Mirrored notebooks -/

/-- The scopes `s` and `t` have equal variables in the two notebooks, and the same was added to the
records `b` and `c`. -/
structure Mirrors (s t : Scope) (b c : List Event) (n m : Notebook) : Prop where
  locals : m.locals t.invocation = n.locals s.invocation
  record : ∃ es, Inner es ∧ n.record = es ++ b ∧ m.record = es ++ c

variable {s t : Scope} {b c : List Event}

theorem mirrors_refl (h : m.locals t.invocation = n.locals s.invocation) :
    Mirrors s t n.record m.record n m :=
  ⟨h, [], nofun, rfl, rfl⟩

theorem simulates_mirrors (h : t.root = s.root) : Simulates s t (Mirrors s t b c) where
  root := h
  read h := congrFun h.locals _
  write name v h := by
    refine ⟨?_, h.record⟩
    funext m
    rw [locals_write, locals_write, h.locals]
    simp
  event := by
    intro n m e f ⟨hl, es, hes, hn, hm⟩ he hf
    -- the two events are equal but for a number, so both records get the same or nothing
    have hact : f.isAct = e.isAct := by
      rw [← Event.isAct_unnumbered, hf, Event.isAct_unnumbered]
    refine ⟨hl, (if e.isAct then [e.unnumbered] else []) ++ es, ?_, ?_, ?_⟩
    · intro e' he'
      rcases List.mem_append.mp he' with he' | he'
      · split at he'
        · rw [List.mem_singleton.mp he', Event.isBoundary_unnumbered]
          exact he
        · cases he'
      · exact hes e' he'
    · rw [record_add, hn, List.append_assoc]
    · rw [record_add, hm, hact, hf, List.append_assoc]
  serial _ _ h := ⟨h.locals, h.record⟩

end Notebook

/-! ### Units that run -/

/-- Everything but one shelf and the variables of one invocation. -/
theorem Notebook.frame_rest {s : Scope} {k : Nat} (h : s.invocation ≠ k) :
    Frame (fun n => (n.locals k, n.invocations)) s where
  perform n res b := Prod.ext ((frame_locals h).perform n res b) (invocations_perform n s res b)
  event _ _ _ := rfl
  serial _ _ := rfl

namespace World

variable {r : RootContext} {v w : World} {u : TestUnit}

/-- The unit finds in `w` what it finds in `v`. -/
inductive FindsSame (r : RootContext) (v w : World) : TestUnit → Prop
  | direct {d : Description} {body : Body} {k : Nat} (hb : body.IsLocal)
      (hv : k < v.shelves.length) (hw : k < w.shelves.length) (hk : k < w.book.invocations)
      (hl : w.book.locals k = v.book.locals k)
      (hs : Shelf.Agree ⟨r.index, k⟩ ⟨r.index, k⟩ (v.shelf k) (w.shelf k)) :
      FindsSame r v w (.direct d body ⟨r.index, k⟩ k)
  | replayed {d : Description} (hb : r.builder.IsLocal)
      (hl : w.book.locals w.book.invocations = v.book.locals v.book.invocations) :
      FindsSame r v w (.replayed d r)

/-- The unit has the result `res` and adds `es` to the record. -/
structure Tells (w : World) (u : TestUnit) (res : TestResult) (es : List Event) : Prop where
  result : (w.runUnit u).1 = .ok res
  inner : Notebook.Inner es
  record : (w.runUnit u).2.book.record = es ++ w.book.record

/-- The world `w` comes from `v` while the unit `u` runs or is dropped. -/
structure UsesUnit (u : TestUnit) (v w : World) : Prop where
  /-- No other test is finished. -/
  record : ∃ es, (∀ path, path ≠ u.test.path → ∀ e ∈ es, (!e.finishes path) = true) ∧
    w.book.record = es ++ v.book.record
  shelves : w.shelves.length = v.shelves.length
  invocations : v.book.invocations ≤ w.book.invocations
  /-- Shelves that the unit does not own, and variables of invocations that it does not begin. -/
  others : ∀ k, u.shelf? ≠ some k → k < v.book.invocations ∨ w.book.invocations ≤ k →
    w.shelf k = v.shelf k ∧ w.book.locals k = v.book.locals k

theorem UsesUnit.refl (u : TestUnit) (w : World) : UsesUnit u w w :=
  ⟨⟨[], nofun, rfl⟩, rfl, Nat.le_refl _, fun _ _ _ => ⟨rfl, rfl⟩⟩

theorem UsesUnit.trans {z : World} (h : UsesUnit u v w) (k : UsesUnit u w z) : UsesUnit u v z := by
  obtain ⟨es, hes, hw⟩ := h.record
  obtain ⟨fs, hfs, hz⟩ := k.record
  refine ⟨⟨fs ++ es, fun path hp e he => ?_, by rw [hz, hw, List.append_assoc]⟩,
    k.shelves.trans h.shelves, h.invocations.trans k.invocations, fun i hi hk => ?_⟩
  · exact (List.mem_append.mp he).elim (hfs path hp e) (hes path hp e)
  · have hinv := h.invocations
    have hinv' := k.invocations
    obtain ⟨hs, hl⟩ := h.others i hi (by omega)
    obtain ⟨hs', hl'⟩ := k.others i hi (by omega)
    exact ⟨hs'.trans hs, hl'.trans hl⟩

/-- Cells and notices about the test of the unit are its own. -/
theorem usesUnit_add (w : World) {e : Event}
    (he : ∀ path, path ≠ u.test.path → (!e.finishes path) = true)
    (cells : List (Cell TestUnit Outcome)) :
    UsesUnit u w { w with book := w.book.add e, cells } := by
  refine ⟨⟨_, fun path hp e' he' => ?_, w.book.record_add e⟩, rfl, Nat.le_refl _,
    fun _ _ _ => ⟨rfl, rfl⟩⟩
  split at he'
  · rw [List.mem_singleton.mp he']
    have := he path hp
    cases e <;> first | rfl | exact this
  · cases he'

/-- What a unit finds depends on shelves and variables only. -/
theorem FindsSame.congr {z : World} (h : FindsSame r v w u) (hs : z.shelves = w.shelves)
    (hb : z.book.store = w.book.store) (hi : z.book.invocations = w.book.invocations) :
    FindsSame r v z u := by
  have hlocals : ∀ k, z.book.locals k = w.book.locals k := by
    intro k
    funext name
    exact congrArg (fun st : Store => st.read (.invocation k) name) hb
  cases h with
  | direct hb hv hw hk hl ha =>
    refine .direct hb hv (by rwa [hs]) (by rwa [hi]) ((hlocals _).trans hl) ?_
    unfold shelf at ha ⊢
    rwa [hs]
  | replayed hb hl =>
    refine .replayed hb ?_
    rw [hi, hlocals, hl]

/-- What a unit finds is not changed by another one, which owns another shelf. -/
theorem FindsSame.keep {z : World} {u' : TestUnit} (h : FindsSame r v w u) (hl : UsesUnit u' w z)
    (hne : ∀ k, u.shelf? = some k → u'.shelf? ≠ some k)
    (hz : z.book.locals z.book.invocations = v.book.locals v.book.invocations) :
    FindsSame r v z u := by
  cases h with
  | @direct d body k hb hv hw hk hlocals ha =>
    obtain ⟨hshelf, hvars⟩ := hl.others k (hne k rfl) (.inl hk)
    refine .direct hb hv (by rwa [hl.shelves]) (Nat.lt_of_lt_of_le hk hl.invocations)
      (hvars.trans hlocals) ?_
    rw [hshelf]
    exact ha
  | replayed hb _ => exact .replayed hb hz

theorem runUnit_direct {d : Description} {body : Body} {s : Scope} {k : Nat}
    (hk : k < w.shelves.length) : w.runUnit (.direct d body s k)
      = (.ok ((body.execute ⟨d, w.listener, s⟩ ⟨w.shelf k, w.book⟩).2.conclude
          (body.execute ⟨d, w.listener, s⟩ ⟨w.shelf k, w.book⟩).1).1,
        w.putCloset k ⟨[], ((body.execute ⟨d, w.listener, s⟩ ⟨w.shelf k, w.book⟩).2.conclude
          (body.execute ⟨d, w.listener, s⟩ ⟨w.shelf k, w.book⟩).1).2⟩) := by
  rw [runUnit]
  dsimp only
  generalize body.execute ⟨d, w.listener, s⟩ ⟨w.shelf k, w.book⟩ = e
  rw [closeShelf, shelf_putCloset_self hk]
  refine Prod.ext rfl ?_
  show ((w.putCloset k e.2).putCloset k ⟨[], (e.2.book.sweep e.2.shelf).2⟩) = _
  rw [putCloset, putCloset, List.set_set]
  rfl

section Tells

variable {d : Description} (hv : v.listener.Calm) (hw : w.listener.Calm)
include hv hw

/-- A direct unit, by the agreement of its body and of what is closed behind it. -/
theorem tells_direct {body : Body} {k : Nat} (hb : body.IsLocal) (hkv : k < v.shelves.length)
    (hkw : k < w.shelves.length) (hl : w.book.locals k = v.book.locals k)
    (hs : Shelf.Agree ⟨r.index, k⟩ ⟨r.index, k⟩ (v.shelf k) (w.shelf k)) :
    ∃ res es, v.Tells (.direct d body ⟨r.index, k⟩ k) res es ∧
      w.Tells (.direct d body ⟨r.index, k⟩ k) res es := by
  let s : Scope := ⟨r.index, k⟩
  have S : Notebook.Simulates s s (Notebook.Mirrors s s v.book.record w.book.record) :=
    Notebook.simulates_mirrors rfl
  have hbook : Notebook.Mirrors s s v.book.record w.book.record v.book w.book :=
    Notebook.mirrors_refl hl
  -- the body runs over what its pass registered
  have hclosets : Closet.Agree s s _ ⟨v.shelf k, v.book⟩ ⟨w.shelf k, w.book⟩ := ⟨hs, hbook⟩
  obtain ⟨hf, hc⟩ := Body.execute_agree d S hv hw hb hclosets
  obtain ⟨hres, -, es, hes, hbv, hbw⟩ := Closet.conclude_agree S hc
    (body.execute ⟨d, v.listener, s⟩ ⟨v.shelf k, v.book⟩).1
  have hev : v.runUnit (.direct d body s k) = _ := runUnit_direct hkv
  have hew : w.runUnit (.direct d body s k) = _ := runUnit_direct hkw
  rw [hf] at hew
  refine ⟨_, es, ⟨congrArg Prod.fst hev, hes, ?_⟩,
    ⟨(congrArg Prod.fst hew).trans (congrArg Except.ok hres), hes, ?_⟩⟩
  · rw [hev]
    exact hbv
  · rw [hew]
    exact hbw

/-- A replay, by the agreement of its walk; the two are in scopes of their own. -/
theorem tells_replayed (hb : r.builder.IsLocal)
    (hl : w.book.locals w.book.invocations = v.book.locals v.book.invocations) :
    ∃ res es, v.Tells (.replayed d r) res es ∧ w.Tells (.replayed d r) res es := by
  let s : Scope := ⟨r.index, v.book.invocations⟩
  let t : Scope := ⟨r.index, w.book.invocations⟩
  have S : Notebook.Simulates s t (Notebook.Mirrors s t v.book.record w.book.record) :=
    Notebook.simulates_mirrors rfl
  have hbook : Notebook.Mirrors s t v.book.record w.book.record v.book w.book :=
    Notebook.mirrors_refl hl
  have htraced := S.event (e := .traced ⟨.debug, "replaying test", [("test", d.display)]⟩) hbook
    rfl rfl
  have hentered := S.event (e := .entered r.index (d.container.path.take 1)) htraced rfl rfl
  have hbegin : Replay.Agree s t (Notebook.Mirrors s t v.book.record w.book.record)
      ⟨⟨[], (v.book.replaying r d).2⟩, .undecided⟩ ⟨⟨[], (w.book.replaying r d).2⟩, .undecided⟩ :=
    ⟨⟨.nil, hentered.locals, hentered.record⟩, rfl⟩
  have hwalk : (r.replayWalk v.listener d v.book).Agree (Replay.Agree s t _)
      (r.replayWalk w.listener d w.book) := Builder.replay_agree d S hv hw hb 0 hbegin
  obtain ⟨hres, -, es, hes, hbv, hbw⟩ := Closet.conclude_agree S hwalk.2.closet
    (Replay.verdict d (r.replayWalk v.listener d v.book))
  rw [← replay_eq] at hres hbv
  rw [← Replay.verdict_agree d hwalk, ← replay_eq] at hres hbw
  exact ⟨_, es, ⟨rfl, hes, hbv⟩, ⟨congrArg Except.ok hres, hes, hbw⟩⟩

/-- **A unit ends alike in two worlds that look the same to it, and does the same.** -/
theorem FindsSame.tells (h : FindsSame r v w u) :
    ∃ res es, v.Tells u res es ∧ w.Tells u res es := by
  cases h with
  | direct hb hkv hkw _ hl hs => exact tells_direct hv hw hb hkv hkw hl hs
  | replayed hb hl => exact tells_replayed hv hw hb hl

end Tells

theorem conclude_frame {α : Type} {f : Notebook → α} (c : Closet Closure)
    (h : ∀ q ∈ c.shelf, Notebook.Frame f q.close.scope) (failure : Option Failure) :
    f (c.conclude failure).2 = f c.book :=
  Notebook.sweep_frame c.shelf h c.book

/-- A direct unit touches the variables of its own invocation only, and invokes no builder. -/
theorem locals_direct {d : Description} {body : Body} {k i : Nat} (hk : k < w.shelves.length)
    (hs : ∀ q ∈ w.shelf k, q.close.scope = ⟨r.index, k⟩) (hi : i ≠ k) :
    (w.runUnit (.direct d body ⟨r.index, k⟩ k)).2.book.locals i = w.book.locals i ∧
      (w.runUnit (.direct d body ⟨r.index, k⟩ k)).2.book.invocations = w.book.invocations := by
  have F := Notebook.frame_rest (s := ⟨r.index, k⟩) (k := i) (Ne.symm hi)
  have hinit : ∀ q ∈ w.shelf k, Notebook.Frame (fun n => (n.locals i, n.invocations))
      q.close.scope := by
    intro q hq
    rw [hs q hq]
    exact F
  have hframed := Body.run_framed (t := ⟨d, w.listener, ⟨r.index, k⟩⟩)
    (Q := Notebook.Frame fun n => (n.locals i, n.invocations)) F F body
    ⟨w.shelf k, w.book.add (.ran r.index d.path)⟩
  -- what was on the shelf and what the body registered is closed in the same scope
  have hclosed := conclude_frame _ (hframed.shelf hinit)
    (body.execute ⟨d, w.listener, ⟨r.index, k⟩⟩ ⟨w.shelf k, w.book⟩).1
  rw [runUnit_direct hk]
  exact Prod.ext_iff.mp (hclosed.trans hframed.book)

/-- A replay invokes the builder once, and touches the variables of that invocation only. -/
theorem locals_replayed {d : Description} {i : Nat} (hi : i ≠ w.book.invocations) :
    (w.runUnit (.replayed d r)).2.book.locals i = w.book.locals i ∧
      (w.runUnit (.replayed d r)).2.book.invocations = w.book.invocations + 1 := by
  have F := Notebook.frame_rest (s := ⟨r.index, w.book.invocations⟩) (k := i) (Ne.symm hi)
  have hframed := Builder.replay_framed (t := ⟨d, w.listener, ⟨r.index, w.book.invocations⟩⟩)
    (Q := Notebook.Frame fun n => (n.locals i, n.invocations)) F (fun _ _ _ => rfl) F r.builder 0
    ⟨⟨[], (w.book.replaying r d).2⟩, .undecided⟩
  have hclosed := conclude_frame _ (hframed.shelf nofun)
    (Replay.verdict d (r.replayWalk w.listener d w.book))
  exact Prod.ext_iff.mp (hclosed.trans hframed.book)

/-- **A unit that runs leaves everything alone that is not its own.** -/
theorem FindsSame.run_usesUnit (h : FindsSame r v w u) (hv : v.listener.Calm)
    (hw : w.listener.Calm) :
    UsesUnit u w (w.runUnit u).2 := by
  obtain ⟨_, es, -, htells⟩ := h.tells hv hw
  have hrecord : ∃ es, (∀ path, path ≠ u.test.path → ∀ e ∈ es, (!e.finishes path) = true) ∧
      (w.runUnit u).2.book.record = es ++ w.book.record :=
    ⟨es, fun _ _ => htells.inner.finishes, htells.record⟩
  cases h with
  | @direct d body k hb hkv hkw hk hl hs =>
    refine ⟨hrecord, ?_, ?_, fun i hi _ => ?_⟩
    · rw [runUnit_direct hkw]
      exact length_putCloset _ _
    · exact (locals_direct hkw hs.right (Nat.succ_ne_self k)).2.ge
    · have hik : i ≠ k := fun h => hi (h ▸ rfl)
      refine ⟨?_, (locals_direct hkw hs.right hik).1⟩
      rw [runUnit_direct hkw]
      exact shelf_putCloset_of_ne hik _
  | @replayed d hb hl =>
    have hinv := (locals_replayed (r := r) (d := d) (Nat.succ_ne_self w.book.invocations)).2
    refine ⟨hrecord, rfl, ?_, fun i _ hi => ⟨rfl, ?_⟩⟩
    · rw [hinv]
      exact Nat.le_succ _
    · rw [hinv] at hi
      exact (locals_replayed (by omega)).1

/-- **A unit that is dropped closes its own shelf at most.** -/
theorem FindsSame.drop_usesUnit (h : FindsSame r v w u) : UsesUnit u w (w.dropUnit u) := by
  cases h with
  | @direct d body k hb hkv hkw hk hl hs =>
    obtain ⟨book, hdrop, hrests⟩ := w.dropUnit_direct d body ⟨r.index, k⟩ k
    let s : Scope := ⟨r.index, k⟩
    have S : Notebook.Simulates s s (Notebook.Mirrors s s v.book.record w.book.record) :=
      Notebook.simulates_mirrors rfl
    have hbook : Notebook.Mirrors s s v.book.record w.book.record v.book w.book :=
      Notebook.mirrors_refl hl
    -- what is closed agrees with what would be closed in `v`; so it adds no start or end of a test
    obtain ⟨-, -, es, hes, -, hrecord⟩ := Notebook.sweep_agree S hs hbook
    rw [hdrop]
    refine ⟨⟨es, fun _ _ => hes.finishes, ?_⟩, length_putCloset _ _, ?_, fun i hi _ => ?_⟩
    · have hacts : book.acts = (w.book.sweep (w.shelf k)).2.acts := hrests.acts
      rw [Notebook.record, hacts]
      exact hrecord
    · have hinv : book.invocations = (w.book.sweep (w.shelf k)).2.invocations := hrests.invocations
      show w.book.invocations ≤ book.invocations
      rw [hinv, Notebook.invocations_sweep]
    · -- callbacks on the shelf have the scope of its pass
      have hik : i ≠ k := fun h => hi (h ▸ rfl)
      refine ⟨shelf_putCloset_of_ne hik _, ?_⟩
      have hstore : book.store = (w.book.sweep (w.shelf k)).2.store := hrests.store
      have hlocals : (w.book.sweep (w.shelf k)).2.locals i = w.book.locals i := by
        refine Notebook.sweep_frame (f := fun n => n.locals i) (w.shelf k) (fun q hq => ?_) w.book
        rw [hs.right q hq]
        exact Notebook.frame_locals (Ne.symm hik)
      rw [← hlocals]
      funext name
      exact congrArg (fun st : Store => st.read (.invocation i) name) hstore
  | replayed hb hl =>
    exact .refl _ _

end World

end TestTree

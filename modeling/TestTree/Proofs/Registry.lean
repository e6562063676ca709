/-
A shelf whose callbacks use it themselves.

* `Closet.Trades` : between two moments callbacks were registered and closed, and none was lost;
* `Cleanup.run_keepsAll`, `Closet.closeSinceWith_swept` : scripts and sweeps, at any depth of
  nesting;
* `Closet.closeSinceWith_congr`, `Closet.iterate_closeSinceWith` : sweeps inside each other come to an
  end, since each one starts with fewer sweeps to come than the one around it;
* `Closet.closeSince_eq` : a sweep is one level of sweeping around sweeps;
* **`registry_conserved`** : every callback runs at most once, and what was registered was run or
  waits; a sweep runs exactly what stood above its mark.

## Design notes

Callbacks of one sweep run sweeps of their own, which change the shelf while the outer sweep goes
on.  What one level of sweeping does is proved for any inner sweep that loses nothing, and carried
from depth to depth.  The measure is the number of sweeps that the scripts on the shelf can still
start: a sweep takes its scripts off the shelf, and a script that starts a sweep has one less to
start.
-/
import TestTree.Cleanup.Nested
import TestTree.Proofs.Sweeps

namespace TestTree

/-! ### What is lost and what is kept -/

/-- A rest of the shelf `s` is still there on `d`, and what is gone was closed. -/
def Shelf.Keeps (s d : Shelf Cleanup) (closed : List Nat) : Prop :=
  ∃ kept, kept <:+ s ∧ kept <:+ d ∧ ∀ r ∈ s, r ∈ kept ∨ r.serial ∈ closed

theorem Shelf.keeps_of_suffix {s d : Shelf Cleanup} (h : s <:+ d) (ks : List Nat) :
    Shelf.Keeps s d ks :=
  ⟨s, List.suffix_rfl, h, fun _ hr => .inl hr⟩

theorem Shelf.Keeps.trans {s d e : Shelf Cleanup} {ks ls : List Nat} (h : Shelf.Keeps s d ks)
    (k : Shelf.Keeps d e ls) : Shelf.Keeps s e (ks ++ ls) := by
  obtain ⟨kept, hs, hd, hall⟩ := h
  obtain ⟨kept', kd, ke, kall⟩ := k
  -- both are rests of the shelf in the middle, so one is a rest of the other
  rcases List.suffix_or_suffix_of_suffix hd kd with hle | hle
  · refine ⟨kept, hs, hle.trans ke, fun r hr => ?_⟩
    exact (hall r hr).imp_right (List.mem_append_left _)
  · refine ⟨kept', hle.trans hs, ke, fun r hr => ?_⟩
    rcases hall r hr with hm | hm
    · exact (kall r (hd.subset hm)).imp_right (List.mem_append_right _)
    · exact .inr (List.mem_append_left _ hm)

namespace Closet

/-- Between two moments `es` were written.  What was closed and what waits is what waited before and
what was registered. -/
structure Trades (c d : Closet Cleanup) (es : List Event) : Prop where
  writes : c.book.Writes d.book es
  balance : (closedIn es ++ d.waiting).Perm (registeredIn es ++ c.waiting)
  kept : Shelf.Keeps c.shelf d.shelf (closedIn es)
  order : c.Orderly → d.Orderly

/-- Two moments between which nothing was lost. -/
def KeepsAll (c d : Closet Cleanup) : Prop :=
  ∃ es, c.Trades d es

variable {c d e : Closet Cleanup} {es fs : List Event}

theorem Trades.trans (h : c.Trades d es) (k : d.Trades e fs) : c.Trades e (es ++ fs) where
  writes := h.writes.trans k.writes
  balance := by
    refine List.perm_iff_count.mpr fun a => ?_
    have ha := List.perm_iff_count.mp h.balance a
    have ka := List.perm_iff_count.mp k.balance a
    simp only [closedIn_append, registeredIn_append, List.count_append] at ha ka ⊢
    omega
  kept := by
    rw [closedIn_append]
    exact h.kept.trans k.kept
  order := fun hc => k.order (h.order hc)

/-- Nothing is closed twice, and nothing that is closed waits any longer. -/
theorem Trades.nodup (h : c.Trades d es) (hc : c.Orderly) : (closedIn es ++ d.waiting).Nodup := by
  refine h.balance.nodup_iff.mpr (List.nodup_append.mpr ⟨?_, ?_, ?_⟩)
  · rw [h.writes.numbers]
    exact List.nodup_range'
  · exact hc.sorted.imp fun hlt => Nat.ne_of_gt hlt
  · -- what is registered in between has numbers that were not given before
    intro j hj k hk hjk
    rw [h.writes.numbers] at hj
    have hle := (List.mem_range'_1.mp hj).1
    have hlt := hc.below k hk
    omega

theorem KeepsAll.trans (h : c.KeepsAll d) (k : d.KeepsAll e) : c.KeepsAll e := by
  obtain ⟨es, h⟩ := h
  obtain ⟨fs, k⟩ := k
  exact ⟨es ++ fs, h.trans k⟩

theorem keepsAll_notes {n : Notebook} (h : c.book.Notes n) : c.KeepsAll { c with book := n } := by
  obtain ⟨es, hw, hp⟩ := h
  have hserials : n.serials = c.book.serials := by
    rw [hw.serials, hp.registered]
    rfl
  refine ⟨es, hw, ?_, Shelf.keeps_of_suffix List.suffix_rfl _, fun hc => hc.book hserials⟩
  rw [hp.closed, hp.registered]
  exact .rfl

theorem keepsAll_register (c : Closet Cleanup) (label : String) (res : Option String)
    (close : Cleanup) : c.KeepsAll (c.register label res close) :=
  ⟨[.registered c.book.serials], ⟨c.book.acts_add _, rfl, rfl⟩, .rfl,
    Shelf.keeps_of_suffix (List.suffix_cons _ _) _, fun hc => hc.register label res close⟩

theorem keepsAll_saveMark (c : Closet Cleanup) (s : Scope) (name : String) :
    c.KeepsAll (c.saveMark s name) :=
  keepsAll_notes (Notebook.notes_of_eq rfl rfl)

theorem keepsAll_sayErrors (c : Closet Cleanup) (s : Scope) (errors : List TeardownError) :
    c.KeepsAll (c.sayErrors s errors) := by
  refine keepsAll_notes ?_
  generalize c.book = n
  induction errors generalizing n with
  | nil => exact n.notes_refl
  | cons e rest ih => exact (n.notes_add rfl rfl rfl).trans (ih _)

end Closet

/-- A sweep that loses nothing. -/
def Sweeper.LosesNothing (nested : Sweeper) : Prop :=
  ∀ (mark : Nat) (c : Closet Cleanup), c.KeepsAll (nested mark c).2

open Closet in
/-- **A callback loses nothing** if the sweeps inside it do not. -/
theorem Cleanup.run_keepsAll {nested : Sweeper} (hn : nested.LosesNothing) (s : Scope)
    (res : Option String)
    (script : Cleanup) : ∀ c : Closet Cleanup, c.KeepsAll (script.run nested s res c).state := by
  induction script with
  | done => intro c; exact keepsAll_notes c.book.notes_refl
  | basic b next ih =>
    intro c
    exact Ran.andThen_rel KeepsAll KeepsAll.trans (keepsAll_notes (c.book.perform_notes s res b)) ih
  | branch cond yes no next ihy ihn ih =>
    intro c
    rw [run]
    split
    · exact Ran.andThen_rel KeepsAll KeepsAll.trans (ihy c) ih
    · exact Ran.andThen_rel KeepsAll KeepsAll.trans (ihn c) ih
  | autoClose r close next ihc ih => intro c; exact (c.keepsAll_register _ _ _).trans (ih _)
  | deferClose close next ihc ih => intro c; exact (c.keepsAll_register _ _ _).trans (ih _)
  | mark name next ih => intro c; exact (c.keepsAll_saveMark s name).trans (ih _)
  | closeSince position next ih =>
    intro c
    exact (hn _ c).trans ((keepsAll_sayErrors _ s _).trans (ih _))

/-! ### One sweep -/

/-- The events of a sweep of `rs`: each callback is counted as closed, and behind it stands what
happened while it ran. -/
def closings {κ : Type} : List (Registration κ) → List (List Event) → List Event
  | r :: rest, es :: inner => .closed r.serial :: es ++ closings rest inner
  | _, _ => []

namespace Closet

/-- The callbacks `rs` have been taken off the shelf `c` and were run one after another up to `d`;
`inner` is what happened inside each of them. -/
structure Swept (rs : List (Registration Cleanup)) (c d : Closet Cleanup)
    (inner : List (List Event)) : Prop where
  length : inner.length = rs.length
  writes : c.book.Writes d.book (closings rs inner)
  /-- What was closed and what waits is what waited before and what was registered. -/
  balance : (closedIn (closings rs inner) ++ d.waiting).Perm
    (registeredIn (closings rs inner) ++ (rs.map Registration.serial ++ c.waiting))
  /-- What is on the shelf stays, unless it is closed inside a callback. -/
  kept : Shelf.Keeps c.shelf d.shelf (closedIn inner.flatten)
  order : c.Orderly → d.Orderly

theorem runCallback_keepsAll {nested : Sweeper} (hn : nested.LosesNothing)
    (r : Registration Cleanup)
    (c : Closet Cleanup) :
    KeepsAll { c with book := c.book.add (.closed r.serial) } (runCallback nested r c).state := by
  rw [runCallback, Ran.state_mapError]
  exact r.close.run_keepsAll hn scope r.resource _

/-- **A sweep loses nothing**, and takes nothing but what it is given. -/
theorem sweep_swept {nested : Sweeper} (hn : nested.LosesNothing)
    (rs : List (Registration Cleanup)) :
    ∀ c : Closet Cleanup, ∃ inner, Swept rs c (sweep (runCallback nested) rs c).2 inner := by
  induction rs with
  | nil =>
    intro c
    exact ⟨[], rfl, c.book.writes_refl, .rfl, Shelf.keeps_of_suffix List.suffix_rfl _, id⟩
  | cons r rest ih =>
    intro c
    obtain ⟨es, h⟩ := runCallback_keepsAll hn r c
    obtain ⟨inner, k⟩ := ih (runCallback nested r c).state
    have hfirst := c.book.writes_add (e := .closed r.serial) rfl rfl
    refine ⟨es :: inner, congrArg (· + 1) k.length, (hfirst.trans h.writes).trans k.writes, ?_, ?_,
      fun hc => k.order (h.order (hc.book rfl))⟩
    · refine List.perm_iff_count.mpr fun a => ?_
      have ha : List.count a (closedIn es ++ (runCallback nested r c).state.waiting)
          = List.count a (registeredIn es ++ c.waiting) := List.perm_iff_count.mp h.balance a
      have ka := List.perm_iff_count.mp k.balance a
      simp only [closings, sweep, closedIn_append, registeredIn_append, closedIn_cons,
        registeredIn_cons, Event.closed?, Event.registered?, Option.toList_some, Option.toList_none,
        List.map_cons, List.cons_append, List.nil_append, List.count_append, List.count_cons]
        at ha ka ⊢
      omega
    · rw [List.flatten_cons, closedIn_append]
      exact h.kept.trans k.kept

/-- What a sweep from `mark` does, with the sweeps inside it. -/
theorem closeSinceWith_swept {nested : Sweeper} (hn : nested.LosesNothing) (mark : Nat)
    (c : Closet Cleanup) : ∃ inner, Swept (c.shelf.since mark) { c with shelf := c.shelf.upTo mark }
      (closeSinceWith nested mark c).2 inner :=
  sweep_swept hn _ _

/-- What stood above a mark and below it is what stood on the shelf. -/
theorem waiting_since (c : Closet Cleanup) (mark : Nat) :
    (c.shelf.since mark).map Registration.serial ++ waiting { c with shelf := c.shelf.upTo mark }
      = c.waiting := by
  rw [waiting, waiting, ← List.map_append, Shelf.since_append_upTo]

theorem upTo_suffix (c : Closet Cleanup) (mark : Nat) : c.shelf.upTo mark <:+ c.shelf :=
  List.drop_suffix _ _

theorem closedIn_inner {κ : Type} : ∀ (rs : List (Registration κ)) (inner : List (List Event)),
    inner.length = rs.length →
    (closedIn (closings rs inner)).Perm (rs.map Registration.serial ++ closedIn inner.flatten)
  | [], [], _ => .rfl
  | r :: rest, es :: inner, h => by
    have ih := closedIn_inner rest inner (Nat.succ.inj h)
    refine List.perm_iff_count.mpr fun a => ?_
    have ha := List.perm_iff_count.mp ih a
    simp only [closings, closedIn_append, closedIn_cons, Event.closed?, Option.toList_some,
      List.map_cons, List.cons_append, List.nil_append, List.flatten_cons, List.count_append,
      List.count_cons] at ha ⊢
    omega

theorem Swept.trades {mark : Nat} {c d : Closet Cleanup} {inner : List (List Event)}
    (h : Swept (c.shelf.since mark) { c with shelf := c.shelf.upTo mark } d inner) :
    c.Trades d (closings (c.shelf.since mark) inner) := by
  have hclosed := closedIn_inner _ _ h.length
  refine ⟨h.writes, ?_, ?_, fun hc => h.order (hc.suffix (c.upTo_suffix mark))⟩
  · rw [← c.waiting_since mark]
    exact h.balance
  · obtain ⟨kept, hk, hd, hall⟩ := h.kept
    refine ⟨kept, hk.trans (c.upTo_suffix mark), hd, fun r hr => ?_⟩
    rw [← c.shelf.since_append_upTo mark] at hr
    rcases List.mem_append.mp hr with hm | hm
    · exact .inr (hclosed.symm.subset (List.mem_append_left _ (List.mem_map_of_mem hm)))
    · exact (hall r hm).imp_right fun hc => hclosed.symm.subset (List.mem_append_right _ hc)

/-- **A sweep of a shelf loses nothing.** -/
theorem closeSinceWith_losesNothing {nested : Sweeper} (hn : nested.LosesNothing) :
    Sweeper.LosesNothing (closeSinceWith nested) := by
  intro mark c
  obtain ⟨inner, h⟩ := closeSinceWith_swept hn mark c
  exact ⟨_, h.trades⟩

/-- However deep sweeps may go, nothing is lost. -/
theorem closeSinceWithin_losesNothing (depth : Nat) :
    Sweeper.LosesNothing (closeSinceWithin depth) := by
  induction depth with
  | zero => exact fun mark c => keepsAll_notes c.book.notes_refl
  | succ depth ih => exact closeSinceWith_losesNothing ih

end Closet

/-! ### Sweeps inside each other -/

/-- The sweeps that a callback starts itself, each with its mark and the shelf that it finds. -/
def Cleanup.starts (nested : Sweeper) (s : Scope) (res : Option String) :
    Cleanup → Closet Cleanup → List (Nat × Closet Cleanup)
  | done, _ => []
  | basic b next, c => (c.perform s res b).behind (next.starts nested s res)
  | branch cond yes no next, c =>
    (if c.book.holds s cond then yes.starts nested s res c else no.starts nested s res c)
      ++ (if c.book.holds s cond then yes.run nested s res c
          else no.run nested s res c).behind (next.starts nested s res)
  | autoClose r close next, c => next.starts nested s res (c.autoClose r close)
  | deferClose close next, c => next.starts nested s res (c.deferClose close)
  | mark name next, c => next.starts nested s res (c.saveMark s name)
  | closeSince position next, c =>
    (position.value s c.book, c) :: next.starts nested s res
      ((nested (position.value s c.book) c).2.sayErrors s (nested (position.value s c.book) c).1)

/-- A sweep that brings no new sweeps onto the shelf. -/
def Sweeper.Shrinks (nested : Sweeper) : Prop :=
  ∀ (mark : Nat) (c : Closet Cleanup), (nested mark c).2.nestings ≤ c.nestings

section Nestings

variable {nested : Sweeper}

@[simp] theorem Closet.nestings_register (c : Closet Cleanup) (label : String)
    (res : Option String) (close : Cleanup) :
    (c.register label res close).nestings = close.sweeps + c.nestings := by
  rw [nestings, register, Shelf.push, List.foldr_cons, nestings]

@[simp] theorem Closet.nestings_autoClose (c : Closet Cleanup) (r : Resource) (close : Cleanup) :
    (c.autoClose r close).nestings = close.sweeps + c.nestings :=
  c.nestings_register _ _ _

@[simp] theorem Closet.nestings_deferClose (c : Closet Cleanup) (close : Cleanup) :
    (c.deferClose close).nestings = close.sweeps + c.nestings :=
  c.nestings_register _ _ _

theorem Ran.nestings_andThen {ε : Type} {r : Ran ε (Closet Cleanup)}
    {next : Closet Cleanup → Ran ε (Closet Cleanup)} {n k : Nat} (h : r.state.nestings ≤ n)
    (hn : ∀ c, (next c).state.nestings ≤ k + c.nestings) :
    (r.andThen next).state.nestings ≤ k + n := by
  rcases r with ⟨_ | e | p, c⟩
  · exact (hn c).trans (Nat.add_le_add_left h k)
  · exact h.trans (Nat.le_add_left _ _)
  · exact h.trans (Nat.le_add_left _ _)

/-- A callback brings no sweeps onto the shelf but its own. -/
theorem Cleanup.run_nestings (hn : nested.Shrinks) (s : Scope) (res : Option String)
    (script : Cleanup) : ∀ c : Closet Cleanup,
      (script.run nested s res c).state.nestings ≤ script.sweeps + c.nestings := by
  induction script with
  | done => intro c; exact Nat.le_add_left _ _
  | basic b next ih => intro c; exact Ran.nestings_andThen (Nat.le_refl c.nestings) ih
  | branch cond yes no next ihy ihn ih =>
    intro c
    have hy := ihy c
    have hn := ihn c
    rw [run, sweeps, Nat.add_comm (yes.sweeps + no.sweeps), Nat.add_assoc]
    refine Ran.nestings_andThen ?_ ih
    split
    · omega
    · omega
  | autoClose r close next ihc ih =>
    intro c
    have h := ih (c.autoClose r close)
    rw [Closet.nestings_autoClose] at h
    rw [run, sweeps]
    omega
  | deferClose close next ihc ih =>
    intro c
    have h := ih (c.deferClose close)
    rw [Closet.nestings_deferClose] at h
    rw [run, sweeps]
    omega
  | mark name next ih => intro c; exact ih (c.saveMark s name)
  | closeSince position next ih =>
    intro c
    have h := ih ((nested (position.value s c.book) c).2.sayErrors s
      (nested (position.value s c.book) c).1)
    have hs := hn (position.value s c.book) c
    rw [sweeps, run]
    refine h.trans ?_
    show next.sweeps + (nested (position.value s c.book) c).2.nestings ≤ _
    omega

/-- A sweep inside a callback has fewer sweeps to come than the callback and the shelf that it
began with. -/
theorem Cleanup.starts_nestings (hn : nested.Shrinks) (s : Scope) (res : Option String)
    (script : Cleanup) : ∀ c : Closet Cleanup, ∀ x ∈ script.starts nested s res c,
      x.2.nestings < script.sweeps + c.nestings := by
  induction script with
  | done => intro c x hx; cases hx
  | basic b next ih =>
    intro c x hx
    have h := ih _ x (Ran.mem_behind hx)
    exact h
  | branch cond yes no next ihy ihn ih =>
    intro c x hx
    have hy := yes.run_nestings hn s res c
    have hno := no.run_nestings hn s res c
    rw [starts] at hx
    rw [sweeps]
    rcases List.mem_append.mp hx with hx | hx
    · split at hx
      · have := ihy c x hx
        omega
      · have := ihn c x hx
        omega
    · have := ih _ x (Ran.mem_behind hx)
      split at this
      · omega
      · omega
  | autoClose r close next ihc ih =>
    intro c x hx
    have h := ih _ x hx
    rw [Closet.nestings_autoClose] at h
    rw [sweeps]
    omega
  | deferClose close next ihc ih =>
    intro c x hx
    have h := ih _ x hx
    rw [Closet.nestings_deferClose] at h
    rw [sweeps]
    omega
  | mark name next ih => intro c x hx; exact ih (c.saveMark s name) x hx
  | closeSince position next ih =>
    intro c x hx
    rw [sweeps]
    rcases List.mem_cons.mp hx with rfl | hx
    · show c.nestings < _
      omega
    · have hs := hn (position.value s c.book) c
      have h := ih _ x hx
      have hsaid : ((nested (position.value s c.book) c).2.sayErrors s
          (nested (position.value s c.book) c).1).nestings
          = (nested (position.value s c.book) c).2.nestings := rfl
      omega

/-- Nothing is lost between the beginning of a callback and a sweep inside it. -/
theorem Cleanup.starts_keepsAll (hn : nested.LosesNothing) (s : Scope) (res : Option String)
    (script : Cleanup) : ∀ c : Closet Cleanup, ∀ x ∈ script.starts nested s res c,
      c.KeepsAll x.2 := by
  induction script with
  | done => intro c x hx; cases hx
  | basic b next ih =>
    intro c x hx
    exact (Closet.keepsAll_notes (c.book.perform_notes s res b)).trans (ih _ x (Ran.mem_behind hx))
  | branch cond yes no next ihy ihn ih =>
    intro c x hx
    rw [starts] at hx
    rcases List.mem_append.mp hx with hx | hx
    · split at hx
      · exact ihy c x hx
      · exact ihn c x hx
    · have h := ih _ x (Ran.mem_behind hx)
      split at h
      · exact (yes.run_keepsAll hn s res c).trans h
      · exact (no.run_keepsAll hn s res c).trans h
  | autoClose r close next ihc ih =>
    intro c x hx
    exact (c.keepsAll_register _ _ _).trans (ih _ x hx)
  | deferClose close next ihc ih =>
    intro c x hx
    exact (c.keepsAll_register _ _ _).trans (ih _ x hx)
  | mark name next ih => intro c x hx; exact (c.keepsAll_saveMark s name).trans (ih _ x hx)
  | closeSince position next ih =>
    intro c x hx
    rcases List.mem_cons.mp hx with rfl | hx
    · exact Closet.keepsAll_notes c.book.notes_refl
    · exact (hn _ c).trans ((Closet.keepsAll_sayErrors _ s _).trans (ih _ x hx))

/-- A callback depends on the sweeps that it starts only. -/
theorem Cleanup.run_congr {other : Sweeper} (s : Scope) (res : Option String)
    (script : Cleanup) : ∀ c : Closet Cleanup,
      (∀ x ∈ script.starts nested s res c, other x.1 x.2 = nested x.1 x.2) →
      script.run other s res c = script.run nested s res c := by
  induction script with
  | done => intro c h; rfl
  | basic b next ih =>
    intro c h
    refine Ran.andThen_congr fun hf => ih _ fun x hx => h x ?_
    rw [starts, Ran.behind, hf]
    exact hx
  | branch cond yes no next ihy ihn ih =>
    intro c h
    rw [starts] at h
    rw [run, run]
    split
    · rename_i hc
      rw [if_pos hc, if_pos hc] at h
      rw [ihy c fun x hx => h x (List.mem_append_left _ hx)]
      refine Ran.andThen_congr fun hf => ih _ fun x hx => h x (List.mem_append_right _ ?_)
      rw [Ran.behind, hf]
      exact hx
    · rename_i hc
      rw [if_neg hc, if_neg hc] at h
      rw [ihn c fun x hx => h x (List.mem_append_left _ hx)]
      refine Ran.andThen_congr fun hf => ih _ fun x hx => h x (List.mem_append_right _ ?_)
      rw [Ran.behind, hf]
      exact hx
  | autoClose r close next ihc ih => intro c h; exact ih _ h
  | deferClose close next ihc ih => intro c h; exact ih _ h
  | mark name next ih => intro c h; exact ih (c.saveMark s name) h
  | closeSince position next ih =>
    intro c h
    have hfirst := h (position.value s c.book, c) List.mem_cons_self
    rw [run, run, hfirst]
    exact ih _ fun x hx => h x (List.mem_cons_of_mem _ hx)

namespace Closet

/-- The sweeps that callbacks start when they are run one after another. -/
def starts (nested : Sweeper) :
    List (Registration Cleanup) → Closet Cleanup → List (Nat × Closet Cleanup)
  | [], _ => []
  | r :: rest, c =>
    r.close.starts nested scope r.resource { c with book := c.book.add (.closed r.serial) }
      ++ starts nested rest (runCallback nested r c).state

/-- The number of sweeps that callbacks can start. -/
def sweepsOf (rs : List (Registration Cleanup)) : Nat :=
  rs.foldr (fun r n => r.close.sweeps + n) 0

theorem sweepsOf_append (rs qs : List (Registration Cleanup)) :
    sweepsOf (rs ++ qs) = sweepsOf rs + sweepsOf qs := by
  induction rs with
  | nil => exact (Nat.zero_add _).symm
  | cons r rest ih => exact (congrArg (r.close.sweeps + ·) ih).trans (Nat.add_assoc ..).symm

theorem runCallback_nestings (hn : nested.Shrinks) (r : Registration Cleanup)
    (c : Closet Cleanup) :
    (runCallback nested r c).state.nestings ≤ r.close.sweeps + c.nestings := by
  rw [runCallback, Ran.state_mapError]
  exact r.close.run_nestings hn scope r.resource _

theorem sweep_nestings (hn : nested.Shrinks) (rs : List (Registration Cleanup)) :
    ∀ c, (sweep (runCallback nested) rs c).2.nestings ≤ sweepsOf rs + c.nestings := by
  induction rs with
  | nil => intro c; exact Nat.le_add_left _ _
  | cons r rest ih =>
    intro c
    have h := runCallback_nestings hn r c
    have k := ih (runCallback nested r c).state
    rw [sweepsOf, List.foldr_cons]
    exact k.trans (by rw [sweepsOf]; omega)

theorem starts_nestings_lt (hn : nested.Shrinks) (rs : List (Registration Cleanup)) :
    ∀ c, ∀ x ∈ starts nested rs c, x.2.nestings < sweepsOf rs + c.nestings := by
  induction rs with
  | nil => intro c x hx; cases hx
  | cons r rest ih =>
    intro c x hx
    rw [sweepsOf, List.foldr_cons, ← sweepsOf]
    rcases List.mem_append.mp hx with hx | hx
    · have h := r.close.starts_nestings hn scope r.resource _ x hx
      have hc : nestings { c with book := c.book.add (.closed r.serial) } = c.nestings := rfl
      omega
    · have h := ih _ x hx
      have k := runCallback_nestings hn r c
      omega

theorem starts_orderly (hn : nested.LosesNothing) (rs : List (Registration Cleanup)) :
    ∀ c : Closet Cleanup, c.Orderly → ∀ x ∈ starts nested rs c, x.2.Orderly := by
  induction rs with
  | nil => intro c hc x hx; cases hx
  | cons r rest ih =>
    intro c hc x hx
    have hbegun : Orderly { c with book := c.book.add (.closed r.serial) } := hc.book rfl
    rcases List.mem_append.mp hx with hx | hx
    · obtain ⟨es, h⟩ := r.close.starts_keepsAll hn scope r.resource _ x hx
      exact h.order hbegun
    · obtain ⟨es, h⟩ := runCallback_keepsAll hn r c
      exact ih _ (h.order hbegun) x hx

theorem sweep_congr {other : Sweeper} (rs : List (Registration Cleanup)) :
    ∀ c, (∀ x ∈ starts nested rs c, other x.1 x.2 = nested x.1 x.2) →
      sweep (runCallback other) rs c = sweep (runCallback nested) rs c := by
  induction rs with
  | nil => intro c h; rfl
  | cons r rest ih =>
    intro c h
    have hfirst : runCallback other r c = runCallback nested r c := by
      rw [runCallback, runCallback]
      exact congrArg _ (r.close.run_congr _ _ _ fun x hx => h x (List.mem_append_left _ hx))
    rw [sweep, sweep, hfirst, ih _ fun x hx => h x (List.mem_append_right _ hx)]

/-- The sweeps inside a sweep from `mark`, each with its mark and the shelf that it finds. -/
def startsSince (nested : Sweeper) (mark : Nat) (c : Closet Cleanup) : List (Nat × Closet Cleanup) :=
  starts nested (c.shelf.since mark) { c with shelf := c.shelf.upTo mark }

theorem sweepsOf_since (c : Closet Cleanup) (mark : Nat) :
    sweepsOf (c.shelf.since mark) + nestings { c with shelf := c.shelf.upTo mark }
      = c.nestings := by
  show sweepsOf (c.shelf.since mark) + sweepsOf (c.shelf.upTo mark) = sweepsOf c.shelf
  rw [← sweepsOf_append, Shelf.since_append_upTo]

theorem closeSinceWith_shrinks (hn : nested.Shrinks) :
    Sweeper.Shrinks (closeSinceWith nested) := by
  intro mark c
  rw [← c.sweepsOf_since mark]
  exact sweep_nestings hn _ _

theorem startsSince_nestings (hn : nested.Shrinks) (mark : Nat) (c : Closet Cleanup) :
    ∀ x ∈ startsSince nested mark c, x.2.nestings < c.nestings := by
  intro x hx
  rw [← c.sweepsOf_since mark]
  exact starts_nestings_lt hn _ _ x hx

theorem closeSinceWithin_shrinks (depth : Nat) : Sweeper.Shrinks (closeSinceWithin depth) := by
  induction depth with
  | zero => exact fun mark c => Nat.le_refl _
  | succ depth ih => exact closeSinceWith_shrinks ih

theorem closeSinceWith_congr {other : Sweeper} {mark : Nat} {c : Closet Cleanup}
    (h : ∀ x ∈ startsSince nested mark c, other x.1 x.2 = nested x.1 x.2) :
    closeSinceWith other mark c = closeSinceWith nested mark c :=
  sweep_congr _ _ h

theorem closeSinceWithin_eq_iterate (depth : Nat) :
    closeSinceWithin depth = closeSinceWith^[depth] fun _ c => ([], c) := by
  induction depth with
  | zero => rfl
  | succ depth ih => rw [Function.iterate_succ_apply', ← ih, closeSinceWithin]

/-- **The bound is never reached**: whatever a sweep does that is nested too deeply, a sweep is the
same from as many levels on as there are sweeps to come. -/
theorem iterate_closeSinceWith (depth : Nat) : ∀ (bottom : Sweeper) (mark : Nat)
    (c : Closet Cleanup), c.nestings < depth →
      closeSinceWith^[depth] bottom mark c = c.closeSince mark := by
  induction depth using Nat.strong_induction_on with
  | _ depth ih =>
    intro bottom mark c h
    obtain ⟨depth, rfl⟩ := Nat.exists_eq_add_of_lt h
    rw [Function.iterate_succ_apply', closeSince, closeSinceWithin]
    refine closeSinceWith_congr fun x hx => ?_
    -- both levels are high enough for the sweeps inside
    have hlt := startsSince_nestings (closeSinceWithin_shrinks _) mark c x hx
    rw [ih _ (by omega) bottom x.1 x.2 (by omega), closeSinceWithin_eq_iterate,
      ih c.nestings (by omega) _ x.1 x.2 hlt]

end Closet

end Nestings

namespace Closet

/-- A sweep as one that can be nested. -/
def sweeper : Sweeper := fun mark c =>
  c.closeSince mark

theorem sweeper_losesNothing : sweeper.LosesNothing :=
  fun mark c => closeSinceWithin_losesNothing _ mark c

theorem sweeper_shrinks : sweeper.Shrinks :=
  fun mark c => closeSinceWithin_shrinks _ mark c

/-- **A sweep is one level of sweeping around sweeps.** -/
theorem closeSince_eq (mark : Nat) (c : Closet Cleanup) :
    c.closeSince mark = closeSinceWith sweeper mark c := by
  rw [← iterate_closeSinceWith (c.nestings + 2) sweeper mark c (by omega),
    Function.iterate_succ_apply']
  refine closeSinceWith_congr fun x hx => ?_
  have hlt := startsSince_nestings sweeper_shrinks mark c x hx
  exact iterate_closeSinceWith _ _ _ _ (by omega)

/-- The callbacks that a sweep from `mark` runs, with the end of each and the state behind it. -/
def roundsSince (mark : Nat) (c : Closet Cleanup) : List (Round Cleanup (Closet Cleanup)) :=
  rounds (runCallback sweeper) (c.shelf.since mark) { c with shelf := c.shelf.upTo mark }

theorem closeSince_of_length_le {mark : Nat} {c : Closet Cleanup} (h : c.shelf.length ≤ mark) :
    c.closeSince mark = ([], c) := by
  have hlength : c.shelf.length - mark = 0 := Nat.sub_eq_zero_of_le h
  have hsince : c.shelf.since mark = [] := by rw [Shelf.since, hlength, List.take_zero]
  have hupTo : c.shelf.upTo mark = c.shelf := by rw [Shelf.upTo, hlength, List.drop_zero]
  rw [closeSince_eq, closeSinceWith, hsince, hupTo, sweep]

end Closet

theorem Shelf.since_eq_reverse {κ : Type} (s : Shelf κ) (mark : Nat) :
    s.since mark = (s.reverse.drop mark).reverse := by
  rw [List.drop_reverse, List.reverse_reverse, since]

/-! ### The whole registry -/

namespace Closet

/-- What a sweep from `mark` does to the shelf `c`, with the events `inner` inside its callbacks. -/
structure Sweeps (mark : Nat) (c : Closet Cleanup) (inner : List (List Event)) : Prop where
  /-- A sweep takes its callbacks off the shelf and runs them, with sweeps like itself inside. -/
  recursion : c.closeSince mark = closeSinceWith sweeper mark c
  /-- The sweeps inside have fewer sweeps to come. -/
  descends : ∀ x ∈ startsSince sweeper mark c, x.2.nestings < c.nestings
  /-- Levels of sweeping beyond the number of sweeps to come are never reached. -/
  ends : ∀ (bottom : Sweeper) (depth : Nat), c.nestings < depth →
    closeSinceWith^[depth] bottom mark c = c.closeSince mark
  /-- What was registered at the mark and later is run, the latest first. -/
  entries : (c.roundsSince mark).map Round.entry = (c.shelf.reverse.drop mark).reverse
  /-- There is one error for each callback that failed or panicked, in the order of the run. -/
  errors : (c.closeSince mark).1 = (c.roundsSince mark).filterMap Round.error?
  swept : Swept (c.shelf.since mark) { c with shelf := c.shelf.upTo mark }
    (c.closeSince mark).2 inner
  past : c.shelf.length ≤ mark → c.closeSince mark = ([], c)

/-- The sweeps of a shelf in good order. -/
structure SweepsOnce (mark : Nat) (c : Closet Cleanup) (inner : List (List Event)) : Prop where
  order : (c.closeSince mark).2.Orderly
  /-- The sweeps inside find shelves in good order, too. -/
  inside : ∀ x ∈ startsSince sweeper mark c, x.2.Orderly
  /-- No callback is run twice, whether by this sweep or inside it. -/
  once : (closedIn (closings (c.shelf.since mark) inner)).Nodup
  /-- What is registered during the sweep is not run by it, but at most inside it. -/
  fresh : ∀ k ∈ registeredIn (closings (c.shelf.since mark) inner),
    k ∉ (c.shelf.since mark).map Registration.serial

theorem exists_sweeps (mark : Nat) (c : Closet Cleanup) : ∃ inner, c.Sweeps mark inner := by
  obtain ⟨inner, h⟩ := closeSinceWith_swept sweeper_losesNothing mark c
  rw [← closeSince_eq] at h
  refine ⟨inner, closeSince_eq mark c, startsSince_nestings sweeper_shrinks mark c,
    fun bottom depth hd => iterate_closeSinceWith depth bottom mark c hd, ?_, ?_, h,
    closeSince_of_length_le⟩
  · rw [roundsSince, rounds_entries, Shelf.since_eq_reverse]
  · rw [closeSince_eq, closeSinceWith, sweep_errors, roundsSince]

theorem Sweeps.once {mark : Nat} {c : Closet Cleanup} {inner : List (List Event)}
    (h : c.Sweeps mark inner) (hc : c.Orderly) : c.SweepsOnce mark inner where
  order := h.swept.trades.order hc
  inside := starts_orderly sweeper_losesNothing _ _ (hc.suffix (c.upTo_suffix mark))
  once := (List.nodup_append.mp (h.swept.trades.nodup hc)).1
  fresh := by
    intro k hk hm
    rw [h.swept.writes.numbers] at hk
    have hle : c.book.serials ≤ k := (List.mem_range'_1.mp hk).1
    have hlt := hc.below k (by
      rw [← c.waiting_since mark]
      exact List.mem_append_left _ hm)
    omega

/-- A registry on which nothing was registered yet. -/
def empty : Closet Cleanup :=
  ⟨[], {}⟩

/-- Everything that was written, in the order in which it happened. -/
def log (c : Closet Cleanup) : List Event :=
  c.book.acts.reverse

theorem call_keepsAll (c : Closet Cleanup) (k : Call) : c.KeepsAll (c.call k) := by
  cases k with
  | autoClose r close => exact c.keepsAll_register _ _ _
  | deferClose close => exact c.keepsAll_register _ _ _
  | mark => exact keepsAll_notes c.book.notes_refl
  | closeSince mark => exact sweeper_losesNothing mark c
  | closeAll => exact sweeper_losesNothing 0 c

theorem calls_keepsAll (calls : List Call) :
    ∀ c : Closet Cleanup, c.KeepsAll (calls.foldl call c) := by
  induction calls with
  | nil => exact fun c => keepsAll_notes c.book.notes_refl
  | cons k rest ih => exact fun c => (c.call_keepsAll k).trans (ih _)

/-- What was registered was run once, or waits. -/
structure Conserves (c : Closet Cleanup) : Prop where
  order : c.Orderly
  numbers : registeredIn c.log = List.range c.book.serials
  once : (closedIn c.log).Nodup
  /-- What was run and what waits is what was registered. -/
  balance : (closedIn c.log ++ c.waiting).Perm (registeredIn c.log)
  count : (registeredIn c.log).length = (closedIn c.log).length + c.shelf.length

theorem conserves_of_trades {c : Closet Cleanup} {es : List Event} (h : empty.Trades c es) :
    c.Conserves := by
  have hempty : empty.Orderly := ⟨List.Pairwise.nil, fun k hk => by cases hk⟩
  have hlog : c.log = es := by
    rw [log, h.writes.acts, show empty.book.acts = [] from rfl, List.append_nil, List.reverse_reverse]
  have hbalance : (closedIn es ++ c.waiting).Perm (registeredIn es) := by
    have := h.balance
    rwa [show empty.waiting = [] from rfl, List.append_nil] at this
  refine ⟨h.order hempty, ?_, ?_, ?_, ?_⟩
  · rw [hlog, h.writes.numbers, h.writes.serials, List.range_eq_range']
    exact congrArg (List.range' 0) (Nat.zero_add _).symm
  · rw [hlog]
    exact (List.nodup_append.mp (h.nodup hempty)).1
  · rw [hlog]
    exact hbalance
  · rw [hlog, ← hbalance.length_eq, List.length_append, waiting, List.length_map]

end Closet

open Closet in
/-- **Whatever callbacks do with the registry that they come from, nothing is lost and nothing is run
twice.**  After any calls on a new registry, what was registered was run once or waits; and a sweep
of any registry ends, runs exactly what stood above its mark, reports its own failures, and leaves
what is below to the sweeps inside it. -/
theorem registry_conserved :
    (∀ calls : List Closet.Call, (calls.foldl call empty).Conserves) ∧
      ∀ (mark : Nat) (c : Closet Cleanup), ∃ inner,
        c.Sweeps mark inner ∧ (c.Orderly → c.SweepsOnce mark inner) := by
  refine ⟨fun calls => ?_, fun mark c => ?_⟩
  · obtain ⟨es, h⟩ := calls_keepsAll calls empty
    exact conserves_of_trades h
  · obtain ⟨inner, h⟩ := exists_sweeps mark c
    exact ⟨inner, h, h.once⟩

namespace Closet

/-- A callback registers another one, sweeps the whole shelf, and fails. -/
def greedyCleanup : Cleanup :=
  .deferClose .done (.closeAll (.basic (.fail ⟨.text "late", .plain⟩) .done))

/-- A callback below a mark and a greedy one above it. -/
def greedyCalls : List Closet.Call :=
  [.deferClose .done, .mark, .deferClose greedyCleanup]

/-- A sweep of the greedy callback alone closes what it registers and what is below the mark, too;
only its own failure is reported. -/
theorem registry_conserved_greedy :
    ((greedyCalls.foldl call empty).call (.closeSince 1)).Conserves ∧
      closedIn ((greedyCalls.foldl call empty).call (.closeSince 1)).log = [1, 2, 0] ∧
      ((greedyCalls.foldl call empty).closeSince 1).1 = [⟨"deferred", .text "late"⟩] ∧
      ∃ inner, (greedyCalls.foldl call empty).SweepsOnce 1 inner := by
  have hcalls := registry_conserved.1 (greedyCalls ++ [.closeSince 1])
  rw [List.foldl_append] at hcalls
  obtain ⟨inner, -, honce⟩ := registry_conserved.2 1 (greedyCalls.foldl call empty)
  exact ⟨hcalls, by decide, by decide, inner, honce (registry_conserved.1 greedyCalls).order⟩

end Closet

end TestTree

/-
One-shot cells: whatever is asked of a yard, the job of a cell runs once.

* `Bench.story`, `Tally` : what was done with one cell, and a count of it;
* `Life` : the stories that a cell can have, by what it holds now;
* `Life.standing` : what a cell holds tells how often its job began, ended and was cancelled;
* `Bench.Consistent`, `Bench.Turn.consistent` : every turn keeps the lives of all cells;
* `Bench.Turn.moves`, `Bench.Turn.settled` : a cell only moves on, and a final one stays as it is;
* `Yard.jobs_run_once` : **jobs run once, and final cells are final**.

## Design notes

A cell is running exactly while its job is on the stack.  That is why the end of a job finds the cell
running, and why nobody else can begin the job in the meantime.
-/
import Mathlib.Data.List.Nodup
import TestTree.Proofs.Turns

namespace TestTree

variable {α : Type}

/-! ### Stories -/

/-- How often the job of a cell began, how often calls ran and cancelled it, and how it ended. -/
structure Tally where
  begins : Nat := 0
  runs : Nat := 0
  cancels : Nat := 0
  /-- The latest first. -/
  endings : List (Ending Thrown) := []

/-- One more deed. -/
def Tally.add (t : Tally) : Deed α → Tally
  | .began => { t with begins := t.begins + 1 }
  | .ended ending => { t with endings := ending :: t.endings }
  | .returned .run (.flag true) => { t with runs := t.runs + 1 }
  | .returned .cancel (.flag true) => { t with cancels := t.cancels + 1 }
  | .returned .. => t

/-- The count of a story; the latest deed comes first. -/
def Tally.of (ds : List (Deed α)) : Tally :=
  ds.foldr (fun d t => t.add d) {}

namespace Bench

/-- What was done with a cell, the latest first. -/
def story (b : Bench α) (i : Nat) : List (Deed α) :=
  b.deeds.filterMap fun d => if d.1 = i then some d.2 else none

variable {b : Bench α} {i j : Nat}

@[simp] theorem story_add_self (b : Bench α) (i : Nat) (d : Deed α) :
    (b.add i d).story i = d :: b.story i :=
  List.filterMap_cons_some (if_pos rfl)

theorem story_add_of_ne (h : i ≠ j) (b : Bench α) (d : Deed α) :
    (b.add i d).story j = b.story j :=
  List.filterMap_cons_none (if_neg h)

theorem cell_setCell_self (h : i < b.cells.length) (c : Cell (Job α × α) α) :
    (b.setCell i c).cell i = c := by
  rw [cell, setCell, List.getElem?_set_self h]
  rfl

theorem cell_setCell_of_ne (h : i ≠ j) (b : Bench α) (c : Cell (Job α × α) α) :
    (b.setCell i c).cell j = b.cell j := by
  rw [cell, setCell, List.getElem?_set_ne h]
  rfl

/-- A cell that was not made holds nothing. -/
theorem lt_of_cell_ne (h : b.cell i ≠ .discarded) : i < b.cells.length := by
  by_contra hle
  rw [cell, List.getElem?_eq_none (Nat.le_of_not_lt hle)] at h
  exact h rfl

end Bench

/-! ### Lives -/

/-- The stories of cells: `Life c ds` says that `ds` leads to a cell that holds `c`. -/
inductive Life : Cell (Job α × α) α → List (Deed α) → Prop
  | created (job : Job α × α) : Life (.suspended job) []
  | completed (value : α) : Life (.done value) []
  | began {job : Job α × α} {ds : List (Deed α)} (h : Life (.suspended job) ds) :
      Life .running (.began :: ds)
  | ended {ds : List (Deed α)} (h : Life .running ds) (failed value : α) (ending : Ending Thrown) :
      Life (.final failed value ending) (.ended ending :: ds)
  /-- Whoever asked for the job hears of its end. -/
  | heard {ds : List (Deed α)} {failed value : α} {ending : Ending Thrown} (h : Life .running ds)
      {caller : Caller} {call : Call} {a : Answer α}
      (hc : caller.hears? (.final failed value ending : Cell (Job α × α) α) ending
        = some (call, a)) :
      Life (.final failed value ending) (.returned call a :: .ended ending :: ds)
  | cancelled {job : Job α × α} {ds : List (Deed α)} (h : Life (.suspended job) ds) :
      Life .cancelled (.returned .cancel (.flag true) :: ds)
  | said {c : Cell (Job α × α) α} {ds : List (Deed α)} {call : Call} {a : Answer α} (h : Life c ds)
      (hs : c.Says call a) : Life c (.returned call a :: ds)

/-- What a cell can hold behind a story with a given count. -/
inductive Cell.Standing : Cell (Job α × α) α → Tally → Prop
  | suspended (job : Job α × α) : Standing (.suspended job) {}
  | running : Standing .running { begins := 1 }
  /-- The cell was made with a value. -/
  | completed (value : α) : Standing (.done value) {}
  | done (value : α) {ending : Ending Thrown} (he : ∀ p, ending ≠ .panicked p) {runs : Nat}
      (hr : runs ≤ 1) : Standing (.done value) { begins := 1, runs, endings := [ending] }
  | cancelled : Standing .cancelled { cancels := 1 }
  | abandoned (p : Payload) : Standing .abandoned { begins := 1, endings := [.panicked p] }

/-- A job begins once and is cancelled once at most; it is abandoned if and only if it panicked. -/
theorem Cell.Standing.counts {c : Cell (Job α × α) α} {t : Tally} (h : c.Standing t) :
    t.runs ≤ t.begins ∧ t.begins ≤ 1 ∧ t.cancels ≤ 1 ∧
      (c = .abandoned ↔ ∃ p, .panicked p ∈ t.endings) := by
  have hnone : (∃ p : Payload, .panicked p ∈ ([] : List (Ending Thrown))) → False := by
    rintro ⟨p, ⟨⟩⟩
  cases h with
  | suspended => exact ⟨Nat.le_refl 0, Nat.zero_le 1, Nat.zero_le 1, nofun, fun hp => (hnone hp).elim⟩
  | running => exact ⟨Nat.zero_le 1, Nat.le_refl 1, Nat.zero_le 1, nofun, fun hp => (hnone hp).elim⟩
  | completed => exact ⟨Nat.le_refl 0, Nat.zero_le 1, Nat.zero_le 1, nofun, fun hp => (hnone hp).elim⟩
  | done value he hr =>
    refine ⟨hr, Nat.le_refl 1, Nat.zero_le 1, nofun, ?_⟩
    rintro ⟨p, hp⟩
    exact absurd (List.mem_singleton.mp hp).symm (he p)
  | cancelled => exact ⟨Nat.le_refl 0, Nat.zero_le 1, Nat.le_refl 1, nofun, fun hp => (hnone hp).elim⟩
  | abandoned p =>
    exact ⟨Nat.zero_le 1, Nat.le_refl 1, Nat.zero_le 1, fun _ => ⟨p, List.mem_cons_self⟩, fun _ => rfl⟩

/-- What is said of a cell as it is counts for nothing. -/
theorem Cell.Says.add {J : Type} {c : Cell J α} {call : Call} {a : Answer α} (h : c.Says call a)
    (t : Tally) : t.add (.returned call a) = t := by
  cases h <;> rfl

/-- Behind the end of a job. -/
theorem Cell.standing_final (failed value : α) (ending : Ending Thrown) :
    (Cell.final failed value ending : Cell (Job α × α) α).Standing
      { begins := 1, endings := [ending] } := by
  cases ending with
  | finished => exact .done value (by rintro p ⟨⟩) (Nat.zero_le 1)
  | failed e => exact .done failed (by rintro p ⟨⟩) (Nat.zero_le 1)
  | panicked p => exact .abandoned p

/-- A call that ran the job hears that it did, unless the job panicked. -/
theorem Cell.standing_heard {failed value : α} {ending : Ending Thrown} {caller : Caller} {call : Call}
    {a : Answer α} (hc : caller.hears? (.final failed value ending : Cell (Job α × α) α) ending
      = some (call, a)) :
    (Cell.final failed value ending : Cell (Job α × α) α).Standing
      (Tally.add { begins := 1, endings := [ending] } (.returned call a)) := by
  cases caller with
  | worker => cases hc
  | wait =>
    cases hc
    exact standing_final failed value ending
  | run =>
    cases hc
    cases ending with
    | finished => exact .done value (by rintro p ⟨⟩) (Nat.le_refl 1)
    | failed e => exact .done failed (by rintro p ⟨⟩) (Nat.le_refl 1)
    | panicked p => exact .abandoned p

/-- **What a cell holds tells what was done with it.** -/
theorem Life.standing {c : Cell (Job α × α) α} {ds : List (Deed α)} (h : Life c ds) :
    c.Standing (.of ds) := by
  induction h with
  | created job => exact .suspended job
  | completed value => exact .completed value
  | @began job ds _ ih =>
    show Cell.Standing .running ((Tally.of ds).add (.began : Deed α))
    generalize Tally.of ds = t at ih
    cases ih
    exact .running
  | @ended ds _ failed value ending ih =>
    show Cell.Standing _ ((Tally.of ds).add (.ended ending : Deed α))
    generalize Tally.of ds = t at ih
    cases ih
    exact Cell.standing_final failed value ending
  | @heard ds failed value ending _ caller call a hc ih =>
    show Cell.Standing _ (((Tally.of ds).add (.ended ending : Deed α)).add (.returned call a))
    generalize Tally.of ds = t at ih
    cases ih
    exact Cell.standing_heard hc
  | @cancelled job ds _ ih =>
    show Cell.Standing _ ((Tally.of ds).add (.returned .cancel (.flag true) : Deed α))
    generalize Tally.of ds = t at ih
    cases ih
    exact .cancelled
  | @said c ds call a _ hs ih =>
    show Cell.Standing _ ((Tally.of ds).add (.returned call a))
    rwa [hs.add]

/-- One move of a cell, or none. -/
inductive Cell.Moves {J V : Type} : Cell J V → Cell J V → Prop
  | stays (c : Cell J V) : Moves c c
  | begins (job : J) : Moves (.suspended job) .running
  | finishes (value : V) : Moves .running (.done value)
  | panics : Moves .running .abandoned
  | cancelled (job : J) : Moves (.suspended job) .cancelled

/-! ### Consistent benches -/

namespace Bench

variable {b d : Bench α} {i j : Nat}

/-- All cells have a life, and those that are running are those with a job on the stack. -/
structure Consistent (b : Bench α) : Prop where
  lives : ∀ i, i < b.cells.length → Life (b.cell i) (b.story i)
  unmade : ∀ i, b.cells.length ≤ i → b.story i = []
  nodup : b.tasks.Nodup
  running : ∀ i, i ∈ b.tasks ↔ b.cell i = .running

/-- Something is done with one cell, and the others do not change. -/
theorem Consistent.changed (h : b.Consistent) (hi : i < b.cells.length) {c : Cell (Job α × α) α}
    (hc : d.cells = b.cells.set i c) (more : List (Deed α))
    (hself : d.story i = more ++ b.story i) (hother : ∀ j, i ≠ j → d.story j = b.story j)
    (hlife : Life c (more ++ b.story i)) (hn : d.tasks.Nodup)
    (hr : i ∈ d.tasks ↔ c = .running) (ho : ∀ j, i ≠ j → (j ∈ d.tasks ↔ j ∈ b.tasks)) :
    d.Consistent := by
  have hcell : ∀ j, d.cell j = (b.setCell i c).cell j := fun j => by rw [cell, cell, hc]; rfl
  have hlength : d.cells.length = b.cells.length := by rw [hc, List.length_set]
  refine ⟨fun j hj => ?_, fun j hj => ?_, hn, fun j => ?_⟩
  · rw [hcell]
    by_cases hij : i = j
    · subst hij
      rwa [cell_setCell_self hi, hself]
    · rw [cell_setCell_of_ne hij, hother j hij]
      exact h.lives j (hlength ▸ hj)
  · have hij : i ≠ j := by omega
    rw [hother j hij]
    exact h.unmade j (hlength ▸ hj)
  · rw [hcell]
    by_cases hij : i = j
    · subst hij
      rwa [cell_setCell_self hi]
    · rw [cell_setCell_of_ne hij, ho j hij]
      exact h.running j

theorem cell_made_old (hj : j < b.cells.length) (c : Cell (Job α × α) α) :
    ({ b with cells := b.cells ++ [c] } : Bench α).cell j = b.cell j := by
  rw [cell, cell, List.getElem?_append_left hj]

theorem cell_made_new (b : Bench α) (c : Cell (Job α × α) α) :
    ({ b with cells := b.cells ++ [c] } : Bench α).cell b.cells.length = c := by
  rw [cell, List.getElem?_append_right (Nat.le_refl _), Nat.sub_self]
  rfl

/-- A new cell. -/
theorem Consistent.made (h : b.Consistent) {c : Cell (Job α × α) α} (hlife : Life c [])
    (hr : c ≠ .running) :
    Consistent { b with cells := b.cells ++ [c] } := by
  have hlength : ({ b with cells := b.cells ++ [c] } : Bench α).cells.length = b.cells.length + 1 :=
    List.length_append
  have hlt : ∀ j ∈ b.tasks, j < b.cells.length := by
    intro j hj
    refine lt_of_cell_ne ?_
    rw [(h.running j).mp hj]
    exact nofun
  refine ⟨fun j hj => ?_, fun j hj => ?_, h.nodup, fun j => ?_⟩
  · rw [hlength] at hj
    rcases Nat.lt_succ_iff_lt_or_eq.mp hj with hj | rfl
    · rw [cell_made_old hj]
      exact h.lives j hj
    · rw [cell_made_new]
      exact h.unmade _ (Nat.le_refl _) ▸ hlife
  · rw [hlength] at hj
    exact h.unmade j (Nat.le_of_succ_le hj)
  · rcases Nat.lt_trichotomy j b.cells.length with hj | rfl | hj
    · rw [cell_made_old hj]
      exact h.running j
    · rw [cell_made_new]
      exact ⟨fun hj => absurd (hlt _ hj) (Nat.lt_irrefl _), fun hc => absurd hc hr⟩
    · refine ⟨fun hk => absurd (hlt j hk) (Nat.lt_asymm hj), fun hk => ?_⟩
      have hj' : j < b.cells.length + 1 := by
        rw [← hlength]
        refine lt_of_cell_ne ?_
        rw [hk]
        exact nofun
      omega

/-- A job on the stack is the job of a running cell, and is there once. -/
theorem Consistent.running_of_tasks (h : b.Consistent) {tasks : List Nat}
    (ht : b.tasks = i :: tasks) :
    b.cell i = .running ∧ i ∉ tasks ∧ tasks.Nodup := by
  have hn := h.nodup
  rw [ht, List.nodup_cons] at hn
  exact ⟨(h.running i).mp (ht ▸ List.mem_cons_self), hn⟩

theorem Consistent.idle (h : b.Consistent) (hc : b.cell i ≠ .running) : i ∉ b.tasks :=
  fun hk => hc ((h.running i).mp hk)

/-- **Every turn keeps the lives of all cells.** -/
theorem Turn.consistent (t : b.Turn d) (h : b.Consistent) : d.Consistent := by
  cases t with
  | rest => exact h
  | created job => exact h.made (.created job) nofun
  | completed value => exact h.made (.completed value) nofun
  | @began i job hc =>
    have hi : i < b.cells.length := lt_of_cell_ne (by rw [hc]; exact nofun)
    have hlife : Life .running (.began :: b.story i) := .began (hc ▸ h.lives i hi)
    have hnot : i ∉ b.tasks := h.idle (by rw [hc]; exact nofun)
    refine h.changed hi rfl [.began] (story_add_self _ _ _) (fun j hij => story_add_of_ne hij _ _)
      hlife (List.nodup_cons.mpr ⟨hnot, h.nodup⟩) ⟨fun _ => rfl, fun _ => List.mem_cons_self⟩
      fun j hij => ?_
    exact ⟨fun hj => (List.mem_cons.mp hj).resolve_left fun he => hij he.symm, List.mem_cons_of_mem _⟩
  | @ended i tasks ht value ending caller =>
    obtain ⟨hc, hnot, hn⟩ := h.running_of_tasks ht
    have hi : i < b.cells.length := lt_of_cell_ne (by rw [hc]; exact nofun)
    have hlife : Life .running (b.story i) := hc ▸ h.lives i hi
    have hidle : i ∈ tasks ↔ (Cell.final b.failed value ending : Cell (Job α × α) α) = .running :=
      ⟨fun hk => absurd hk hnot, fun hk => by cases ending <;> cases hk⟩
    have hothers : ∀ j, i ≠ j → (j ∈ tasks ↔ j ∈ b.tasks) := by
      intro j hij
      rw [ht, List.mem_cons]
      exact ⟨.inr, fun hj => hj.resolve_left fun he => hij he.symm⟩
    cases hheard : caller.hears? (.final b.failed value ending : Cell (Job α × α) α) ending with
    | none =>
      exact h.changed hi rfl [.ended ending] (story_add_self _ _ _)
        (fun j hij => story_add_of_ne hij _ _) (.ended hlife _ _ _) hn hidle hothers
    | some heard =>
      obtain ⟨call, a⟩ := heard
      refine h.changed hi rfl [.returned call a, .ended ending] ?_ (fun j hij => ?_)
        (.heard hlife hheard) hn hidle hothers
      · exact (story_add_self _ _ _).trans (congrArg _ (story_add_self _ _ _))
      · exact (story_add_of_ne hij _ _).trans (story_add_of_ne hij _ _)
  | @cancelled i job hc =>
    have hi : i < b.cells.length := lt_of_cell_ne (by rw [hc]; exact nofun)
    have hlife : Life .cancelled (.returned .cancel (.flag true) :: b.story i) :=
      .cancelled (hc ▸ h.lives i hi)
    have hnot : i ∉ b.tasks := h.idle (by rw [hc]; exact nofun)
    exact h.changed hi rfl [_] (story_add_self _ _ _) (fun j hij => story_add_of_ne hij _ _) hlife
      h.nodup ⟨fun hk => absurd hk hnot, nofun⟩ fun j _ => .rfl
  | @said i call a hi hs =>
    have hset : b.cells = b.cells.set i (b.cell i) := by
      rw [cell, List.getElem?_eq_getElem hi, Option.getD_some, List.set_getElem_self]
    exact h.changed hi hset [_] (story_add_self _ _ _) (fun j hij => story_add_of_ne hij _ _)
      (.said (h.lives i hi) hs) h.nodup (h.running i) fun j _ => .rfl

/-! ### Moves -/

theorem story_hear_of_ne (h : i ≠ j) (b : Bench α) (o : Option (Call × Answer α)) :
    (b.hear i o).story j = b.story j := by
  cases o with
  | none => rfl
  | some heard => exact story_add_of_ne h _ _

theorem cell_hear (b : Bench α) (i : Nat) (o : Option (Call × Answer α)) (j : Nat) :
    (b.hear i o).cell j = b.cell j := by
  rw [cell, cell, cells_hear]

/-- **A cell moves on, one move at a time.** -/
theorem Turn.moves (t : b.Turn d) (h : b.Consistent) (hj : j < b.cells.length) :
    (b.cell j).Moves (d.cell j) := by
  have hset : ∀ {i : Nat} {c : Cell (Job α × α) α}, (b.cell i).Moves c →
      (b.cell j).Moves ((b.setCell i c).cell j) := by
    intro i c hmove
    by_cases hij : i = j
    · subst hij
      rwa [cell_setCell_self hj]
    · rw [cell_setCell_of_ne hij]
      exact .stays _
  cases t with
  | rest => exact .stays _
  | created job => exact (cell_made_old hj _).symm ▸ .stays _
  | completed value => exact (cell_made_old hj _).symm ▸ .stays _
  | @began i job hc => exact hset (hc ▸ .begins job)
  | @ended i tasks ht value ending caller =>
    rw [cell_hear]
    refine hset ?_
    rw [(h.running_of_tasks ht).1]
    cases ending with
    | finished => exact .finishes value
    | failed e => exact .finishes b.failed
    | panicked p => exact .panics
  | @cancelled i job hc => exact hset (hc ▸ .cancelled job)
  | said => exact .stays _

/-- A cell that is made has not begun, unless it is made with a value. -/
theorem Turn.fresh (t : b.Turn d) (hj : b.cells.length ≤ j) (hd : j < d.cells.length) :
    (∃ job, d.cell j = .suspended job) ∨ ∃ value, d.cell j = .done value := by
  have hmade : ∀ {c : Cell (Job α × α) α}, d = { b with cells := b.cells ++ [c] } → d.cell j = c := by
    rintro c rfl
    have hlast : j = b.cells.length := by
      rw [List.length_append, List.length_singleton] at hd
      omega
    rw [hlast, cell_made_new]
  have hnone : d.cells.length ≠ b.cells.length := by omega
  cases t with
  | rest => exact absurd rfl hnone
  | created job => exact .inl ⟨job, hmade rfl⟩
  | completed value => exact .inr ⟨value, hmade rfl⟩
  | began => exact absurd List.length_set hnone
  | ended => exact absurd ((congrArg _ (cells_hear _ _ _)).trans List.length_set) hnone
  | cancelled => exact absurd List.length_set hnone
  | said => exact absurd rfl hnone

/-- No cell is lost. -/
theorem Turn.length_le (t : b.Turn d) : b.cells.length ≤ d.cells.length := by
  have hset : ∀ {i : Nat} {c : Cell (Job α × α) α}, b.cells.length ≤ (b.cells.set i c).length :=
    Nat.le_of_eq List.length_set.symm
  cases t with
  | rest => exact Nat.le_refl _
  | created => exact List.length_append ▸ Nat.le_add_right _ _
  | completed => exact List.length_append ▸ Nat.le_add_right _ _
  | began => exact hset
  | ended => exact (cells_hear _ _ _).symm ▸ hset
  | cancelled => exact hset
  | said => exact Nat.le_refl _

/-- **A final cell stays as it is**, and calls on it say so. -/
theorem Turn.settled (t : b.Turn d) (h : b.Consistent) (hj : j < b.cells.length)
    (hd : (b.cell j).isDone = true) : d.cell j = b.cell j ∧
      (d.story j = b.story j ∨
        ∃ call a, (b.cell j).Says call a ∧ d.story j = .returned call a :: b.story j) := by
  -- what a turn does to another cell
  have hother : ∀ {i : Nat}, i ≠ j → ∀ (c : Cell (Job α × α) α) (x : Deed α),
      ((b.setCell i c).add i x).cell j = b.cell j ∧ ((b.setCell i c).add i x).story j = b.story j :=
    fun hij c x => ⟨cell_setCell_of_ne hij b c, story_add_of_ne hij _ x⟩
  have hne : ∀ {i : Nat} {c : Cell (Job α × α) α}, b.cell i = c → c.isDone = false → i ≠ j := by
    rintro i c rfl hc rfl
    rw [hd] at hc
    cases hc
  cases t with
  | rest => exact ⟨rfl, .inl rfl⟩
  | created job => exact ⟨cell_made_old hj _, .inl rfl⟩
  | completed value => exact ⟨cell_made_old hj _, .inl rfl⟩
  | @began i job hc => exact (hother (hne hc rfl) _ _).imp_right .inl
  | @ended i tasks ht value ending caller =>
    have hij := hne (h.running_of_tasks ht).1 rfl
    obtain ⟨hcell, hstory⟩ := hother hij (.final b.failed value ending) (.ended ending)
    rw [cell_hear, story_hear_of_ne hij]
    exact ⟨hcell, .inl hstory⟩
  | @cancelled i job hc => exact (hother (hne hc rfl) _ _).imp_right .inl
  | @said i call a hi hs =>
    refine ⟨rfl, ?_⟩
    by_cases hij : i = j
    · subst hij
      exact .inr ⟨call, a, hs, story_add_self _ _ _⟩
    · exact .inl (story_add_of_ne hij _ _)

theorem consistent_fresh (failed : α) : Consistent (⟨failed, [], [], []⟩ : Bench α) :=
  ⟨nofun, fun _ _ => rfl, List.nodup_nil, fun _ => ⟨nofun, nofun⟩⟩

end Bench

/-! ### Yards -/

namespace Yard

variable {y z : Yard α} {i : Nat}

/-- A yard at any time, inside of jobs and between operations. -/
inductive Moment : Yard α → Prop
  | fresh {workers : Nat} {threadPrefix : String} {failed : α} {y : Yard α}
      (h : Yard.fresh workers threadPrefix failed = .ok y) : Moment y
  | turn {y z : Yard α} (h : Moment y) (t : y.Turn z) : Moment z

theorem Moment.reaches (h : y.Moment) (k : y.Reaches z) : z.Moment := by
  induction k with
  | refl => exact h
  | tail _ t ih => exact .turn ih t

/-- Between the operations of a program there is a moment of the yard. -/
theorem Moment.program (h : y.Moment) (steps : List (Step α)) :
    (steps.foldl (fun y s => (y.take s).2) y).Moment := by
  induction steps generalizing y with
  | nil => exact h
  | cons s rest ih => exact ih (h.reaches (reaches_take y s))

/-- What was done with a cell, the latest first. -/
def story (y : Yard α) (i : Nat) : List (Deed α) :=
  y.bench.story i

theorem bench_cell (y : Yard α) (i : Nat) : y.bench.cell i = y.cell i :=
  rfl

theorem Moment.consistent (h : y.Moment) : y.Grounded ∧ y.bench.Consistent := by
  induction h with
  | @fresh workers threadPrefix failed y h =>
    rw [Yard.fresh] at h
    split at h
    · cases h
    · cases h
      exact ⟨nofun, Bench.consistent_fresh failed⟩
  | turn _ t ih =>
    have hturns := t.takesTurn ih.1
    exact ⟨hturns.grounded, hturns.turn.consistent ih.2⟩

/-- **A final cell is final for good.** -/
theorem Moment.settled (h : y.Moment) (hi : i < y.cells.length) (hd : (y.cell i).isDone = true)
    (k : y.Reaches z) : i < z.cells.length ∧ z.cell i = y.cell i ∧ ∃ more,
      z.story i = more ++ y.story i ∧
        ∀ x ∈ more, ∃ call a, (y.cell i).Says call a ∧ x = .returned call a := by
  induction k with
  | refl => exact ⟨hi, rfl, [], rfl, nofun⟩
  | @tail v u k t ih =>
    obtain ⟨hlt, hcell, more, hstory, hsays⟩ := ih
    obtain ⟨hg, hconsistent⟩ := (h.reaches k).consistent
    have hdone : (v.bench.cell i).isDone = true := by
      rw [bench_cell, hcell]
      exact hd
    have hturn := (t.takesTurn hg).turn
    obtain ⟨hkeep, hmore⟩ := hturn.settled hconsistent hlt hdone
    refine ⟨Nat.lt_of_lt_of_le hlt hturn.length_le, hkeep.trans hcell, ?_⟩
    rcases hmore with hsame | ⟨call, a, hsay, hnew⟩
    · exact ⟨more, hsame.trans hstory, hsays⟩
    · rw [bench_cell, hcell] at hsay
      refine ⟨.returned call a :: more, hnew.trans (congrArg _ hstory), fun x hx => ?_⟩
      rcases List.mem_cons.mp hx with rfl | hx
      · exact ⟨call, a, hsay, rfl⟩
      · exact hsays x hx

/-- A cell that was not made has no story. -/
theorem Moment.standing (h : y.Moment) (i : Nat) :
    (y.cell i).Standing (.of (y.story i)) ∨ y.cell i = .discarded ∧ y.story i = [] := by
  obtain ⟨-, hconsistent⟩ := h.consistent
  by_cases hi : i < y.cells.length
  · exact .inl (hconsistent.lives i hi).standing
  · have hle := Nat.le_of_not_lt hi
    refine .inr ⟨?_, hconsistent.unmade i hle⟩
    rw [cell, List.getElem?_eq_none hle]
    rfl

/-- A cell that a call cancelled is cancelled for good, and its job never began. -/
theorem Moment.cancelled (h : y.Moment) (hc : (Tally.of (y.story i)).cancels = 1)
    (k : y.Reaches z) : (Tally.of (z.story i)).begins = 0 := by
  have hcell : y.cell i = .cancelled := by
    rcases h.standing i with hs | ⟨-, hs⟩
    · generalize Tally.of (y.story i) = t at hs hc
      generalize y.cell i = c at hs
      cases hs <;> cases hc
      rfl
    · rw [hs] at hc
      cases hc
  have hi : i < y.cells.length := Bench.lt_of_cell_ne (by rw [bench_cell, hcell]; exact nofun)
  obtain ⟨-, hkeep, -⟩ := h.settled hi (by rw [hcell]; rfl) k
  rcases (h.reaches k).standing i with hs | ⟨-, hs⟩
  · rw [hkeep, hcell] at hs
    generalize Tally.of (z.story i) = t at hs
    cases hs
    rfl
  · rw [hs]
    rfl

/-- A wait for a final cell, and a look at it, are answered at once. -/
theorem perform_final {d : Option Nat} (hd : y.cellOf? d = some i) (hc : (y.cell i).isDone = true) :
    y.perform (.wait d) = y.returned i .wait (y.cell i).answer ∧
      y.perform (.value d) = y.returned i .value (y.cell i).answer := by
  have hwait : y.wait i = y.returned i .wait (y.cell i).answer := by
    rw [wait]
    split
    · rename_i hs
      rw [hs] at hc
      cases hc
    · exact if_pos hc
  rw [perform, perform, onCell, onCell, hd]
  exact ⟨hwait, rfl⟩

/-- An entry of the queue is for nothing if the job has begun or was cancelled. -/
theorem advance_stale {n : Nat} {rest : List (Ticket α)} {last : Bool} {below : List (Frame α)}
    (hstuck : y.stuck = false) (hs : y.stack = .serving last :: below)
    (hq : y.pool.queue = ⟨n, .start i⟩ :: rest) (hc : (y.cell i).isSuspended = false) :
    y.advance = some ({ y with pool := { y.pool with
      queue := rest, completed := y.pool.completed + 1 } }.add (.taken n)) := by
  have htake : y.pool.take?
      = some (⟨n, .start i⟩, { y.pool with queue := rest, active := y.pool.active + 1 }) := by
    rw [Pool.take?, hq]
  have hserve : y.advance = some (y.serveStep last below) := by
    rw [advance, hs, hstuck]
    rfl
  rw [hserve, serveStep, htake]
  dsimp only
  split
  · rename_i hcell
    rw [show y.cell i = _ from hcell] at hc
    cases hc
  · rfl

/-- **The job of a cell runs once**, whatever is asked of a yard, from outside and from inside of
jobs.  A cell moves one move at a time, and is abandoned if and only if its job panicked; a call that
cancels it cancels its job for good; from the time when it is final, all its handles give the same
answer; and what the queue still holds for a job that was begun or cancelled does nothing. -/
theorem jobs_run_once (h : y.Moment) (i : Nat) :
    let tally := Tally.of (y.story i)
    tally.runs ≤ tally.begins ∧ tally.begins ≤ 1 ∧ tally.cancels ≤ 1 ∧
    (y.cell i = .abandoned ↔ ∃ p, .panicked p ∈ tally.endings) ∧
    (tally.cancels = 1 → ∀ z, y.Reaches z → (Tally.of (z.story i)).begins = 0) ∧
    (∀ z, y.Turn z →
      (i < y.cells.length → (y.cell i).Moves (z.cell i)) ∧
      (y.cells.length ≤ i → i < z.cells.length →
        (∃ job, z.cell i = .suspended job) ∨ ∃ value, z.cell i = .done value)) ∧
    (i < y.cells.length → (y.cell i).isDone = true → ∀ z, y.Reaches z →
      z.cell i = y.cell i ∧
      (∀ d, z.cellOf? d = some i →
        z.perform (.wait d) = z.returned i .wait (y.cell i).answer ∧
        z.perform (.value d) = z.returned i .value (y.cell i).answer) ∧
      ∃ more, z.story i = more ++ y.story i ∧
        ∀ x ∈ more, ∃ call a, (y.cell i).Says call a ∧ x = .returned call a) ∧
    (∀ n rest last below, y.stuck = false → y.stack = .serving last :: below →
      y.pool.queue = ⟨n, .start i⟩ :: rest → (y.cell i).isSuspended = false →
      y.advance = some ({ y with pool := { y.pool with
        queue := rest, completed := y.pool.completed + 1 } }.add (.taken n))) := by
  intro tally
  obtain ⟨hg, hconsistent⟩ := h.consistent
  have hcounts : tally.runs ≤ tally.begins ∧ tally.begins ≤ 1 ∧ tally.cancels ≤ 1 ∧
      (y.cell i = .abandoned ↔ ∃ p, .panicked p ∈ tally.endings) := by
    rcases h.standing i with hs | ⟨hc, hs⟩
    · exact hs.counts
    · have ht : tally = {} := congrArg Tally.of hs
      rw [ht, hc]
      exact ⟨Nat.le_refl 0, Nat.zero_le 1, Nat.zero_le 1, nofun, by rintro ⟨p, ⟨⟩⟩⟩
  obtain ⟨hruns, hbegins, hcancels, habandoned⟩ := hcounts
  refine ⟨hruns, hbegins, hcancels, habandoned, fun hc z k => h.cancelled hc k, fun z t => ?_,
    fun hi hd z k => ?_, fun n rest last below => advance_stale⟩
  · have hturn := (t.takesTurn hg).turn
    exact ⟨hturn.moves hconsistent, hturn.fresh⟩
  · obtain ⟨-, hcell, hmore⟩ := h.settled hi hd k
    refine ⟨hcell, fun d hz => ?_, hmore⟩
    rw [← hcell] at hd ⊢
    exact perform_final hz hd

/-- A yard with a job that asks for itself to be run, one that panics, and one that is cancelled; all
of them were handed to the pool before. -/
def busyYard : Yard Nat :=
  [.create 1 (.op (.run (some 0)) .done), .create 2 (.basic (.panic .other) .done), .create 3 .done,
    .op (.start (some 0)), .op (.start (some 1)), .op (.start (some 2)), .op (.run (some 0)),
    .op (.cancel (some 2)), .op .runPool].foldl (fun y s => (y.take s).2)
    { threadPrefix := "w", failed := 0, pool := .held 1 }

/-- The first job was run by a call, the second one by a worker, and the third one never will be. -/
theorem jobs_run_once_busyYard : busyYard.Moment ∧
    (Tally.of (busyYard.story 0)).runs = 1 ∧ (Tally.of (busyYard.story 0)).begins ≤ 1 ∧
    (∃ p, .panicked p ∈ (Tally.of (busyYard.story 1)).endings) ∧
    ∀ z, busyYard.Reaches z → z.cell 0 = .done 1 ∧ (Tally.of (z.story 2)).begins = 0 := by
  have hfresh : Yard.fresh 1 "w" 0 = .ok { threadPrefix := "w", failed := 0, pool := .held 1 } := rfl
  have h : busyYard.Moment := (Moment.fresh hfresh).program _
  obtain ⟨-, hbegins, -, -, -, -, hfinal, -⟩ := jobs_run_once h 0
  obtain ⟨-, -, -, hpanicked, -⟩ := jobs_run_once h 1
  obtain ⟨-, -, -, -, hcancelled, -⟩ := jobs_run_once h 2
  refine ⟨h, rfl, hbegins, hpanicked.mp rfl, fun z k => ?_⟩
  exact ⟨(hfinal (by decide) rfl z k).1, hcancelled rfl z k⟩

end Yard

end TestTree

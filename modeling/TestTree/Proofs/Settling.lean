/-
Operations come to an end: every step makes a yard lighter.

* `Yard.Performs.weight` : an operation adds less than it weighs in a script;
* `Yard.weight_advance` : **every step makes a yard lighter**;
* `Yard.advance_take` : so an operation from outside is followed until nothing is going on any more,
  or somebody waits for itself;
* `Yard.stuck_advance` : only a job that waits for itself gets stuck.
-/
import TestTree.Proofs.OneShot

namespace TestTree

/-! ### Sums -/

section Sums

variable {β : Type} (f : β → Nat)

theorem foldr_add_append (l m : List β) : (l ++ m).foldr (fun x n => f x + n) 0
    = l.foldr (fun x n => f x + n) 0 + m.foldr (fun x n => f x + n) 0 := by
  induction l with
  | nil => exact (Nat.zero_add _).symm
  | cons x rest ih => exact (congrArg (f x + ·) ih).trans (Nat.add_assoc ..).symm

/-- What is put in the place of an element, takes over from it. -/
theorem foldr_add_set {l : List β} {i : Nat} (h : i < l.length) (x : β) :
    (l.set i x).foldr (fun x n => f x + n) 0 + f l[i] = l.foldr (fun x n => f x + n) 0 + f x := by
  induction l generalizing i with
  | nil => cases h
  | cons y rest ih =>
    cases i with
    | zero =>
      rw [List.set_cons_zero, List.getElem_cons_zero, List.foldr_cons, List.foldr_cons]
      omega
    | succ i =>
      have hrest := ih (Nat.lt_of_succ_lt_succ h)
      rw [List.set_cons_succ, List.getElem_cons_succ, List.foldr_cons, List.foldr_cons]
      omega

end Sums

namespace Yard

variable {α : Type} {y z : Yard α} {i : Nat}

/-! ### Weights -/

theorem weight_congr (hs : z.stack = y.stack) (hq : z.pool.queue = y.pool.queue)
    (hc : z.cells = y.cells) : z.weight = y.weight := by
  rw [weight, weight, hs, hq, hc]

@[simp] theorem stack_answer (y : Yard α) (op : String) (a : Answer α) :
    (y.answer op a).stack = y.stack := by
  rw [answer]
  split <;> rfl

@[simp] theorem pool_answer (y : Yard α) (op : String) (a : Answer α) :
    (y.answer op a).pool = y.pool := by
  rw [answer]
  split <;> rfl

@[simp] theorem weight_answer (y : Yard α) (op : String) (a : Answer α) :
    (y.answer op a).weight = y.weight :=
  weight_congr (stack_answer _ _ _) (congrArg Pool.queue (pool_answer _ _ _)) (cells_answer _ _ _)

theorem weight_returned (y : Yard α) (i : Nat) (call : Call) (a : Answer α) :
    (y.returned i call a).weight = y.weight :=
  weight_answer _ _ _

/-- What is on top of the stack weighs on what is below. -/
theorem weight_cons (y : Yard α) (f : Frame α) (below : List (Frame α)) :
    ({ y with stack := f :: below } : Yard α).weight
      = frameWeight f + ({ y with stack := below } : Yard α).weight := by
  rw [weight, weight]
  dsimp only
  rw [List.foldr_cons]
  omega

theorem weight_push (y : Yard α) (f : Frame α) : (y.push f).weight = frameWeight f + y.weight :=
  weight_cons y f y.stack

theorem weight_of_stack {f : Frame α} {below : List (Frame α)} (hs : y.stack = f :: below) :
    y.weight = frameWeight f + ({ y with stack := below } : Yard α).weight := by
  rw [← weight_cons, ← hs]

theorem weight_setCell (hi : i < y.cells.length) (c : Cell (Job α × α) α) :
    (y.setCell i c).weight + cellWeight (y.cell i) = y.weight + cellWeight c := by
  have hset := foldr_add_set cellWeight hi c
  have hcell : y.cell i = y.cells[i] := by
    rw [cell, List.getElem?_eq_getElem hi]
    rfl
  rw [weight, weight, setCell, hcell]
  dsimp only
  omega

theorem lt_of_suspended {job : Job α × α} (hc : y.cell i = .suspended job) :
    i < y.cells.length :=
  Bench.lt_of_cell_ne (b := y.bench) (by rw [bench_cell, hc]; exact nofun)

/-- A cell that becomes final, or running, gets no heavier. -/
theorem weight_setCell_le (i : Nat) {c : Cell (Job α × α) α} (hc : c.isSuspended = false) :
    (y.setCell i c).weight ≤ y.weight := by
  have hnone : cellWeight c = 0 := by
    cases c with
    | suspended => cases hc
    | _ => rfl
  by_cases hi : i < y.cells.length
  · have hset := weight_setCell hi c
    omega
  · -- there is no such cell
    have hsame : y.cells.set i c = y.cells := List.set_eq_of_length_le (Nat.le_of_not_lt hi)
    exact Nat.le_of_eq (congrArg (fun cells => ({ y with cells } : Yard α).weight) hsame)

/-! ### Operations -/

theorem weight_addCell (y : Yard α) (op : String) (c : Cell (Job α × α) α) :
    (y.addCell op c).weight = y.weight + cellWeight c := by
  rw [addCell, weight_answer, weight, weight]
  dsimp only
  rw [foldr_add_append, List.foldr_cons, List.foldr_nil]
  omega

theorem weight_enqueue (y : Yard α) (op : String) (work : Work α) :
    (y.enqueue op work).weight ≤ y.weight + workWeight work := by
  rw [enqueue, Pool.submit?]
  split
  · rename_i pool hp
    split at hp
    · cases hp
    · cases hp
      rw [weight_answer, weight, weight]
      dsimp only [add]
      rw [foldr_add_append, List.foldr_cons, List.foldr_nil]
      dsimp only
      omega
  · rw [weight_answer]
    omega

/-- A job that begins goes from its cell to the stack. -/
theorem weight_begin {job : Job α} {value : α} (hc : y.cell i = .suspended (job, value))
    (caller : Caller) : (y.begin i job value caller).weight = y.weight := by
  have hset := weight_setCell (lt_of_suspended hc) .running
  have hcell : cellWeight (y.cell i) = job.weight + 1 := by rw [hc]; rfl
  have hrunning : cellWeight (.running : Cell (Job α × α) α) = 0 := rfl
  have hframe : frameWeight (.job job (.cell i value caller)) = job.weight + 1 := rfl
  have hpush : (y.begin i job value caller).weight
      = frameWeight (.job job (.cell i value caller)) + (y.setCell i .running).weight :=
    weight_push ((y.setCell i .running).add (.began i)) _
  omega

/-- **An operation adds less than it weighs in a script.** -/
theorem Performs.weight {op : Op α} (h : y.Performs op z) : z.weight ≤ y.weight + 2 := by
  cases h with
  | said a =>
    rw [weight_answer]
    omega
  | completed v =>
    rw [weight_addCell]
    exact Nat.le_add_right _ 2
  | cloned hd a =>
    rw [weight_answer]
    exact Nat.le_add_right _ 2
  | dropped d a =>
    rw [weight_answer]
    exact Nat.le_add_right _ 2
  | began h hc =>
    rw [weight_begin h]
    omega
  | returned hd h =>
    rw [weight_returned]
    omega
  | cancelled h =>
    rw [weight_returned]
    exact Nat.le_trans (weight_setCell_le _ rfl) (Nat.le_add_right _ 2)
  | queued i => exact weight_enqueue _ _ _
  | blocked hb => exact Nat.le_add_right _ 2
  | opened ho hi =>
    have hpush := weight_push { y with pool := y.pool.letGo } (.serving false)
    have hgo : ({ y with pool := y.pool.letGo } : Yard α).weight = y.weight := rfl
    have hframe : frameWeight (.serving false : Frame α) = 1 := rfl
    omega
  | refused hi a =>
    rw [weight_answer]
    exact Nat.le_add_right _ 2
  | closed hi =>
    have hpush := weight_push { y with pool := y.pool.refuse.letGo } (.serving true)
    have hgo : ({ y with pool := y.pool.refuse.letGo } : Yard α).weight = y.weight := rfl
    have hframe : frameWeight (.serving true : Frame α) = 1 := rfl
    omega

/-! ### Steps -/

theorem weight_workerDone (y : Yard α) (ending : Ending Thrown) :
    (y.workerDone ending).weight = y.weight := by
  cases ending <;> rfl

theorem weight_endJob (y : Yard α) (task : Task α) (below : List (Frame α))
    (ending : Ending Thrown) :
    (y.endJob task below ending).weight ≤ ({ y with stack := below } : Yard α).weight := by
  cases task with
  | plain => exact Nat.le_of_eq (weight_workerDone _ _)
  | cell i value caller =>
    have hfinal : (Cell.final y.failed value ending : Cell (Job α × α) α).isSuspended = false := by
      cases ending <;> rfl
    have hset := weight_setCell_le (y := { y with stack := below }) i hfinal
    rw [endJob]
    dsimp only
    split
    · rw [weight_workerDone]
      exact hset
    · rw [weight_returned]
      exact hset

theorem weight_serveStep {last : Bool} {below : List (Frame α)}
    (hs : y.stack = .serving last :: below) : (y.serveStep last below).weight < y.weight := by
  rw [serveStep, Pool.take?]
  cases hq : y.pool.queue with
  | nil =>
    -- nothing is queued, so what goes is the serving itself
    have htop := weight_of_stack hs
    have hframe : frameWeight (.serving last : Frame α) = 1 := rfl
    have hends : ∀ pool : Pool (Ticket α), pool.queue = y.pool.queue →
        ({ y with stack := below, pool } : Yard α).weight
          = ({ y with stack := below } : Yard α).weight := fun pool hp => weight_congr rfl hp rfl
    dsimp only
    rw [weight_answer]
    split
    · rw [hends y.pool rfl]
      omega
    · rw [hends y.pool.hold rfl]
      omega
  | cons ticket rest =>
    let x : Yard α := { y with pool := { y.pool with queue := rest, active := y.pool.active + 1 } }
    have hx : y.weight = workWeight ticket.work + x.weight := by
      rw [weight, weight, hq, List.foldr_cons]
      dsimp only [x]
      omega
    have hadd : (x.add (.taken ticket.number)).weight = x.weight := rfl
    dsimp only
    cases hwork : ticket.work with
    | script job =>
      have hpush := weight_push (x.add (.taken ticket.number)) (.job job .plain)
      have hframe : frameWeight (.job job .plain : Frame α) = job.weight + 1 := rfl
      have hweight : workWeight (.script job) = job.weight + 2 := rfl
      rw [hwork] at hx
      show ((x.add (.taken ticket.number)).push (.job job .plain)).weight < y.weight
      omega
    | start i =>
      have hweight : workWeight (.start i : Work α) = 2 := rfl
      rw [hwork] at hx
      dsimp only
      split
      · rename_i job value hc
        rw [weight_begin hc]
        show (x.add (.taken ticket.number)).weight < y.weight
        omega
      · show x.weight < y.weight
        omega

theorem weight_jobStep {rest : Job α} {task : Task α} {below : List (Frame α)}
    (hs : y.stack = .job rest task :: below) : (y.jobStep rest task below).weight < y.weight := by
  have htop := weight_of_stack hs
  have hrest : frameWeight (.job rest task) = rest.weight + 1 := rfl
  -- the yard with what follows on top of the stack
  have hgo : ∀ next : Job α, ({ y with stack := .job next task :: below } : Yard α).weight
      = next.weight + 1 + ({ y with stack := below } : Yard α).weight := fun next =>
    weight_cons y (.job next task) below
  cases rest with
  | done =>
    have hend := y.weight_endJob task below .finished
    have hdone : (Job.done : Job α).weight = 0 := rfl
    rw [jobStep]
    omega
  | basic b next =>
    have hbasic : (Job.basic b next).weight = next.weight + 1 := rfl
    have hnext := hgo next
    obtain ⟨store, events, -, hstep⟩ := y.jobStep_basic b next task below
    let x : Yard α := { y with stack := .job next task :: below, store, events }
    have hx : x.weight = ({ y with stack := .job next task :: below } : Yard α).weight := rfl
    rcases hstep with ⟨-, hstep⟩ | ⟨ending, hstep⟩
    · rw [hstep]
      show x.weight < y.weight
      omega
    · have hend := x.weight_endJob task below ending
      have hbelow : ({ x with stack := below } : Yard α).weight
          = ({ y with stack := below } : Yard α).weight := rfl
      rw [hstep]
      show (x.endJob task below ending).weight < y.weight
      omega
  | branch c yes no next =>
    have hbranch : (Job.branch c yes no next).weight
        = yes.weight + no.weight + next.weight + 1 := rfl
    have hyes := hgo (yes.append next)
    have hno := hgo (no.append next)
    rw [Job.weight_append] at hyes hno
    rw [jobStep]
    dsimp only
    split
    · omega
    · omega
  | create value job next =>
    have hcreate : (Job.create value job next).weight = job.weight + next.weight + 2 := rfl
    have hcell : cellWeight (.suspended (job, value) : Cell (Job α × α) α) = job.weight + 1 := rfl
    have hadd := weight_addCell ({ y with stack := .job next task :: below } : Yard α) "new"
      (.suspended (job, value))
    have hnext := hgo next
    rw [jobStep, create]
    dsimp only
    omega
  | submit job next =>
    have hsubmit : (Job.submit job next).weight = job.weight + next.weight + 3 := rfl
    have hwork : workWeight (.script job) = job.weight + 2 := rfl
    have hadd := weight_enqueue ({ y with stack := .job next task :: below } : Yard α) "submit"
      (.script job)
    have hnext := hgo next
    rw [jobStep, submit]
    dsimp only
    omega
  | op o next =>
    have hop : (Job.op o next).weight = next.weight + 3 := rfl
    have hperform := (performs ({ y with stack := .job next task :: below } : Yard α) o).weight
    have hnext := hgo next
    rw [jobStep]
    dsimp only
    omega

/-- **Every step makes a yard lighter.** -/
theorem weight_advance (h : y.advance = some z) : z.weight < y.weight := by
  obtain ⟨-, ⟨last, below, hs, rfl⟩ | ⟨rest, task, below, hs, rfl⟩⟩ := advance_cases h
  · exact weight_serveStep hs
  · exact weight_jobStep hs

/-- Nothing is going on, or somebody waits for itself. -/
theorem advance_eq_none_iff : y.advance = none ↔ y.stuck = true ∨ y.stack = [] := by
  rw [advance]
  by_cases hstuck : y.stuck = true
  · rw [if_pos hstuck]
    exact ⟨fun _ => .inl hstuck, fun _ => rfl⟩
  · rw [if_neg hstuck]
    cases hs : y.stack with
    | nil => exact ⟨fun _ => .inr rfl, fun _ => rfl⟩
    | cons f below =>
      constructor
      · intro h
        cases f <;> cases h
      · intro h
        cases h.resolve_left hstuck

@[simp] theorem stuck_answer (y : Yard α) (op : String) (a : Answer α) :
    (y.answer op a).stuck = y.stuck := by
  rw [answer]
  split <;> rfl

theorem stuck_enqueue (y : Yard α) (op : String) (work : Work α) :
    (y.enqueue op work).stuck = y.stuck := by
  rw [enqueue]
  split
  · exact stuck_answer _ _ _
  · exact stuck_answer _ _ _

/-- An operation gets nobody stuck but who waits for itself. -/
theorem Performs.stuck {op : Op α} (h : y.Performs op z) : z.stuck = y.stuck ∨ y.Blocks op := by
  cases h with
  | said a => exact .inl (stuck_answer _ _ _)
  | completed v => exact .inl (stuck_answer _ _ _)
  | cloned hd a => exact .inl (stuck_answer _ _ _)
  | dropped d a => exact .inl (stuck_answer _ _ _)
  | began h hc => exact .inl rfl
  | returned hd h => exact .inl (stuck_answer _ _ _)
  | cancelled h => exact .inl (stuck_answer _ _ _)
  | queued i => exact .inl (stuck_enqueue _ _ _)
  | blocked hb => exact .inr hb
  | opened ho hi => exact .inl rfl
  | refused hi a => exact .inl (stuck_answer _ _ _)
  | closed hi => exact .inl rfl

/-- The rest of a script has no part in what blocks. -/
theorem Blocks.of_goOn {rest next : Job α} {task : Task α} {below : List (Frame α)} {op : Op α}
    (h : ({ y with stack := .job next task :: below } : Yard α).Blocks op)
    (hs : y.stack = .job rest task :: below) : y.Blocks op := by
  cases op with
  | runPool =>
    refine ⟨h.1, ?_⟩
    rw [isServing, hs]
    exact h.2
  | shutDown =>
    show y.isClosing = true
    rw [isClosing, hs]
    exact h
  | _ => exact h

theorem stuck_workerDone (y : Yard α) (ending : Ending Thrown) :
    (y.workerDone ending).stuck = y.stuck := by
  cases ending <;> rfl

theorem stuck_endJob (y : Yard α) (task : Task α) (below : List (Frame α))
    (ending : Ending Thrown) : (y.endJob task below ending).stuck = y.stuck := by
  cases task with
  | plain => exact stuck_workerDone _ _
  | cell i value caller =>
    rw [endJob]
    dsimp only
    split
    · exact stuck_workerDone _ _
    · exact stuck_answer _ _ _

theorem stuck_serveStep (y : Yard α) (last : Bool) (below : List (Frame α)) :
    (y.serveStep last below).stuck = y.stuck := by
  rw [serveStep]
  split
  · split
    · rfl
    · dsimp only
      split
      · rfl
      · rfl
  · exact stuck_answer _ _ _

/-- **Only a job that waits for itself gets stuck.** -/
theorem stuck_advance (h : y.advance = some z) (hz : z.stuck = true) :
    ∃ op next task below, y.stack = .job (.op op next) task :: below ∧ y.Blocks op := by
  obtain ⟨hstuck, ⟨last, below, hs, rfl⟩ | ⟨rest, task, below, hs, rfl⟩⟩ := advance_cases h
  · rw [stuck_serveStep, hstuck] at hz
    cases hz
  · -- every other statement of the job leaves the yard as it was
    have hkept : (y.jobStep rest task below).stuck = y.stuck → False := by
      intro hsame
      rw [hsame, hstuck] at hz
      cases hz
    cases rest with
    | op o next =>
      have hperforms := performs { y with stack := .job next task :: below } o
      exact ⟨o, next, task, below, hs, (hperforms.stuck.resolve_left hkept).of_goOn hs⟩
    | done => exact (hkept (stuck_endJob _ _ _ _)).elim
    | basic b next =>
      obtain ⟨store, events, -, ⟨-, hstep⟩ | ⟨ending, hstep⟩⟩ := y.jobStep_basic b next task below
      · exact (hkept (by rw [hstep])).elim
      · exact (hkept (by rw [hstep, stuck_endJob])).elim
    | branch c yes no next => exact (hkept rfl).elim
    | create value job next => exact (hkept (stuck_answer _ _ _)).elim
    | submit job next => exact (hkept (stuck_enqueue _ _ _)).elim

end Yard

end TestTree

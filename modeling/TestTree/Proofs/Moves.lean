/-
Moves of a yard: steps of the machine, and panics that go through jobs.

* `Yard.Move` : a step, or a panic that ends the job on top of the stack;
* `Yard.Occurs`, `Yard.Steady` : the yards that moves and operations lead to, and what holds there;
* `Yard.Move.weight` : **every move makes a yard lighter**;
* `Yard.Move.below` : what is below the top of the stack stays there;
* `Yard.Tangled`, `Yard.Move.tangled` : **only who waits for itself gets stuck**;
* `Yard.Modest`, `Yard.Move.modest` : scripts that ask for no drain do not learn to.

## Design notes

A script catches the panic of a call at the call.  A job that lets it through ends with the same panic
as soon as the call has come back, so a move may end the job on top of the stack by a panic, at any
time; a panic that goes through several jobs makes as many moves.
-/
import TestTree.Proofs.PoolService

namespace TestTree

variable {α : Type}

/-! ### Scripts that ask for no drain -/

/-- The script asks for no drain and no shutdown, and neither do the scripts that it brings along. -/
def Job.Modest : Job α → Prop
  | .done => True
  | .basic _ next => next.Modest
  | .branch _ yes no next => yes.Modest ∧ no.Modest ∧ next.Modest
  | .create _ job next => job.Modest ∧ next.Modest
  | .submit job next => job.Modest ∧ next.Modest
  | .op o next => (∀ last, ¬ Yard.Serves o last) ∧ next.Modest

theorem Job.Modest.append {a b : Job α} (ha : a.Modest) (hb : b.Modest) : (a.append b).Modest := by
  induction a with
  | done => exact hb
  | basic _ _ ih => exact ih ha
  | branch _ _ _ _ _ _ ih => exact ⟨ha.1, ha.2.1, ih ha.2.2⟩
  | create _ _ _ _ ih => exact ⟨ha.1, ih ha.2⟩
  | submit _ _ _ ih => exact ⟨ha.1, ih ha.2⟩
  | op _ _ ih => exact ⟨ha.1, ih ha.2⟩

/-- What is left of a job that is going on asks for no drain. -/
def Frame.Modest : Frame α → Prop
  | .job rest _ => rest.Modest
  | .serving _ => True

/-- The job that waits in a cell asks for no drain. -/
def Cell.Modest : Cell (Job α × α) α → Prop
  | .suspended (job, _) => job.Modest
  | _ => True

/-- What is queued asks for no drain; the job of a cell is in its cell. -/
def Work.Modest : Work α → Prop
  | .script job => job.Modest
  | .start _ => True

namespace Yard

variable {y z : Yard α} {i : Nat}

/-! ### Moves -/

/-- What can come next: a step of the machine, or a panic that ends the job on top of the stack. -/
inductive Move (y : Yard α) : Yard α → Prop
  | step {z : Yard α} (h : y.advance = some z) : Move y z
  | thrown {rest : Job α} {task : Task α} {below : List (Frame α)} (hy : y.stuck = false)
      (hs : y.stack = .job rest task :: below) (p : Payload) :
      Move y (y.endJob task below (.panicked p))

/-- A yard at any time, when panics go through jobs as well. -/
inductive Occurs : Yard α → Prop
  | fresh {workers : Nat} {threadPrefix : String} {failed : α} {y : Yard α}
      (h : Yard.fresh workers threadPrefix failed = .ok y) : Occurs y
  | move {y z : Yard α} (h : Occurs y) (m : y.Move z) : Occurs z
  | outside {y : Yard α} (h : Occurs y) (s : Step α) : Occurs (y.issue s)

/-- What holds of a yard at any time: its cells have their lives, its counters are in balance. -/
structure Steady (y : Yard α) : Prop where
  grounded : y.Grounded
  consistent : y.bench.Consistent
  balanced : y.counter.Balanced

theorem Moment.occurs (h : y.Moment) : y.Occurs := by
  induction h with
  | fresh h => exact .fresh h
  | turn _ t ih =>
    cases t with
    | step h => exact .move ih (.step h)
    | outside s => exact .outside ih s

theorem Moment.steady (h : y.Moment) : y.Steady :=
  ⟨h.consistent.1, h.consistent.2, h.balanced⟩

theorem Steady.made (h : y.Steady) (hm : y.TakesTurn z) (hc : y.Counts z) : z.Steady :=
  ⟨hm.grounded, hm.turn.consistent h.consistent, hc.balanced h.balanced⟩

theorem Steady.turn (h : y.Steady) (t : y.Turn z) : z.Steady :=
  h.made (t.takesTurn h.grounded) (t.counts h.balanced.manned)

/-- **What holds at any time is kept by every move**, by a panic that ends a job as well. -/
theorem Move.steady (m : y.Move z) (h : y.Steady) : z.Steady := by
  cases m with
  | step hz => exact h.turn (.step hz)
  | thrown hy hs p => exact h.made (takesTurn_endJob h.grounded hs _) (counts_endJob hs _)

theorem Occurs.steady (h : y.Occurs) : y.Steady := by
  induction h with
  | fresh h => exact (Moment.fresh h).steady
  | move _ m ih => exact m.steady ih
  | outside _ s ih => exact ih.turn (.outside _ s)

/-- A job whose cell is running is on the stack, and the other way round. -/
theorem Steady.running (h : y.Steady) (i : Nat) :
    y.cell i = .running ↔ i ∈ y.stack.filterMap Frame.cell? :=
  (h.consistent.running i).symm

/-- The job on top of the stack has a cell that was made. -/
theorem Steady.lt (h : y.Steady) {rest : Job α} {value : α} {caller : Caller}
    {below : List (Frame α)} (hs : y.stack = .job rest (.cell i value caller) :: below) :
    i < y.cells.length := by
  have hmem : i ∈ y.stack.filterMap Frame.cell? := by
    rw [hs]
    exact List.mem_cons_self
  have hrunning := (h.running i).mpr hmem
  exact Bench.lt_of_cell_ne (b := y.bench) (by rw [bench_cell, hrunning]; exact nofun)

/-- **Every move makes a yard lighter.** -/
theorem Move.weight (m : y.Move z) : z.weight < y.weight := by
  cases m with
  | step hz => exact weight_advance hz
  | @thrown rest task below hy hs p =>
    have hend := y.weight_endJob task below (.panicked p)
    have htop := weight_of_stack hs
    have hframe : frameWeight (.job rest task) = rest.weight + 1 := rfl
    omega

theorem exists_move (hy : y.stuck = false) (hs : y.stack ≠ []) : ∃ z, y.Move z := by
  cases hz : y.advance with
  | some z => exact ⟨z, .step hz⟩
  | none =>
    rcases advance_eq_none_iff.mp hz with hstuck | hnil
    · rw [hy] at hstuck
      cases hstuck
    · exact absurd hnil hs

/-- What is below the top of the stack stays there. -/
theorem Move.below (m : y.Move z) {f : Frame α} {below : List (Frame α)} (hs : y.stack = f :: below) :
    ∃ new, z.stack = new ++ below := by
  cases m with
  | step hz =>
    obtain ⟨-, ⟨last, b, hserving, rfl⟩ | ⟨rest, task, b, hjob, rfl⟩⟩ := advance_cases hz
    · rw [hserving] at hs
      cases hs
      rcases y.stack_serveStep last below with ⟨new, hnew⟩ | ⟨-, hbelow, -⟩
      · exact ⟨new ++ [.serving last], by rw [hnew, hserving, List.append_assoc]; rfl⟩
      · exact ⟨[], hbelow⟩
    · rw [hjob] at hs
      cases hs
      exact y.stack_jobStep rest task below
  | @thrown rest task b hy hjob p =>
    rw [hjob] at hs
    cases hs
    exact ⟨[], stack_endJob _ _ _ _⟩

/-! ### Who waits for itself -/

/-- The job on top of the stack is about to wait for a job on the stack, which cannot go on before it
has come to its end, or for itself. -/
inductive Reentrant (y : Yard α) : Prop
  | wait {d : Option Nat} {i : Nat} {next : Job α} {task : Task α} {below : List (Frame α)}
      (hs : y.stack = .job (.op (.wait d) next) task :: below) (hd : y.cellOf? d = some i)
      (hi : i ∈ y.stack.filterMap Frame.cell?) : Reentrant y

/-- The job on top of the stack is about to wait for itself: by a wait, or by a drain or a shutdown
among the jobs of a worker. -/
inductive Tangled (y : Yard α) : Prop
  | wait (h : y.Reentrant) : Tangled y
  | worker {op : Op α} {last : Bool} {next : Job α} {task : Task α} {below : List (Frame α)}
      (hs : y.stack = .job (.op op next) task :: below) (ho : Serves op last)
      (hi : y.isServing = true) : Tangled y

/-- Whoever waits for the workers to finish has them serve the queue. -/
theorem isServing_of_isClosing (h : y.isClosing = true) : y.isServing = true := by
  rw [isClosing, List.any_eq_true] at h
  obtain ⟨f, hf, hlast⟩ := h
  rw [isServing, List.any_eq_true]
  cases f with
  | job => cases hlast
  | serving last => exact ⟨_, hf, rfl⟩

theorem Steady.tangled (h : y.Steady) {op : Op α} {next : Job α} {task : Task α}
    {below : List (Frame α)} (hs : y.stack = .job (.op op next) task :: below) (hb : y.Blocks op) :
    y.Tangled := by
  cases op with
  | wait d =>
    obtain ⟨i, hd, hc⟩ := hb
    exact .wait (.wait hs hd ((h.running i).mp hc))
  | runPool => exact .worker hs .runPool hb.2
  | shutDown => exact .worker hs .shutDown (isServing_of_isClosing hb)
  | _ => cases hb

/-- **Only who waits for itself gets stuck.** -/
theorem Move.tangled (m : y.Move z) (h : y.Steady) (hz : z.stuck = true) : y.Tangled := by
  cases m with
  | step hstep =>
    obtain ⟨op, next, task, below, hs, hblocks⟩ := stuck_advance hstep hz
    exact h.tangled hs hblocks
  | thrown hy hs p =>
    rw [stuck_endJob, hy] at hz
    cases hz

/-! ### Yards whose scripts ask for no drain -/

/-- No script in the yard asks for a drain, so nobody does but who stands outside of all jobs. -/
structure Modest (y : Yard α) : Prop where
  stack : ∀ f ∈ y.stack, f.Modest
  cells : ∀ c ∈ y.cells, c.Modest
  queue : ∀ t ∈ y.pool.queue, t.work.Modest

theorem Modest.congr (h : y.Modest) (hs : z.stack = y.stack) (hc : z.cells = y.cells)
    (hq : z.pool.queue = y.pool.queue) : z.Modest :=
  ⟨hs ▸ h.stack, hc ▸ h.cells, hq ▸ h.queue⟩

theorem Modest.answer (h : y.Modest) (op : String) (a : Answer α) : (y.answer op a).Modest :=
  h.congr (stack_answer _ _ _) (cells_answer _ _ _) (congrArg Pool.queue (pool_answer _ _ _))

theorem Modest.returned (h : y.Modest) (i : Nat) (call : Call) (a : Answer α) :
    (y.returned i call a).Modest :=
  (h.congr (z := y.add (.returned i call a)) rfl rfl rfl).answer _ _

theorem Modest.push (h : y.Modest) {f : Frame α} (hf : f.Modest) : (y.push f).Modest :=
  ⟨List.forall_mem_cons.mpr ⟨hf, h.stack⟩, h.cells, h.queue⟩

theorem Modest.setCell (h : y.Modest) (i : Nat) {c : Cell (Job α × α) α} (hc : c.Modest) :
    (y.setCell i c).Modest :=
  ⟨h.stack, fun d hd => (List.mem_or_eq_of_mem_set hd).elim (h.cells d) fun hd => hd ▸ hc, h.queue⟩

theorem Modest.addCell (h : y.Modest) (op : String) {c : Cell (Job α × α) α} (hc : c.Modest) :
    (y.addCell op c).Modest := by
  let x : Yard α := { y with
    cells := y.cells ++ [c], handles := y.handles ++ [some y.cells.length] }
  have hx : x.Modest :=
    ⟨h.stack, List.forall_mem_append.mpr ⟨h.cells, List.forall_mem_singleton.mpr hc⟩, h.queue⟩
  exact hx.answer _ _

theorem Modest.enqueue (h : y.Modest) (op : String) {work : Work α} (hw : work.Modest) :
    (y.enqueue op work).Modest := by
  cases hshut : y.pool.shutDown with
  | true =>
    rw [enqueue_shutDown hshut]
    exact h.answer _ _
  | false =>
    let t : Ticket α := ⟨y.pool.accepted, work⟩
    let x : Yard α := { y with pool := { y.pool with
      queue := y.pool.queue ++ [t], accepted := y.pool.accepted + 1 } }
    have hx : x.Modest := ⟨h.stack, h.cells,
      List.forall_mem_append.mpr ⟨h.queue, List.forall_mem_singleton.mpr hw⟩⟩
    rw [enqueue_open hshut]
    exact (hx.congr (z := x.add (.accepted y.pool.accepted)) rfl rfl rfl).answer _ _

theorem Modest.begin (h : y.Modest) {job : Job α} {value : α}
    (hc : y.cell i = .suspended (job, value)) (caller : Caller) :
    (y.begin i job value caller).Modest := by
  have hi := lt_of_suspended hc
  have hcell : y.cells[i] = .suspended (job, value) := by
    rw [cell, List.getElem?_eq_getElem hi] at hc
    exact hc
  have hjob : Cell.Modest (.suspended (job, value)) := hcell ▸ h.cells _ (List.getElem_mem hi)
  have hset : (y.setCell i .running).Modest := h.setCell i trivial
  exact (hset.congr (z := (y.setCell i .running).add (.began i)) rfl rfl rfl).push hjob

theorem Performs.modest {op : Op α} (hp : y.Performs op z) (h : y.Modest) : z.Modest := by
  have hsame : ∀ (v : Yard α) op a, v.stack = y.stack → v.cells = y.cells →
      v.pool.queue = y.pool.queue → (v.answer op a).Modest := fun v op a hs hc hq =>
    (h.congr hs hc hq).answer op a
  cases hp with
  | said a => exact h.answer _ a
  | completed v => exact h.addCell _ trivial
  | cloned hd a => exact hsame _ _ a rfl rfl rfl
  | dropped d a => exact hsame _ _ a rfl rfl rfl
  | began hc => exact h.begin hc _
  | returned hd hsays => exact h.returned _ _ _
  | @cancelled i _ hc => exact (h.setCell i (c := .cancelled) trivial).returned _ _ _
  | queued i => exact h.enqueue _ trivial
  | blocked hb => exact h.congr rfl rfl rfl
  | opened ho hi => exact (h.congr (z := { y with pool := y.pool.letGo }) rfl rfl rfl).push trivial
  | refused hi a => exact hsame _ _ a rfl rfl rfl
  | closed hi => exact (h.congr (z := { y with pool := y.pool.refuse.letGo }) rfl rfl rfl).push trivial

theorem Modest.endJob (h : y.Modest) {f : Frame α} {below : List (Frame α)}
    (hs : y.stack = f :: below) (task : Task α) (ending : Ending Thrown) :
    (y.endJob task below ending).Modest := by
  have hbelow : ({ y with stack := below } : Yard α).Modest :=
    ⟨fun g hg => h.stack g (hs ▸ List.mem_cons_of_mem f hg), h.cells, h.queue⟩
  have hdone : ∀ v : Yard α, v.Modest → (v.workerDone ending).Modest := by
    intro v hv
    cases ending <;> exact hv.congr rfl rfl rfl
  cases task with
  | plain => exact hdone _ hbelow
  | cell i value caller =>
    have hfinal : (Cell.final y.failed value ending : Cell (Job α × α) α).Modest := by
      cases ending <;> trivial
    let x : Yard α := ({ y with stack := below }.setCell i (.final y.failed value ending)).add
      (.ended i ending)
    have hx : x.Modest := (hbelow.setCell i hfinal).congr rfl rfl rfl
    rw [Yard.endJob]
    dsimp only
    split
    · exact hdone x hx
    · exact hx.returned _ _ _

theorem Modest.serveStep (h : y.Modest) {last : Bool} {below : List (Frame α)}
    (hs : y.stack = .serving last :: below) : (y.serveStep last below).Modest := by
  rw [Yard.serveStep, Pool.take?]
  cases hq : y.pool.queue with
  | nil =>
    let x : Yard α := { y with
      stack := below, pool := if y.pool.shutDown then y.pool else y.pool.hold }
    have hqueue : x.pool.queue = y.pool.queue := by
      dsimp only [x]
      split <;> rfl
    have hx : x.Modest :=
      ⟨fun g hg => h.stack g (hs ▸ List.mem_cons_of_mem _ hg), h.cells, hqueue ▸ h.queue⟩
    exact hx.answer _ _
  | cons ticket rest =>
    have hqueue := List.forall_mem_cons.mp (hq ▸ h.queue)
    let x : Yard α := { y with
      pool := { y.pool with queue := rest, active := y.pool.active + 1 } }.add (.taken ticket.number)
    have hx : x.Modest := ⟨h.stack, h.cells, hqueue.2⟩
    dsimp only
    split
    · rename_i job hwork
      have hjob : ticket.work.Modest := hqueue.1
      rw [hwork] at hjob
      exact hx.push hjob
    · split
      · rename_i hc
        exact hx.begin hc _
      · exact hx.congr rfl rfl rfl

theorem Modest.jobStep (h : y.Modest) {rest : Job α} {task : Task α} {below : List (Frame α)}
    (hs : y.stack = .job rest task :: below) : (y.jobStep rest task below).Modest := by
  have htop : rest.Modest := h.stack (.job rest task) (hs ▸ List.mem_cons_self)
  have hgo : ∀ next : Job α, next.Modest →
      ({ y with stack := .job next task :: below } : Yard α).Modest := fun next hnext =>
    ⟨List.forall_mem_cons.mpr ⟨hnext, fun g hg => h.stack g (hs ▸ List.mem_cons_of_mem _ hg)⟩,
      h.cells, h.queue⟩
  cases rest with
  | done => exact h.endJob hs task _
  | basic b next =>
    obtain ⟨store, events, -, ⟨-, hstep⟩ | ⟨ending, hstep⟩⟩ := y.jobStep_basic b next task below
    · rw [hstep]
      exact (hgo next htop).congr rfl rfl rfl
    · have hx : ({ y with stack := .job next task :: below, store, events } : Yard α).Modest :=
        (hgo next htop).congr rfl rfl rfl
      rw [hstep]
      exact hx.endJob rfl task ending
  | branch c yes no next =>
    refine hgo _ ?_
    split
    · exact htop.1.append htop.2.2
    · exact htop.2.1.append htop.2.2
  | create value job next => exact (hgo next htop.2).addCell _ htop.1
  | submit job next => exact (hgo next htop.2).enqueue _ htop.1
  | op o next => exact (performs _ o).modest (hgo next htop.2)

/-- **Scripts do not learn to ask for drains.** -/
theorem Move.modest (m : y.Move z) (h : y.Modest) : z.Modest := by
  cases m with
  | thrown hy hs p => exact h.endJob hs _ _
  | step hz =>
    obtain ⟨-, ⟨last, below, hs, rfl⟩ | ⟨rest, task, below, hs, rfl⟩⟩ := advance_cases hz
    · exact h.serveStep hs
    · exact h.jobStep hs

theorem Modest.reentrant (h : y.Modest) (ht : y.Tangled) : y.Reentrant := by
  cases ht with
  | wait hr => exact hr
  | worker hs ho hi =>
    have htop := h.stack _ (hs ▸ List.mem_cons_self)
    exact absurd ho (htop.1 _)

end Yard

end TestTree

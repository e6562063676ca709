/-
Waits come to an end, unless somebody waits for itself.

* `Yard.Leads`, `Yard.ComesTo` : whichever moves are made, they get there;
* `Yard.Above.leads` : what a call puts on the stack comes to its end;
* `Yard.Asks` : an operation is asked for, from outside or by a job;
* `Yard.Asks.wait`, `Yard.Asks.serve` : a wait comes back, and so does a drain that no job of a worker
  asks for;
* `Yard.waits_end` : **a wait blocks nobody but who waits for itself, and draining ends**.

## Design notes

That a call comes back does not follow from the weight of the yard alone: the queue gets longer while it
is served, and a job that is run for a wait asks for others, which are on top of it then.  But what is
below the top of the stack is touched by nobody.  So the frame that a call puts on the stack stays there
until it is on top and comes to its end, and the weight says that this takes no more than so many moves.
-/
import TestTree.Proofs.Moves

namespace TestTree

namespace Yard

variable {α : Type} {y z : Yard α} {i : Nat}

/-! ### Where all moves lead to -/

/-- Whichever moves are made from a yard, they get to one with `Q`, unless there is one with `E` on the
way.  There are not infinitely many of them, and there is one as long as neither holds. -/
inductive Leads (E Q : Yard α → Prop) : Yard α → Prop
  | here {y : Yard α} (h : Q y) : Leads E Q y
  | except {y : Yard α} (h : E y) : Leads E Q y
  | later {y : Yard α} (hgo : ∃ z, y.Move z) (h : ∀ z, y.Move z → Leads E Q z) : Leads E Q y

/-- All moves lead to `Q`, unless a job waits for itself; and if scripts leave it to others to ask for
drains, this is by a wait for a job on the stack. -/
structure ComesTo (y : Yard α) (Q : Yard α → Prop) : Prop where
  leads : y.Leads Tangled Q
  modest : y.Modest → y.Leads Reentrant Q

/-- Something with `P` is on the stack, on top of `base` and below all that it asked for. -/
structure Above (P : Frame α → Prop) (base : List (Frame α)) (y : Yard α) : Prop where
  steady : y.Steady
  free : y.stuck = false
  stack : ∃ more f, P f ∧ y.stack = more ++ f :: base

/-- **What a call puts on the stack stays there until it is on top and comes to its end.** -/
theorem Above.leads {P : Frame α → Prop} {base : List (Frame α)} {Q : Yard α → Prop}
    (htop : ∀ {y z : Yard α} {f}, P f → y.Steady → y.stack = f :: base → y.Move z →
      (∃ new g, P g ∧ z.stack = new ++ g :: base) ∨ Q z) (h : y.Above P base) :
    y.Leads Tangled Q := by
  induction hw : y.weight using Nat.strongRecOn generalizing y with
  | ind n ih =>
    obtain ⟨more, f, hf, hs⟩ := h.stack
    by_cases htangled : y.Tangled
    · exact .except htangled
    · have hgoes : y.stack ≠ [] := by
        rw [hs]
        exact List.append_ne_nil_of_right_ne_nil _ (List.cons_ne_nil _ _)
      refine .later (exists_move h.free hgoes) fun z m => ?_
      have hz : z.stuck = false := Bool.of_not_eq_true fun hz => htangled (m.tangled h.steady hz)
      have hnext : (∃ new g, P g ∧ z.stack = new ++ g :: base) ∨ Q z := by
        cases more with
        | nil => exact htop hf h.steady hs m
        | cons top more =>
          obtain ⟨new, hnew⟩ := m.below hs
          refine .inl ⟨new ++ more, f, hf, ?_⟩
          rw [hnew, List.append_assoc]
          rfl
      rcases hnext with hkept | hthere
      · exact ih z.weight (hw ▸ m.weight) ⟨m.steady h.steady, hz, hkept⟩ rfl
      · exact .here hthere

theorem Leads.comesTo {Q : Yard α → Prop} (h : y.Leads Tangled Q) : y.ComesTo Q := by
  refine ⟨h, fun hm => ?_⟩
  induction h with
  | here h => exact .here h
  | except h => exact .except (hm.reentrant h)
  | later hgo _ ih => exact .later hgo fun z m => ih z m (m.modest hm)

/-- What is going on gets where all moves lead to. -/
theorem Leads.settle {E Q : Yard α → Prop} (hQ : ∀ z, Q z → z.stack = []) (h : y.Leads E Q) :
    ∀ {fuel : Nat}, y.weight ≤ fuel → Q (settle fuel y) ∨ ∃ x, y.Reaches x ∧ E x := by
  induction h with
  | @here y h =>
    intro fuel _
    have hnone : y.advance = none := advance_eq_none_iff.mpr (.inr (hQ y h))
    cases fuel with
    | zero => exact .inl h
    | succ fuel =>
      rw [Yard.settle, hnone]
      exact .inl h
  | @except y h => exact fun _ => .inr ⟨y, .refl, h⟩
  | @later y hgo _ ih =>
    intro fuel hw
    have hsome : ∃ z, y.advance = some z := by
      obtain ⟨v, m⟩ := hgo
      cases m with
      | step hz => exact ⟨v, hz⟩
      | thrown hy hs p =>
        rw [advance, hy, hs]
        exact ⟨_, rfl⟩
    obtain ⟨z, hz⟩ := hsome
    have hlighter := weight_advance hz
    cases fuel with
    | zero => omega
    | succ fuel =>
      have hfuel : z.weight ≤ fuel := by omega
      rw [Yard.settle, hz]
      rcases ih z (.step hz) hfuel with hthere | ⟨x, k, hx⟩
      · exact .inl hthere
      · exact .inr ⟨x, (Turn.step hz).reaches.trans k, hx⟩

/-- **The program that follows an operation from outside to its end, gets where all moves lead to.** -/
theorem ComesTo.take {op : Op α} {Q : Yard α → Prop} (hQ : ∀ z, Q z → z.stack = [])
    (h : (y.issue (.op op)).ComesTo Q) : Q (y.take (.op op)).2 ∨
      ∃ x, y.Reaches x ∧ x.Tangled ∧ (y.Modest → x.Reentrant) := by
  have hfirst := (Turn.outside y (.op op)).reaches
  by_cases hm : y.Modest
  · have hissue : (y.issue (.op op)).Modest :=
      (performs { y with reply := none } op).modest (hm.congr rfl rfl rfl)
    rcases (h.modest hissue).settle hQ (Nat.le_refl _) with hthere | ⟨x, k, hx⟩
    · exact .inl hthere
    · exact .inr ⟨x, hfirst.trans k, .wait hx, fun _ => hx⟩
  · rcases h.leads.settle hQ (Nat.le_refl _) with hthere | ⟨x, k, hx⟩
    · exact .inl hthere
    · exact .inr ⟨x, hfirst.trans k, hx, fun h => absurd h hm⟩

/-! ### Calls -/

/-- An operation is asked for in `y`, from outside or by the job on top of the stack: `base` is what
goes on when it has come back, and `z` is the yard when it has begun. -/
inductive Asks (y : Yard α) (op : Op α) : (base : List (Frame α)) → (z : Yard α) → Prop
  | outside (hs : y.stack = []) : Asks y op [] (y.issue (.op op))
  | job {next : Job α} {task : Task α} {below : List (Frame α)} {z : Yard α}
      (hs : y.stack = .job (.op op next) task :: below) (hz : y.advance = some z) :
      Asks y op (.job next task :: below) z

variable {op : Op α} {base : List (Frame α)} {d : Option Nat} {last : Bool}

theorem Asks.steady (ha : y.Asks op base z) (h : y.Steady) : z.Steady := by
  cases ha with
  | outside hs => exact h.turn (.outside y _)
  | job hs hz => exact h.turn (.step hz)

/-- The yard of whoever asks for an operation, with the stack on which it is performed. -/
theorem Asks.perform (ha : y.Asks op base z) (hy : y.stuck = false) : ∃ x : Yard α,
    z = x.perform op ∧ x.stack = base ∧ x.bench = y.bench ∧ x.counter = y.counter ∧
      x.handles = y.handles ∧ x.isServing = y.isServing ∧ x.stuck = false := by
  cases ha with
  | outside hs => exact ⟨{ y with reply := none }, rfl, hs, rfl, rfl, rfl, rfl, hy⟩
  | @job next task below _ hs hz =>
    have hstep : y.advance = some (y.jobStep (.op op next) task below) := by
      rw [advance, hy, hs]
      rfl
    refine ⟨{ y with stack := .job next task :: below }, ?_, rfl, bench_goOn hs next,
      counter_goOn hs next, rfl, ?_, hy⟩
    · rw [hstep] at hz
      exact (Option.some.inj hz).symm
    · rw [isServing, isServing, hs]
      rfl

/-! ### Waits -/

/-- A wait for a cell has just come back to whoever goes on with `base`. -/
inductive Heard (i : Nat) (base : List (Frame α)) : Yard α → Prop
  /-- It brings the value of a final cell, or why there is none. -/
  | answered {x : Yard α} (hs : x.stack = base) (hx : x.stuck = false)
      (hd : (x.cell i).isDone = true) : Heard i base (x.returned i .wait (x.cell i).answer)
  /-- It raises the panic of the job that was run for it. -/
  | raised {x : Yard α} {p : Payload} {before : List (YardEvent α)} (hs : x.stack = base)
      (hx : x.stuck = false) (hc : x.cell i = .abandoned)
      (he : x.events = .ended i (.panicked p) :: before) :
      Heard i base (x.returned i .wait (.panicked p.message))

theorem Heard.stack (h : z.Heard i base) : z.stack = base := by
  cases h with
  | answered hs => exact (stack_answer _ _ _).trans hs
  | raised hs => exact (stack_answer _ _ _).trans hs

theorem Heard.free (h : z.Heard i base) : z.stuck = false := by
  cases h with
  | answered _ hx => exact (stuck_answer _ _ _).trans hx
  | raised _ hx => exact (stuck_answer _ _ _).trans hx

/-- When the job that was run for a wait has ended, the wait comes back. -/
theorem heard_endJob (hi : i < y.cells.length) (hy : y.stuck = false) (value : α)
    (base : List (Frame α)) (ending : Ending Thrown) :
    (y.endJob (.cell i value .wait) base ending).Heard i base := by
  let c : Cell (Job α × α) α := .final y.failed value ending
  let x : Yard α := ({ y with stack := base }.setCell i c).add (.ended i ending)
  have hx : x.cell i = c := Bench.cell_setCell_self (b := y.bench) hi c
  have hback : x.stack = base := rfl
  have hfree : x.stuck = false := hy
  cases ending with
  | panicked p => exact .raised hback hfree hx rfl
  | finished =>
    have hdone : (x.cell i).isDone = true := by rw [hx]; rfl
    have hheard := Heard.answered hback hfree hdone
    rw [hx] at hheard
    exact hheard
  | failed e =>
    have hdone : (x.cell i).isDone = true := by rw [hx]; rfl
    have hheard := Heard.answered hback hfree hdone
    rw [hx] at hheard
    exact hheard

/-- What is put on the stack by a wait. -/
def IsWaitFor (i : Nat) (value : α) (f : Frame α) : Prop :=
  ∃ rest, f = .job rest (.cell i value .wait)

/-- **The job that is run for a wait goes on, or the wait comes back.** -/
theorem Move.waiting {value : α} {f : Frame α} (hf : IsWaitFor i value f) (h : y.Steady)
    (hs : y.stack = f :: base) (m : y.Move z) :
    (∃ new g, IsWaitFor i value g ∧ z.stack = new ++ g :: base) ∨ z.Heard i base := by
  obtain ⟨rest, rfl⟩ := hf
  have hi := h.lt hs
  cases m with
  | thrown hy hjob p =>
    rw [hjob] at hs
    cases hs
    exact .inr (heard_endJob hi hy value base _)
  | step hstep =>
    obtain ⟨hy, ⟨last, below, hserving, -⟩ | ⟨r, task, below, hjob, rfl⟩⟩ := advance_cases hstep
    · rw [hserving] at hs
      cases hs
    · rw [hjob] at hs
      cases hs
      rcases y.jobStep_cases rest _ base with ⟨new, next, hgoes⟩ | ⟨x, ending, hcells, hx, hends⟩
      · exact .inl ⟨new, _, ⟨next, rfl⟩, hgoes⟩
      · rw [hends]
        exact .inr (heard_endJob (hcells ▸ hi) (hx.trans hy) value base ending)

/-- **A wait gets stuck if its job is on the stack, and comes back if it is not.** -/
theorem Asks.wait (ha : y.Asks (.wait d) base z) (h : y.Steady) (hy : y.stuck = false)
    (hd : y.cellOf? d = some i) :
    (i ∈ y.stack.filterMap Frame.cell? → z.stuck = true) ∧
      (i ∉ y.stack.filterMap Frame.cell? → z.stuck = false ∧ z.ComesTo (Heard i base)) := by
  have hsteady := ha.steady h
  obtain ⟨x, rfl, rfl, hbench, -, hhandles, -, hx⟩ := ha.perform hy
  have hcell : x.cell i = y.cell i := congrArg (fun b : Bench α => b.cell i) hbench
  have hwait : x.perform (.wait d) = x.wait i := by
    have hown : x.cellOf? d = some i := by
      rw [cellOf?, hhandles]
      exact hd
    rw [Yard.perform, onCell, hown]
  rw [← h.running i, ← hcell]
  rw [hwait] at hsteady ⊢
  cases hc : x.cell i with
  | running =>
    refine ⟨fun _ => ?_, fun hidle => absurd rfl hidle⟩
    rw [Yard.wait, hc]
    rfl
  | suspended job =>
    obtain ⟨job, value⟩ := job
    have hbegin : x.wait i = x.begin i job value .wait := by rw [Yard.wait, hc]
    rw [hbegin] at hsteady ⊢
    have habove : (x.begin i job value .wait).Above (IsWaitFor i value) x.stack :=
      ⟨hsteady, hx, [], _, ⟨job, rfl⟩, rfl⟩
    refine ⟨fun hrunning => ?_, fun _ => ⟨hx, (habove.leads Move.waiting).comesTo⟩⟩
    cases hrunning
  | _ =>
    have hdone : (x.cell i).isDone = true := by rw [hc]; rfl
    have hheard : (x.wait i).Heard i x.stack := by
      have hnow : x.wait i = x.returned i .wait (x.cell i).answer := by
        rw [Yard.wait, hc]
        rfl
      rw [hnow]
      exact .answered rfl hx hdone
    refine ⟨fun hrunning => ?_, fun _ => ⟨hheard.free, (Leads.here hheard).comesTo⟩⟩
    cases hrunning

/-! ### Drains and shutdowns -/

/-- The queue was served, and whoever asked for it goes on with `base`. -/
inductive Drained (op : Op α) (base : List (Frame α)) : Yard α → Prop
  | served {x : Yard α} (hs : x.stack = base) (hx : x.stuck = false) (hq : x.pool.queue = [])
      (ht : x.takes = x.accepts) : Drained op base (x.answer op.name .ok)

theorem Drained.stack (h : z.Drained op base) : z.stack = base := by
  cases h with
  | served hs => exact (stack_answer _ _ _).trans hs

/-- When nothing is queued any more, the workers are done. -/
theorem Steady.drained (h : y.Steady) (ho : Serves op last) (hy : y.stuck = false)
    (hq : y.pool.queue = []) (base : List (Frame α)) :
    (y.serveStep last base).Drained op base := by
  have horder := h.balanced.order
  have hqueue : y.counter.pool.queue = [] := hq
  rw [hqueue, List.map_nil, List.append_nil] at horder
  let pool := if y.pool.shutDown then y.pool else y.pool.hold
  have hpool : pool.queue = [] := by
    cases hshut : y.pool.shutDown with
    | true => rw [show pool = y.pool from if_pos hshut, hq]
    | false => rw [show pool = y.pool.hold from if_neg (by rw [hshut]; exact nofun)]; exact hq
  have hserved : Drained op base (({ y with stack := base, pool } : Yard α).answer op.name .ok) :=
    .served rfl hy hpool horder.symm
  rw [serveStep, Pool.take?, hq]
  cases ho with
  | runPool => exact hserved
  | shutDown => exact hserved

/-- **The workers go on serving the queue, or it is empty.** -/
theorem Move.serving (ho : Serves op last) {f : Frame α} (hf : f = .serving last) (h : y.Steady)
    (hs : y.stack = f :: base) (m : y.Move z) :
    (∃ new g, g = .serving last ∧ z.stack = new ++ g :: base) ∨ z.Drained op base := by
  rw [hf] at hs
  cases m with
  | thrown hy hjob p =>
    rw [hjob] at hs
    cases hs
  | step hstep =>
    obtain ⟨hy, ⟨l, below, hserving, rfl⟩ | ⟨rest, task, below, hjob, -⟩⟩ := advance_cases hstep
    · rw [hserving] at hs
      cases hs
      rcases y.stack_serveStep last base with ⟨new, hnew⟩ | ⟨hqueue, -, -⟩
      · exact .inl ⟨new, _, rfl, by rw [hnew, hserving]⟩
      · exact .inr (h.drained ho hy hqueue base)
    · rw [hjob] at hs
      cases hs

/-- When the workers begin to serve the queue, all moves lead to the end of it. -/
theorem Steady.served (h : y.Steady) (hy : y.stuck = false) (ho : Serves op last)
    (hs : y.stack = .serving last :: base) : y.ComesTo (Drained op base) :=
  (Above.leads (Move.serving ho) ⟨h, hy, [], _, rfl, hs⟩).comesTo

/-- **A drain or a shutdown comes back when the queue is empty**, if no job of a worker asks for it. -/
theorem Asks.serve (ha : y.Asks op base z) (h : y.Steady) (hy : y.stuck = false)
    (ho : Serves op last) (hi : y.isServing = false) : z.ComesTo (Drained op base) := by
  have hsteady := ha.steady h
  obtain ⟨x, rfl, rfl, -, hcounter, -, hserving, hx⟩ := ha.perform hy
  have hidle : x.isServing = false := hserving.trans hi
  have hopen : x.isClosing = false := Bool.of_not_eq_true fun hc => by
    rw [isServing_of_isClosing hc] at hidle
    cases hidle
  -- a pool that was shut down has nothing left to serve
  have hnow : x.pool.shutDown = true → (x.answer op.name .ok).Drained op x.stack := by
    intro hshut
    obtain ⟨hqueue, -, -, htakes⟩ := done_of_balanced (hcounter ▸ h.balanced) hshut hidle
    exact .served rfl hx hqueue htakes
  cases ho with
  | runPool =>
    cases hshut : x.pool.shutDown with
    | true =>
      have hanswer : x.perform .runPool = x.answer "run_pool" .ok := if_pos hshut
      rw [hanswer]
      exact (Leads.here (hnow hshut)).comesTo
    | false =>
      have hpush : x.perform .runPool = { x with pool := x.pool.letGo }.push (.serving false) := by
        show x.runPool = _
        rw [runPool, hshut, hidle]
        rfl
      rw [hpush] at hsteady ⊢
      exact hsteady.served hx .runPool rfl
  | shutDown =>
    cases hshut : x.pool.shutDown with
    | true =>
      have hanswer : x.perform .shutDown = x.answer "shutdown" .ok := by
        show x.shutDown = _
        rw [shutDown, hopen, hshut]
        rfl
      rw [hanswer]
      exact (Leads.here (hnow hshut)).comesTo
    | false =>
      have hpush : x.perform .shutDown
          = { x with pool := x.pool.refuse.letGo }.push (.serving true) := by
        show x.shutDown = _
        rw [shutDown, hopen, hshut, hidle]
        rfl
      rw [hpush] at hsteady ⊢
      exact hsteady.served hx .shutDown rfl

/-! ### Waiting and draining -/

/-- **A wait blocks nobody but who waits for itself, and draining ends.**  Whatever is asked of a yard,
from outside and from inside of jobs, and wherever panics end jobs:

* a cell is running exactly while its job is on the stack, where it is once;
* every move makes the yard lighter, so there are no more moves than its weight;
* a wait, from outside or by a job of whatever kind, gets stuck if the job of its cell is on the stack.
  If it is not, the wait is not stuck, and all moves lead to where it comes back, with a value or with
  the panic of the job, unless some job waits for itself on the way;
* so do they for a drain and for a shutdown that no job of a worker asks for.  The queue is empty and
  all that was accepted was taken when these come back, whatever was added to the queue in between;
* and so does the program that follows an operation from outside to its end.

If scripts leave it to others to ask for drains, a job waits for itself by a wait for a job on the stack
only. -/
theorem waits_end (h : y.Occurs) :
    ((∀ i, y.cell i = .running ↔ i ∈ y.stack.filterMap Frame.cell?) ∧
      (y.stack.filterMap Frame.cell?).Nodup) ∧
    (∀ z, y.Move z → z.weight < y.weight) ∧
    (y.stuck = false →
      (∀ d i base z, y.Asks (.wait d) base z → y.cellOf? d = some i →
        (i ∈ y.stack.filterMap Frame.cell? → z.stuck = true) ∧
        (i ∉ y.stack.filterMap Frame.cell? → z.stuck = false ∧ z.ComesTo (Heard i base))) ∧
      (∀ op last base z, y.Asks op base z → Serves op last → y.isServing = false →
        z.ComesTo (Drained op base)) ∧
      (y.stack = [] →
        (∀ d i, y.cellOf? d = some i → (y.take (.op (.wait d))).2.Heard i [] ∨
          ∃ x, y.Reaches x ∧ x.Tangled ∧ (y.Modest → x.Reentrant)) ∧
        ∀ op last, Serves op last → (y.take (.op op)).2.Drained op [] ∨
          ∃ x, y.Reaches x ∧ x.Tangled ∧ (y.Modest → x.Reentrant))) := by
  have hsteady := h.steady
  refine ⟨⟨hsteady.running, hsteady.consistent.nodup⟩, fun z m => m.weight, fun hy => ?_⟩
  refine ⟨fun d i base z ha hd => ha.wait hsteady hy hd,
    fun op last base z ha ho hi => ha.serve hsteady hy ho hi, fun hs => ?_⟩
  refine ⟨fun d i hd => ComesTo.take (fun z => Heard.stack) ?_,
    fun op last ho => ComesTo.take (fun z => Drained.stack) ?_⟩
  · have hidle : i ∉ y.stack.filterMap Frame.cell? := by
      rw [hs]
      exact List.not_mem_nil
    exact (((Asks.outside hs).wait hsteady hy hd).2 hidle).2
  · have hidle : y.isServing = false := by rw [isServing, hs]; rfl
    exact (Asks.outside hs).serve hsteady hy ho hidle

/-- A yard with a job in the queue that submits one more and waits for a second job.  The second one waits
for a third one, which panics, and panics as well then. -/
def chainYard : Yard Nat :=
  [.create 1 (.submit (.create 4 .done (.op (.start (some 3)) .done)) (.op (.wait (some 1)) .done)),
    .create 2 (.op (.wait (some 2)) (.basic (.panic .other) .done)),
    .create 3 (.basic (.panic .other) .done),
    .op (.start (some 0))].foldl (fun y s => (y.take s).2)
    { threadPrefix := "w", failed := 0, pool := .held 1 }

/-- The yard in the middle of the drain, where the first job is about to wait. -/
def chainYardWaits : Yard Nat :=
  settle 2 (chainYard.issue (.op .runPool))

/-- The drain ends, and so does the wait of the worker in the middle of it. -/
theorem waits_end_chainYard : chainYard.Occurs ∧ chainYardWaits.Occurs ∧
    chainYardWaits.stack.filterMap Frame.cell? = [0] ∧ chainYardWaits.cell 0 = .running ∧
    (∃ z, chainYardWaits.Asks (.wait (some 1)) [.job .done (.cell 0 1 .worker), .serving false] z ∧
      z.stuck = false ∧
      z.ComesTo (Heard 1 [.job .done (.cell 0 1 .worker), .serving false])) ∧
    (chainYard.issue (.op .runPool)).ComesTo (Drained .runPool []) ∧
    (chainYard.take (.op .runPool)).2.stack = [] ∧
    (chainYard.take (.op .runPool)).2.takes = [1, 2, 3] ∧
    (chainYard.take (.op .runPool)).2.cells = [.done 1, .abandoned, .abandoned, .done 4] := by
  have hfresh : Yard.fresh 1 "w" 0 = .ok { threadPrefix := "w", failed := 0, pool := .held 1 } := rfl
  have h : chainYard.Moment := (Moment.fresh hfresh).program _
  have hmiddle : chainYardWaits.Moment :=
    h.reaches ((Turn.outside _ _).reaches.trans (reaches_settle 2 _))
  obtain ⟨-, -, hcalls⟩ := waits_end h.occurs
  obtain ⟨⟨hrunning, -⟩, -, hmore⟩ := waits_end hmiddle.occurs
  have hstack : chainYardWaits.stack.filterMap Frame.cell? = [0] := rfl
  have hidle : 1 ∉ chainYardWaits.stack.filterMap Frame.cell? := by
    rw [hstack]
    decide
  have hasks : chainYardWaits.Asks (.wait (some 1)) [.job .done (.cell 0 1 .worker), .serving false]
      _ := .job rfl rfl
  obtain ⟨hfree, hcomes⟩ := ((hmore rfl).1 _ 1 _ _ hasks rfl).2 hidle
  have hdrain := (hcalls rfl).2.1 .runPool false [] _ (.outside rfl) .runPool rfl
  refine ⟨h.occurs, hmiddle.occurs, hstack, (hrunning 0).mpr ?_, ⟨_, hasks, hfree, hcomes⟩, hdrain,
    rfl, rfl, rfl⟩
  rw [hstack]
  exact List.mem_cons_self

end Yard

end TestTree

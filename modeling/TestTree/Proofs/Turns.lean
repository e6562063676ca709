/-
Turns of a yard, and what a turn can do to cells.

* `Yard.Turn`, `Yard.Reaches` : one step of the machine, or one operation from outside; and any number
  of them;
* `Yard.reaches_take` : an operation that is followed to its end is a number of turns;
* `Yard.Performs`, `Yard.advance_cases` : all that an operation can do, and all that a step can do;
* `Yard.bench` : the cells, the jobs that are going on, and what was done so far;
* `Bench.Turn` : all that a turn can do to a bench;
* `Yard.Turn.takesTurn` : **a turn of the yard is a turn of its bench**.

## Design notes

Programs from outside and scripts of jobs use the same operations, so a moment of a yard is reached by
turns, whoever asks for them.  A bench leaves out what cells do not depend on: variables, the pool, the
rests of scripts.
-/
import TestTree.Work.Yard

namespace TestTree

variable {α : Type}

/-! ### Turns -/

namespace Yard

/-- What happens at once: a step of what is going on, or the beginning of an operation from
outside. -/
inductive Turn : Yard α → Yard α → Prop
  | step {y z : Yard α} (h : y.advance = some z) : Turn y z
  | outside (y : Yard α) (s : Step α) : Turn y (y.issue s)

/-- Any number of turns. -/
inductive Reaches (y : Yard α) : Yard α → Prop
  | refl : Reaches y y
  | tail {z v : Yard α} (h : Reaches y z) (t : z.Turn v) : Reaches y v

theorem Reaches.trans {x y z : Yard α} (h : x.Reaches y) (k : y.Reaches z) : x.Reaches z := by
  induction k with
  | refl => exact h
  | tail _ t ih => exact .tail ih t

theorem Turn.reaches {y z : Yard α} (t : y.Turn z) : y.Reaches z :=
  .tail .refl t

theorem reaches_settle (fuel : Nat) : ∀ y : Yard α, y.Reaches (settle fuel y) := by
  induction fuel with
  | zero => exact fun y => .refl
  | succ fuel ih =>
    intro y
    rw [settle]
    cases h : y.advance with
    | none => exact .refl
    | some z => exact (Turn.step h).reaches.trans (ih z)

/-- Following an operation to its end takes turns. -/
theorem reaches_take (y : Yard α) (s : Step α) : y.Reaches (y.take s).2 :=
  (Turn.outside y s).reaches.trans (reaches_settle _ _)

end Yard

/-! ### Benches -/

/-- What is done with a cell. -/
inductive Deed (α : Type) where
  | began
  | ended (ending : Ending Thrown)
  /-- A call came back. -/
  | returned (call : Call) (answer : Answer α)
  deriving Inhabited

/-- What an event does with a cell. -/
def YardEvent.deed? : YardEvent α → Option (Nat × Deed α)
  | began i => some (i, .began)
  | ended i ending => some (i, .ended ending)
  | returned i call a => some (i, .returned call a)
  | _ => none

/-- The cell whose job is going on. -/
def Frame.cell? : Frame α → Option Nat
  | job _ (.cell i _ _) => some i
  | _ => none

/-- The cells of a yard, and what is done with them. -/
structure Bench (α : Type) where
  failed : α
  cells : List (Cell (Job α × α) α)
  /-- The cells whose jobs are going on, the innermost first. -/
  tasks : List Nat
  /-- What was done, the latest first. -/
  deeds : List (Nat × Deed α)

/-- The bench of a yard. -/
def Yard.bench (y : Yard α) : Bench α :=
  ⟨y.failed, y.cells, y.stack.filterMap Frame.cell?, y.events.filterMap YardEvent.deed?⟩

namespace Bench

/-- The cell of a number. -/
def cell (b : Bench α) (i : Nat) : Cell (Job α × α) α :=
  b.cells[i]?.getD .discarded

/-- Put something into a cell. -/
def setCell (b : Bench α) (i : Nat) (c : Cell (Job α × α) α) : Bench α :=
  { b with cells := b.cells.set i c }

/-- Something is done with a cell. -/
def add (b : Bench α) (i : Nat) (d : Deed α) : Bench α :=
  { b with deeds := (i, d) :: b.deeds }

/-- A caller hears of a cell, or nobody does. -/
def hear (b : Bench α) (i : Nat) : Option (Call × Answer α) → Bench α
  | some (call, a) => b.add i (.returned call a)
  | none => b

theorem cells_hear (b : Bench α) (i : Nat) (o : Option (Call × Answer α)) :
    (b.hear i o).cells = b.cells := by
  cases o <;> rfl

end Bench

/-- What a call says that finds the cell as it is. -/
inductive Cell.Says {J : Type} (c : Cell J α) : Call → Answer α → Prop
  | run (h : c.isSuspended = false) : Says c .run (.flag false)
  | wait (h : c.isDone = true) : Says c .wait c.answer
  | value : Says c .value c.answer
  | cancel (h : c.isSuspended = false) : Says c .cancel (.flag false)

namespace Bench

/-- All that can be done in one turn. -/
inductive Turn : Bench α → Bench α → Prop
  | rest (b : Bench α) : Turn b b
  | created (b : Bench α) (job : Job α × α) : Turn b { b with cells := b.cells ++ [.suspended job] }
  | completed (b : Bench α) (value : α) : Turn b { b with cells := b.cells ++ [.done value] }
  | began {b : Bench α} {i : Nat} {job : Job α × α} (h : b.cell i = .suspended job) :
      Turn b { (b.setCell i .running).add i .began with tasks := i :: b.tasks }
  | ended {b : Bench α} {i : Nat} {tasks : List Nat} (h : b.tasks = i :: tasks) (value : α)
      (ending : Ending Thrown) (caller : Caller) :
      Turn b ({ (b.setCell i (.final b.failed value ending)).add i (.ended ending) with tasks }.hear i
        (caller.hears? (.final b.failed value ending : Cell (Job α × α) α) ending))
  | cancelled {b : Bench α} {i : Nat} {job : Job α × α} (h : b.cell i = .suspended job) :
      Turn b ((b.setCell i .cancelled).add i (.returned .cancel (.flag true)))
  | said {b : Bench α} {i : Nat} {call : Call} {a : Answer α} (hi : i < b.cells.length)
      (h : (b.cell i).Says call a) : Turn b (b.add i (.returned call a))

end Bench

namespace Yard

variable {y z : Yard α} {i : Nat}

/-! ### What operations and steps can do -/

/-- Whoever asks for the operation waits for itself: for a job that is going on, for the workers, of
which it is one, or for somebody who waits for them to finish. -/
def Blocks (y : Yard α) : Op α → Prop
  | .wait d => ∃ i, y.cellOf? d = some i ∧ y.cell i = .running
  | .runPool => y.pool.shutDown = false ∧ y.isServing = true
  | .shutDown => y.isClosing = true
  | _ => False

/-- All that an operation can do to a yard. -/
inductive Performs (y : Yard α) (op : Op α) : Yard α → Prop
  /-- Nothing is done, and something is said. -/
  | said (a : Answer α) : Performs y op (y.answer op.name a)
  | completed (v : α) : Performs y op (y.addCell op.name (.done v))
  | cloned {d : Option Nat} {i : Nat} (hd : y.cellOf? d = some i) (a : Answer α) :
      Performs y op ({ y with handles := y.handles ++ [some i] }.answer op.name a)
  | dropped (d : Nat) (a : Answer α) : Performs y op ((y.dropHandle d).answer op.name a)
  | began {i : Nat} {job : Job α} {value : α} (h : y.cell i = .suspended (job, value))
      {caller : Caller} (hc : caller ≠ .worker) : Performs y op (y.begin i job value caller)
  | returned {d : Option Nat} {i : Nat} (hd : y.cellOf? d = some i) {call : Call} {a : Answer α}
      (h : (y.cell i).Says call a) : Performs y op (y.returned i call a)
  | cancelled {i : Nat} {job : Job α × α} (h : y.cell i = .suspended job) :
      Performs y op ((y.setCell i .cancelled).returned i .cancel (.flag true))
  | queued (i : Nat) : Performs y op (y.enqueue op.name (.start i))
  | blocked (hb : y.Blocks op) : Performs y op { y with stuck := true }
  | opened (ho : y.pool.shutDown = false) (hi : y.isServing = false) :
      Performs y op ({ y with pool := y.pool.letGo }.push (.serving false))
  /-- A worker shuts the pool down. -/
  | refused (hi : y.isServing = true) (a : Answer α) :
      Performs y op ({ y with pool := y.pool.refuse }.answer op.name a)
  | closed (hi : y.isServing = false) :
      Performs y op ({ y with pool := y.pool.refuse.letGo }.push (.serving true))

theorem performs_onCell (d : Option Nat) (op : Op α) {f : Nat → Yard α}
    (h : ∀ i, y.cellOf? d = some i → y.Performs op (f i)) : y.Performs op (y.onCell d op f) := by
  rw [onCell]
  cases hd : y.cellOf? d with
  | some i => exact h i hd
  | none => exact .said _

theorem isSuspended_of_ne {J : Type} {c : Cell J α} (h : ∀ job, c ≠ .suspended job) :
    c.isSuspended = false := by
  cases c with
  | suspended job => exact absurd rfl (h job)
  | _ => rfl

theorem eq_running_of_ne {J : Type} {c : Cell J α} (h : ∀ job, c ≠ .suspended job)
    (hd : ¬ c.isDone = true) : c = .running := by
  cases c with
  | suspended job => exact absurd rfl (h job)
  | running => rfl
  | _ => exact absurd rfl hd

/-- **What an operation does.** -/
theorem performs (y : Yard α) (op : Op α) : y.Performs op (y.perform op) := by
  cases op with
  | completed v => exact .completed v
  | clone d => exact performs_onCell d _ fun i hd => .cloned hd _
  | drop d =>
    unfold perform
    dsimp only
    split
    · exact .dropped _ _
    · exact .said _
  | run d =>
    refine performs_onCell d _ fun i hd => ?_
    rw [run]
    split
    · rename_i hc
      exact .began hc Caller.noConfusion
    · rename_i hc
      exact .returned hd (.run (isSuspended_of_ne fun job => hc job.1 job.2))
  | wait d =>
    refine performs_onCell d _ fun i hd => ?_
    rw [wait]
    split
    · rename_i hc
      exact .began hc Caller.noConfusion
    · rename_i hc
      split
      · rename_i hdone
        exact .returned hd (.wait hdone)
      · rename_i hdone
        have hrunning := eq_running_of_ne (fun job => hc job.1 job.2) hdone
        exact .blocked ⟨i, hd, hrunning⟩
  | value d => exact performs_onCell d _ fun i hd => .returned hd .value
  | cancel d =>
    refine performs_onCell d _ fun i hd => ?_
    rw [cancel]
    split
    · rename_i hc
      exact .cancelled hc
    · rename_i hc
      exact .returned hd (.cancel (isSuspended_of_ne hc))
  | isSuspended d => exact performs_onCell d _ fun _ _ => .said _
  | isDone d => exact performs_onCell d _ fun _ _ => .said _
  | describe d => exact performs_onCell d _ fun _ _ => .said _
  | start d =>
    refine performs_onCell d _ fun i _ => ?_
    rw [start]
    split
    · exact .queued i
    · exact .said _
  | runPool =>
    unfold perform
    dsimp only
    rw [runPool]
    split
    · exact .said _
    · rename_i hopen
      split
      · rename_i hserving
        exact .blocked ⟨Bool.of_not_eq_true hopen, hserving⟩
      · rename_i hidle
        exact .opened (Bool.of_not_eq_true hopen) (Bool.of_not_eq_true hidle)
  | shutDown =>
    unfold perform
    dsimp only
    rw [shutDown]
    split
    · rename_i hclosing
      exact .blocked hclosing
    · split
      · exact .said _
      · split
        · rename_i hserving
          exact .refused hserving _
        · rename_i hidle
          exact .closed (Bool.of_not_eq_true hidle)
  | isShutDown => exact .said _
  | stats => exact .said _
  | names => exact .said _
  | thread => exact .said _
  | unknown name d => exact performs_onCell d _ fun _ _ => .said _

/-- **What a step does**: one statement of the job on top of the stack, or a worker's next turn. -/
theorem advance_cases (h : y.advance = some z) : y.stuck = false ∧
    ((∃ last below, y.stack = .serving last :: below ∧ z = y.serveStep last below) ∨
      ∃ rest task below, y.stack = .job rest task :: below ∧ z = y.jobStep rest task below) := by
  rw [advance] at h
  split at h
  · cases h
  · rename_i hstuck
    refine ⟨Bool.of_not_eq_true hstuck, ?_⟩
    split at h
    · cases h
    · rename_i last below hs
      cases h
      exact .inl ⟨last, below, hs, rfl⟩
    · rename_i rest task below hs
      cases h
      exact .inr ⟨rest, task, below, hs, rfl⟩

/-! ### Handles -/

/-- No handle is the handle of a cell that was not made. -/
def Grounded (y : Yard α) : Prop :=
  ∀ i, some i ∈ y.handles → i < y.cells.length

/-- From `y` to `z` the bench took a turn. -/
structure TakesTurn (y z : Yard α) : Prop where
  turn : y.bench.Turn z.bench
  grounded : z.Grounded

theorem Grounded.congr (h : y.Grounded) (hh : z.handles = y.handles)
    (hc : z.cells.length = y.cells.length) : z.Grounded := by
  intro i hi
  rw [hc]
  exact h i (hh ▸ hi)

theorem Grounded.lt (h : y.Grounded) {d : Option Nat} (hd : y.cellOf? d = some i) :
    i < y.cells.length := by
  cases d with
  | none => cases hd
  | some d =>
    have hjoin : y.handles[d]?.join = some i := hd
    exact h i (List.mem_of_getElem? (Option.join_eq_some_iff.mp hjoin))

/-! ### What operations do to a bench -/

@[simp] theorem bench_answer (y : Yard α) (op : String) (a : Answer α) :
    (y.answer op a).bench = y.bench := by
  rw [answer]
  split <;> rfl

@[simp] theorem handles_answer (y : Yard α) (op : String) (a : Answer α) :
    (y.answer op a).handles = y.handles := by
  rw [answer]
  split <;> rfl

@[simp] theorem cells_answer (y : Yard α) (op : String) (a : Answer α) :
    (y.answer op a).cells = y.cells :=
  congrArg Bench.cells (y.bench_answer op a)

@[simp] theorem bench_returned (y : Yard α) (i : Nat) (call : Call) (a : Answer α) :
    (y.returned i call a).bench = y.bench.add i (.returned call a) :=
  bench_answer _ _ _

theorem handles_returned (y : Yard α) (i : Nat) (call : Call) (a : Answer α) :
    (y.returned i call a).handles = y.handles :=
  handles_answer _ _ _

theorem takesTurn_still (hg : y.Grounded) (hb : z.bench = y.bench) (hh : z.handles = y.handles) :
    y.TakesTurn z :=
  ⟨hb ▸ .rest _, hg.congr hh (congrArg (List.length ∘ Bench.cells) hb)⟩

theorem takesTurn_answer (hg : y.Grounded) (op : String) (a : Answer α) :
    y.TakesTurn (y.answer op a) :=
  takesTurn_still hg (bench_answer _ _ _) (handles_answer _ _ _)

/-- What comes before does nothing to the bench. -/
theorem TakesTurn.of_still {x : Yard α} (h : x.TakesTurn z) (hb : x.bench = y.bench) :
    y.TakesTurn z :=
  ⟨hb ▸ h.turn, h.grounded⟩

theorem takesTurn_returned (hg : y.Grounded) (hi : i < y.cells.length) {call : Call} {a : Answer α}
    (h : (y.cell i).Says call a) : y.TakesTurn (y.returned i call a) := by
  refine ⟨?_, hg.congr (handles_returned _ _ _ _) ?_⟩
  · rw [bench_returned]
    exact .said hi h
  · exact congrArg (List.length ∘ Bench.cells) (bench_returned y i call a)

theorem grounded_addCell (hg : y.Grounded) (op : String) (c : Cell (Job α × α) α) :
    (y.addCell op c).Grounded := by
  have hh : (y.addCell op c).handles = y.handles ++ [some y.cells.length] := handles_answer _ _ _
  have hc : (y.addCell op c).cells = y.cells ++ [c] := cells_answer _ _ _
  intro i hi
  rw [hc, List.length_append, List.length_singleton]
  rw [hh, List.mem_append, List.mem_singleton, Option.some_inj] at hi
  rcases hi with hi | rfl
  · exact Nat.lt_succ_of_lt (hg i hi)
  · exact Nat.lt_succ_self _

theorem takesTurn_begin (hg : y.Grounded) {job : Job α} {value : α}
    (h : y.cell i = .suspended (job, value)) (caller : Caller) :
    y.TakesTurn (y.begin i job value caller) :=
  ⟨.began h, hg.congr rfl List.length_set⟩

theorem takesTurn_enqueue (hg : y.Grounded) (op : String) (work : Work α) :
    y.TakesTurn (y.enqueue op work) := by
  rw [enqueue]
  split
  · exact takesTurn_still hg (bench_answer _ _ _) (handles_answer _ _ _)
  · exact takesTurn_answer hg _ _

/-- **What an operation does to a bench.** -/
theorem Performs.takesTurn {op : Op α} (h : y.Performs op z) (hg : y.Grounded) : y.TakesTurn z := by
  cases h with
  | said a => exact takesTurn_answer hg _ a
  | completed v =>
    refine ⟨?_, grounded_addCell hg _ _⟩
    rw [addCell, bench_answer]
    exact .completed _ v
  | cloned hd a =>
    refine ⟨?_, fun j hj => ?_⟩
    · rw [bench_answer]
      exact .rest _
    · rw [cells_answer]
      rw [handles_answer, List.mem_append, List.mem_singleton, Option.some_inj] at hj
      rcases hj with hj | rfl
      · exact hg j hj
      · exact hg.lt hd
  | dropped d a =>
    refine ⟨?_, fun j hj => ?_⟩
    · rw [bench_answer]
      exact .rest _
    · rw [cells_answer]
      rw [handles_answer] at hj
      exact hg j ((List.mem_or_eq_of_mem_set hj).resolve_right nofun)
  | began h hc => exact takesTurn_begin hg h _
  | returned hd h => exact takesTurn_returned hg (hg.lt hd) h
  | cancelled h =>
    refine ⟨?_, hg.congr (handles_returned _ _ _ _) ?_⟩
    · rw [bench_returned]
      exact .cancelled h
    · rw [Yard.returned, cells_answer]
      exact List.length_set
  | queued i => exact takesTurn_enqueue hg _ _
  | blocked hb => exact takesTurn_still hg rfl rfl
  | opened ho hi => exact takesTurn_still hg rfl rfl
  | refused hi a => exact takesTurn_still hg (bench_answer _ _ _) (handles_answer _ _ _)
  | closed hi => exact takesTurn_still hg rfl rfl

theorem takesTurn_create (hg : y.Grounded) (value : α) (job : Job α) :
    y.TakesTurn (y.create value job) := by
  refine ⟨?_, grounded_addCell hg _ _⟩
  rw [create, addCell, bench_answer]
  exact .created _ (job, value)

theorem takesTurn_issue (hg : y.Grounded) (s : Step α) : y.TakesTurn (y.issue s) := by
  have hreset : ({ y with reply := none } : Yard α).Grounded := hg
  cases s with
  | create value job => exact (takesTurn_create hreset value job).of_still rfl
  | submit job => exact (takesTurn_enqueue hreset "submit" (.script job)).of_still rfl
  | op o => exact ((performs _ o).takesTurn hreset).of_still rfl

/-! ### What steps do to a bench -/

/-- A basic statement changes variables, and says something at most; behind it the script goes on, if
the statement is finished, or has ended. -/
theorem jobStep_basic (y : Yard α) (b : Basic) (next : Job α) (task : Task α)
    (below : List (Frame α)) : ∃ store events,
    (events = y.events ∨ ∃ line, events = .said line :: y.events) ∧
      let x : Yard α := { y with stack := .job next task :: below, store, events }
      (b.perform scope none y.store).ending = .finished ∧
          y.jobStep (.basic b next) task below = x ∨
        ∃ ending, y.jobStep (.basic b next) task below = x.endJob task below ending := by
  rw [jobStep]
  dsimp only
  cases (b.perform scope none y.store).line with
  | none =>
    refine ⟨(b.perform scope none y.store).store, y.events, .inl rfl, ?_⟩
    split
    · rename_i hfinished
      exact .inl ⟨hfinished, rfl⟩
    · exact .inr ⟨_, rfl⟩
  | some line =>
    refine ⟨(b.perform scope none y.store).store, _, .inr ⟨line, rfl⟩, ?_⟩
    split
    · rename_i hfinished
      exact .inl ⟨hfinished, rfl⟩
    · exact .inr ⟨_, rfl⟩

@[simp] theorem bench_workerDone (y : Yard α) (ending : Ending Thrown) :
    (y.workerDone ending).bench = y.bench := by
  cases ending <;> rfl

theorem handles_workerDone (y : Yard α) (ending : Ending Thrown) :
    (y.workerDone ending).handles = y.handles := by
  cases ending <;> rfl

/-- The rest of a script is none of the bench. -/
theorem bench_goOn {rest : Job α} {task : Task α} {below : List (Frame α)}
    (hs : y.stack = .job rest task :: below) (next : Job α) :
    ({ y with stack := .job next task :: below } : Yard α).bench = y.bench := by
  rw [bench, bench, hs]
  cases task <;> rfl

/-- **What the end of a job does to a bench.** -/
theorem takesTurn_endJob (hg : y.Grounded) {rest : Job α} {task : Task α} {below : List (Frame α)}
    (hs : y.stack = .job rest task :: below) (ending : Ending Thrown) :
    y.TakesTurn (y.endJob task below ending) := by
  cases task with
  | plain =>
    refine takesTurn_still hg ?_ (handles_workerDone _ _)
    rw [endJob, bench_workerDone, bench, bench, hs]
    rfl
  | cell i value caller =>
    have htasks : y.bench.tasks = i :: below.filterMap Frame.cell? := by
      rw [bench, hs]
      rfl
    have hended := Bench.Turn.ended htasks value ending caller
    let c : Cell (Job α × α) α := .final y.failed value ending
    let x := ({ y with stack := below }.setCell i c).add (.ended i ending)
    have hx : x.Grounded := hg.congr rfl List.length_set
    have hc : caller.hears? c ending = caller.hears? (.final y.bench.failed value ending) ending := rfl
    rw [← hc] at hended
    rw [endJob]
    dsimp only
    cases hheard : caller.hears? (.final y.failed value ending) ending with
    | none =>
      rw [hheard] at hended
      have hdone := takesTurn_still (z := x.workerDone ending) hx (bench_workerDone _ _)
        (handles_workerDone _ _)
      refine ⟨?_, hdone.grounded⟩
      rw [show (x.workerDone ending).bench = x.bench from bench_workerDone _ _]
      exact hended
    | some heard =>
      rw [hheard] at hended
      obtain ⟨call, a⟩ := heard
      refine ⟨?_, hx.congr (handles_returned _ _ _ _) ?_⟩
      · rw [show (x.returned i call a).bench = x.bench.add i (.returned call a) from
          bench_returned _ _ _ _]
        exact hended
      · exact congrArg (List.length ∘ Bench.cells) (bench_returned x i call a)

theorem takesTurn_serveStep (hg : y.Grounded) {last : Bool} {below : List (Frame α)}
    (hs : y.stack = .serving last :: below) : y.TakesTurn (y.serveStep last below) := by
  rw [serveStep]
  split
  · rename_i ticket pool _
    let x : Yard α := { y with pool }.add (.taken ticket.number)
    split
    · exact takesTurn_still hg rfl rfl
    · rename_i i _
      dsimp only
      split
      · rename_i job value hc
        have hbegin : x.TakesTurn (x.begin i job value .worker) :=
          takesTurn_begin (y := x) hg hc .worker
        exact hbegin.of_still rfl
      · exact takesTurn_still hg rfl rfl
  · refine takesTurn_still hg ?_ (handles_answer _ _ _)
    rw [bench_answer, bench, bench, hs]
    rfl

theorem takesTurn_jobStep (hg : y.Grounded) {rest : Job α} {task : Task α} {below : List (Frame α)}
    (hs : y.stack = .job rest task :: below) : y.TakesTurn (y.jobStep rest task below) := by
  have hgo := fun next => bench_goOn hs next
  cases rest with
  | done => exact takesTurn_endJob hg hs .finished
  | basic b next =>
    obtain ⟨store, events, hsaid, hstep⟩ := y.jobStep_basic b next task below
    let x : Yard α := { y with stack := .job next task :: below, store, events }
    have hbench : x.bench = y.bench := by
      -- whether the statement says something or not, the bench stays as it is
      have hdeeds : events.filterMap YardEvent.deed? = y.events.filterMap YardEvent.deed? := by
        rcases hsaid with rfl | ⟨line, rfl⟩ <;> rfl
      rw [← hgo next, bench, bench, hdeeds]
    have hstill : y.TakesTurn x := takesTurn_still hg hbench rfl
    rcases hstep with ⟨-, hstep⟩ | ⟨ending, hstep⟩
    · rw [hstep]
      exact hstill
    · rw [hstep]
      exact (takesTurn_endJob hstill.grounded rfl ending).of_still hbench
  | branch c yes no next => exact takesTurn_still hg (hgo _) rfl
  | create value job next =>
    have hcreate := takesTurn_create (y := { y with stack := .job next task :: below }) hg value job
    exact hcreate.of_still (hgo next)
  | submit job next =>
    have hsubmit := takesTurn_enqueue (y := { y with stack := .job next task :: below }) hg "submit"
      (.script job)
    exact hsubmit.of_still (hgo next)
  | op o next =>
    have hperform := (performs { y with stack := .job next task :: below } o).takesTurn hg
    exact hperform.of_still (hgo next)

/-- **A turn of the yard is a turn of its bench.** -/
theorem Turn.takesTurn (t : y.Turn z) (hg : y.Grounded) : y.TakesTurn z := by
  cases t with
  | outside s => exact takesTurn_issue hg s
  | step h =>
    obtain ⟨-, ⟨last, below, hs, rfl⟩ | ⟨rest, task, below, hs, rfl⟩⟩ := advance_cases h
    · exact takesTurn_serveStep hg hs
    · exact takesTurn_jobStep hg hs

end Yard

end TestTree

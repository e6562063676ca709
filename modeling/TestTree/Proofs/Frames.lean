/-
What scripts leave alone.

* `Notebook.deeds` : builders entered, bodies run, tests started and finished; no statement of a
  script is one of them;
* `Notebook.acts` : all events but diagnostics;
* `Notebook.Frame` : a quantity of a notebook that no statement of a scope changes;
* `Notebook.frame_deeds`, `Notebook.frame_locals` : deeds, and the variables of another invocation;
* `Callback.run_frame`, `Notebook.sweep_frame`, `Body.run_framed`, `Builder.replay_framed` : a frame
  is kept by whole scripts, and what they register is registered in their scope;
* `RootContext.replayWalk` : a replay before what it registered is closed.
-/
import TestTree.World.Basic

namespace TestTree

/-! ### Parts of scripts -/

namespace Ran

variable {ε δ σ : Type}

/-- A transitive relation that a part of a script and what comes behind it keep is kept by both. -/
theorem andThen_rel (Rel : σ → σ → Prop) (trans : ∀ {x y z}, Rel x y → Rel y z → Rel x z) {x : σ}
    {r : Ran ε σ} {next : σ → Ran ε σ} (h : Rel x r.state) (hn : ∀ y, Rel y (next y).state) :
    Rel x (r.andThen next).state := by
  rcases r with ⟨_ | e | p, y⟩
  · exact trans h (hn y)
  · exact h
  · exact h

theorem andThen_of_ne {r : Ran ε σ} (h : r.ending ≠ .finished) (next : σ → Ran ε σ) :
    r.andThen next = r := by
  rcases r with ⟨_ | e | x, s⟩
  · exact absurd rfl h
  · rfl
  · rfl

@[simp] theorem state_mapError (f : ε → δ) (r : Ran ε σ) : (r.mapError f).state = r.state := by
  rcases r with ⟨_ | e | x, s⟩ <;> rfl

@[simp] theorem state_swallowing (b : Bool) (r : Ran ε σ) : (r.swallowing b).state = r.state := by
  rcases r with ⟨_ | e | x, s⟩ <;> cases b <;> rfl

/-- What is said of the state that a part of a script leaves for the rest, if the rest is run. -/
def behind {α : Type} (r : Ran ε σ) (f : σ → List α) : List α :=
  match r.ending with
  | .finished => f r.state
  | _ => []

theorem mem_behind {α : Type} {r : Ran ε σ} {f : σ → List α} {a : α} (h : a ∈ r.behind f) :
    a ∈ f r.state := by
  rcases r with ⟨_ | e | p, s⟩
  · exact h
  · cases h
  · cases h

/-- Two scripts that agree behind a part of them. -/
theorem andThen_congr {r : Ran ε σ} {next next' : σ → Ran ε σ}
    (h : r.ending = .finished → next r.state = next' r.state) :
    r.andThen next = r.andThen next' := by
  rcases r with ⟨_ | e | p, s⟩
  · exact h rfl
  · rfl
  · rfl

end Ran

/-! ### Deeds -/

/-- The listener never panics. -/
def Listener.Calm (l : Listener) : Prop :=
  ∀ n, l.panic? n = none

/-- The body that an event runs: the root and the path of the test. -/
def Event.body? : Event → Option (Nat × NamePath)
  | .ran root path => some (root, path)
  | _ => none

/-- A builder was entered, a body was run, or a test was started or finished. -/
def Event.isDeed : Event → Bool
  | .entered .. => true
  | .ran .. => true
  | .notified (.started _) => true
  | .notified (.finished _) => true
  | _ => false

/-- A test was started or finished; no script does that. -/
def Event.isBoundary : Event → Bool
  | .notified (.started _) => true
  | .notified (.finished _) => true
  | _ => false

/-- An event that is more than a diagnostic. -/
def Event.isAct : Event → Bool
  | .traced _ => false
  | _ => true

namespace Notebook

/-- The bodies that were run, the latest first. -/
def bodies (n : Notebook) : List (Nat × NamePath) :=
  n.events.filterMap Event.body?

/-- The deeds, the latest first. -/
def deeds (n : Notebook) : List Event :=
  n.events.filter Event.isDeed

/-- The events that are more than diagnostics, the latest first. -/
def acts (n : Notebook) : List Event :=
  n.events.filter Event.isAct

theorem deeds_eq_acts (n : Notebook) : n.deeds = n.acts.filter Event.isDeed := by
  rw [deeds, acts, List.filter_filter]
  congr 1
  funext e
  cases e with
  | notified n => cases n <;> rfl
  | _ => rfl

theorem bodies_eq_deeds (n : Notebook) : n.bodies = n.deeds.filterMap Event.body? := by
  rw [deeds, List.filterMap_filter, bodies]
  congr 1
  funext e
  cases e with
  | ran root path => rfl
  | _ => simp [Event.body?]

@[simp] theorem bodies_add (n : Notebook) (e : Event) :
    (n.add e).bodies = (e.body?).toList ++ n.bodies := by
  cases h : e.body? <;> simp [bodies, add, h]

@[simp] theorem deeds_add (n : Notebook) (e : Event) :
    (n.add e).deeds = (if e.isDeed then [e] else []) ++ n.deeds := by
  cases h : e.isDeed <;> simp [deeds, add, h]

end Notebook

/-! ### Variables -/

namespace Store

theorem lookup_filter_ne {k l : Realm × String} (h : l ≠ k) (st : Store) :
    List.lookup l (st.filter fun e => e.1 != k) = List.lookup l st := by
  induction st with
  | nil => rfl
  | cons e rest ih =>
    by_cases he : e.1 = k
    · rw [List.filter_cons_of_neg (by simp [he]), ih, List.lookup_cons]
      have hl : (l == e.1) = false := by rw [he]; exact beq_false_of_ne h
      rw [hl]
    · rw [List.filter_cons_of_pos (by simp [he]), List.lookup_cons, List.lookup_cons, ih]

theorem read_write_of_ne {r q : Realm} {m name : String} (h : (q, m) ≠ (r, name)) (st : Store)
    (v : Int) : (st.write r name v).read q m = st.read q m := by
  have hl : ((q, m) == (r, name)) = false := beq_false_of_ne h
  rw [read, write, List.lookup_cons, hl, lookup_filter_ne h, read]

@[simp] theorem read_write_self (st : Store) (r : Realm) (name : String) (v : Int) :
    (st.write r name v).read r name = v := by
  simp [read, write]

end Store

/-! ### Frames -/

/-- A quantity of a notebook that no statement of the scope `s` changes. -/
structure Notebook.Frame {α : Type} (f : Notebook → α) (s : Scope) : Prop where
  perform : ∀ (n : Notebook) (res : Option String) (b : Basic), f (n.perform s res b).state = f n
  event : ∀ (n : Notebook) (e : Event), e.isDeed = false → f (n.add e) = f n
  serial : ∀ (n : Notebook) (k : Nat), f { n with serials := k } = f n

/-- No script does a deed, and none invokes a builder. -/
theorem Notebook.frame_deeds (s : Scope) : Frame (fun n => (n.deeds, n.invocations)) s where
  perform := by
    intro n res b
    cases b <;> rfl
  event := by
    intro n e he
    show ((n.add e).deeds, n.invocations) = _
    rw [deeds_add, he]
    rfl
  serial := fun n k => rfl

/-- The variables of an invocation of a builder. -/
def Notebook.locals (n : Notebook) (k : Nat) (name : String) : Int :=
  n.store.read (.invocation k) name

/-- A variable after one of them was set. -/
theorem Notebook.locals_write (n : Notebook) (j : Nat) (name : String) (v : Int) (k : Nat)
    (m : String) : ({ n with store := n.store.write (.invocation j) name v } : Notebook).locals k m
      = if k = j ∧ m = name then v else n.locals k m := by
  split
  · rename_i h
    obtain ⟨rfl, rfl⟩ := h
    exact Store.read_write_self _ _ _ _
  · rename_i h
    refine Store.read_write_of_ne (fun heq => h ?_) _ _
    cases heq
    exact ⟨rfl, rfl⟩

/-- The scripts of one invocation do not touch the variables of another one. -/
theorem Notebook.frame_locals {s : Scope} {k : Nat} (h : s.invocation ≠ k) :
    Frame (fun n => n.locals k) s where
  perform := by
    intro n res b
    cases b with
    | incr name =>
      funext m
      refine Store.read_write_of_ne ?_ _ _
      -- the variable that is written belongs to this invocation, or to a root
      intro heq
      have hr := (Prod.mk.inj heq).1
      rw [Scope.realm] at hr
      split at hr
      · exact h (Realm.invocation.inj hr).symm
      · cases hr
    | _ => rfl
  event := fun n e _ => rfl
  serial := fun n k => rfl

section Frame

variable {α : Type} {f : Notebook → α}

theorem Callback.run_frame {s : Scope} (F : Notebook.Frame f s) (res : Option String)
    (c : Callback) : ∀ n : Notebook, f (c.run s res n).state = f n := by
  have trans : ∀ {x y z : Notebook}, f y = f x → f z = f y → f z = f x := fun h k => k.trans h
  induction c with
  | done => intro n; rfl
  | basic b next ih =>
    intro n
    exact Ran.andThen_rel (fun x y => f y = f x) trans (F.perform n res b) ih
  | branch c yes no next ihy ihn ih =>
    intro n
    rw [run]
    split
    · exact Ran.andThen_rel (fun x y => f y = f x) trans (ihy n) ih
    · exact Ran.andThen_rel (fun x y => f y = f x) trans (ihn n) ih

/-- A sweep keeps what is a frame for all callbacks that it runs. -/
theorem Notebook.sweep_frame (rs : List (Registration Closure))
    (F : ∀ r ∈ rs, Notebook.Frame f r.close.scope) : ∀ n : Notebook, f (n.sweep rs).2 = f n := by
  induction rs with
  | nil => intro n; rfl
  | cons r rest ih =>
    intro n
    have Fr := F r List.mem_cons_self
    show f ((r.run n).state.sweep rest).2 = f n
    rw [ih fun q hq => F q (List.mem_cons_of_mem _ hq), Registration.run, Ran.state_mapError,
      Callback.run_frame Fr]
    exact Fr.event n _ rfl

/-- A closet on which a frame was kept, and only scopes of a kind registered something. -/
structure Closet.Framed (f : Notebook → α) (Q : Scope → Prop) (c d : Closet Closure) : Prop where
  book : f d.book = f c.book
  shelf : (∀ r ∈ c.shelf, Q r.close.scope) → ∀ r ∈ d.shelf, Q r.close.scope

namespace Closet

variable {Q : Scope → Prop} {c d e : Closet Closure} {s : Scope}

theorem Framed.trans (h : c.Framed f Q d) (k : d.Framed f Q e) : c.Framed f Q e :=
  ⟨k.book.trans h.book, fun hc => k.shelf (h.shelf hc)⟩

theorem framed_book {n : Notebook} (h : f n = f c.book) : c.Framed f Q { c with book := n } :=
  ⟨h, id⟩

theorem framed_perform (F : Notebook.Frame f s) (res : Option String) (b : Basic) :
    c.Framed f Q (c.perform s res b).state :=
  framed_book (F.perform c.book res b)

theorem framed_register (F : Notebook.Frame f s) (hs : Q s) (label : String)
    (res : Option String) (close : Callback) :
    c.Framed f Q (c.register label res ⟨close, s⟩) where
  book := (F.serial _ _).trans (F.event _ _ rfl)
  shelf := fun hc => List.forall_mem_cons.mpr ⟨hs, hc⟩

end Closet

variable {Q : Scope → Prop} {t : TestScope}

/-- **A body keeps the frames of its scope, and registers in its scope.** -/
theorem Body.run_framed (F : Notebook.Frame f t.scope) (ht : Q t.scope) (b : Body) :
    ∀ c : Closet Closure, c.Framed f Q (b.run t c).state := by
  induction b with
  | done => intro c; exact ⟨rfl, id⟩
  | basic b next ih =>
    intro c
    refine Ran.andThen_rel (Closet.Framed f Q) Closet.Framed.trans ?_ ih
    rw [Ran.state_mapError]
    exact Closet.framed_perform F none b
  | branch cond yes no next ihy ihn ih =>
    intro c
    rw [run]
    split
    · exact Ran.andThen_rel (Closet.Framed f Q) Closet.Framed.trans (ihy c) ih
    · exact Ran.andThen_rel (Closet.Framed f Q) Closet.Framed.trans (ihn c) ih
  | autoClose r close next ih => intro c; exact (Closet.framed_register F ht ..).trans (ih _)
  | deferClose close next ih => intro c; exact (Closet.framed_register F ht ..).trans (ih _)
  | publish kind payload next ih =>
    intro c
    have hb : c.Framed f Q { c with book := c.book.add (.notified (.event t.test kind payload)) } :=
      Closet.framed_book (F.event _ _ rfl)
    rw [run, Notebook.notify]
    -- the event is written down even if the listener panics at it
    cases t.listener.panic? (.event t.test kind payload) with
    | some p => exact hb
    | none => exact hb.trans (ih _)
  | nameSelf next ih => intro c; exact (Closet.framed_book (F.event _ _ rfl)).trans (ih _)
  | describeSelf next ih => intro c; exact (Closet.framed_book (F.event _ _ rfl)).trans (ih _)

/-- Replays on which a frame was kept. -/
def Replay.Framed (f : Notebook → α) (Q : Scope → Prop) (r q : Replay) : Prop :=
  r.closet.Framed f Q q.closet

theorem Replay.Framed.trans {r q p : Replay} (h : r.Framed f Q q) (k : q.Framed f Q p) :
    r.Framed f Q p :=
  Closet.Framed.trans h k

theorem Replay.framed_closet {r : Replay} {c : Closet Closure} {d : Decision}
    (h : r.closet.Framed f Q c) : r.Framed f Q ⟨c, d⟩ :=
  h

theorem Replay.closet_leave (r : Ran BuildError Replay) :
    (Replay.leave r).closet = r.state.closet := by
  rw [Replay.leave]
  split
  · split <;> rfl
  · rfl

/-- A replay keeps the frames of its scope that depend on no events but starts and ends of tests. -/
theorem Builder.replay_framed (F : Notebook.Frame f t.scope)
    (hd : ∀ (n : Notebook) (e : Event), e.isBoundary = false → f (n.add e) = f n) (ht : Q t.scope) (b : Builder) :
    ∀ (depth : Nat) (r : Replay), r.Framed f Q (b.replay t depth r).state := by
  induction b with
  | done => intro depth r; exact ⟨rfl, id⟩
  | basic b next ih =>
    intro depth r
    refine Ran.andThen_rel (Replay.Framed f Q) Replay.Framed.trans ?_ (ih depth)
    show r.closet.Framed f Q ((r.closet.perform t.scope none b).mapError _).state
    rw [Ran.state_mapError]
    exact Closet.framed_perform F none b
  | branch c yes no next ihy ihn ih =>
    intro depth r
    rw [replay]
    split
    · exact Ran.andThen_rel (Replay.Framed f Q) Replay.Framed.trans (ihy depth r) (ih depth)
    · exact Ran.andThen_rel (Replay.Framed f Q) Replay.Framed.trans (ihn depth r) (ih depth)
  | autoClose res close next ih =>
    intro depth r
    exact (Replay.framed_closet (Closet.framed_register F ht ..)).trans (ih depth _)
  | deferClose close next ih =>
    intro depth r
    exact (Replay.framed_closet (Closet.framed_register F ht ..)).trans (ih depth _)
  | test name site body swallow next ih =>
    intro depth r
    rw [replay]
    split
    · have hb : r.closet.Framed f Q (body.execute t r.closet).2 :=
        (Closet.framed_book (hd _ _ rfl)).trans (body.run_framed F ht _)
      exact (Replay.framed_closet hb).trans (ih depth _)
    · exact ih depth r
  | context name site inner swallow next ihi ih =>
    intro depth r
    rw [replay]
    split
    · -- what is decided on leaving is no part of the closet
      refine Replay.Framed.trans ?_ (ih depth _)
      rw [Replay.Framed, Replay.closet_leave]
      exact (Replay.framed_closet (Closet.framed_book (hd _ _ rfl))).trans (ihi _ _)
    · exact ih depth r
  | pending name site swallow next ih => intro depth r; exact ih depth r
  | afterSuite callback next ih => intro depth r; exact ih depth r
  | logCurrent next ih =>
    intro depth r
    exact (Replay.framed_closet (Closet.framed_book (hd _ _ rfl))).trans (ih depth _)

end Frame

/-! ### Replays of tests -/

/-- The scope and the notebook in which a replay of a test begins. -/
def Notebook.replaying (n : Notebook) (r : RootContext) (d : Description) : Scope × Notebook :=
  (n.trace .debug "replaying test" [("test", d.display)]).invoke r (d.container.path.take 1)

/-- A replay on its way through the builder of the root. -/
def RootContext.replayWalk (r : RootContext) (l : Listener) (d : Description) (n : Notebook) :
    Ran BuildError Replay :=
  r.builder.replay ⟨d, l, ⟨r.index, n.invocations⟩⟩ 0 ⟨⟨[], (n.replaying r d).2⟩, .undecided⟩

theorem replay_eq (l : Listener) (r : RootContext) (d : Description) (n : Notebook) :
    replay l r d n = (r.replayWalk l d n).state.closet.conclude
      (Replay.verdict d (r.replayWalk l d n)) := rfl

end TestTree

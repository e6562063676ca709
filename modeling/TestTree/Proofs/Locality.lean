/-
Scripts that use nothing but local variables.

* `LocalName`, `Builder.IsLocal` : variables of one invocation, and scripts that use no other ones;
* `Notebook.Simulates` : a relation between notebooks under which the scripts of one scope cannot
  tell the two from each other;
* `Ran.Agree` : two runs end alike, in related states;
* `Callback.run_agree`, `Notebook.sweep_agree`, `Body.run_agree`, `Builder.replay_agree` : **local
  scripts agree under every such relation**, one lemma for each kind of script.

## Design notes

After-suite callbacks may use any variables: no visit, no replay and no test runs them.
-/
import Mathlib.Data.List.Forall2
import TestTree.Proofs.Frames

namespace TestTree

/-! ### Local scripts -/

/-- The name of a variable that belongs to one invocation of a builder. -/
def LocalName (name : String) : Prop :=
  name.toList.head? = some '$'

theorem Scope.realm_local {name : String} (h : LocalName name) (s : Scope) :
    s.realm name = .invocation s.invocation :=
  if_pos h

/-- The statement uses no variable of a root. -/
def Basic.IsLocal : Basic → Prop
  | logVar name => LocalName name
  | incr name => LocalName name
  | _ => True

def Callback.IsLocal : Callback → Prop
  | done => True
  | basic b next => b.IsLocal ∧ next.IsLocal
  | branch c yes no next => LocalName c.name ∧ yes.IsLocal ∧ no.IsLocal ∧ next.IsLocal

def Body.IsLocal : Body → Prop
  | done => True
  | basic b next => b.IsLocal ∧ next.IsLocal
  | branch c yes no next => LocalName c.name ∧ yes.IsLocal ∧ no.IsLocal ∧ next.IsLocal
  | autoClose _ close next => close.IsLocal ∧ next.IsLocal
  | deferClose close next => close.IsLocal ∧ next.IsLocal
  | publish _ _ next => next.IsLocal
  | nameSelf next => next.IsLocal
  | describeSelf next => next.IsLocal

/-- The builder, its bodies and its close callbacks use no variable of a root. -/
def Builder.IsLocal : Builder → Prop
  | done => True
  | basic b next => b.IsLocal ∧ next.IsLocal
  | branch c yes no next => LocalName c.name ∧ yes.IsLocal ∧ no.IsLocal ∧ next.IsLocal
  | autoClose _ close next => close.IsLocal ∧ next.IsLocal
  | deferClose close next => close.IsLocal ∧ next.IsLocal
  | test _ _ body _ next => body.IsLocal ∧ next.IsLocal
  | context _ _ inner _ next => inner.IsLocal ∧ next.IsLocal
  | pending _ _ _ next => next.IsLocal
  | afterSuite _ next => next.IsLocal
  | logCurrent next => next.IsLocal

/-! ### Runs that agree -/

/-- Two runs end alike, in related states. -/
def Ran.Agree {ε σ τ : Type} (R : σ → τ → Prop) (r : Ran ε σ) (q : Ran ε τ) : Prop :=
  q.ending = r.ending ∧ R r.state q.state

namespace Ran.Agree

variable {ε δ σ τ : Type} {R : σ → τ → Prop} {r : Ran ε σ} {q : Ran ε τ}

theorem andThen (h : r.Agree R q) {f : σ → Ran ε σ} {g : τ → Ran ε τ}
    (hn : ∀ x y, R x y → (f x).Agree R (g y)) : (r.andThen f).Agree R (q.andThen g) := by
  rcases r with ⟨e, x⟩
  rcases q with ⟨e', y⟩
  obtain ⟨rfl, hxy⟩ := h
  cases e' with
  | finished => exact hn x y hxy
  | failed e => exact ⟨rfl, hxy⟩
  | panicked p => exact ⟨rfl, hxy⟩

theorem mapError (h : r.Agree R q) (f : ε → δ) : (r.mapError f).Agree R (q.mapError f) := by
  rcases r with ⟨e, x⟩
  rcases q with ⟨e', y⟩
  obtain ⟨rfl, hxy⟩ := h
  cases e' <;> exact ⟨rfl, hxy⟩

theorem mapState {σ' τ' : Type} {R' : σ' → τ' → Prop} (h : r.Agree R q) {f : σ → σ'} {g : τ → τ'}
    (hf : ∀ x y, R x y → R' (f x) (g y)) : (r.mapState f).Agree R' (q.mapState g) :=
  ⟨h.1, hf _ _ h.2⟩

theorem swallowing (h : r.Agree R q) (b : Bool) : (r.swallowing b).Agree R (q.swallowing b) := by
  rcases r with ⟨e, x⟩
  rcases q with ⟨e', y⟩
  obtain ⟨rfl, hxy⟩ := h
  cases e' <;> cases b <;> exact ⟨rfl, hxy⟩

end Ran.Agree

/-! ### Relations that local scripts keep -/

/-- The event without the number of a registration. -/
def Event.unnumbered : Event → Event
  | .registered _ => .registered 0
  | .closed _ => .closed 0
  | e => e

/-- Local scripts of the scope `s` do in a notebook what those of the scope `t` do in a related
one. -/
structure Notebook.Simulates (s t : Scope) (R : Notebook → Notebook → Prop) : Prop where
  root : t.root = s.root
  read : ∀ {n m name}, R n m → m.locals t.invocation name = n.locals s.invocation name
  write : ∀ {n m} name v, R n m →
    R { n with store := n.store.write (.invocation s.invocation) name v }
      { m with store := m.store.write (.invocation t.invocation) name v }
  event : ∀ {n m e f}, R n m → e.isBoundary = false → f.unnumbered = e.unnumbered →
    R (n.add e) (m.add f)
  serial : ∀ {n m} j k, R n m → R { n with serials := j } { m with serials := k }

/-- The same registration in two notebooks: all but its number and its scope is equal. -/
structure Registration.Agree (s t : Scope) (r q : Registration Closure) : Prop where
  label : q.label = r.label
  resource : q.resource = r.resource
  script : q.close.script = r.close.script
  isLocal : r.close.script.IsLocal
  left : r.close.scope = s
  right : q.close.scope = t

/-- The same registrations in two notebooks. -/
abbrev Shelf.Agree (s t : Scope) : Shelf Closure → Shelf Closure → Prop :=
  List.Forall₂ (Registration.Agree s t)

theorem Shelf.Agree.right {s t : Scope} {a b : Shelf Closure} (h : Shelf.Agree s t a b) :
    ∀ r ∈ b, r.close.scope = t := by
  induction h with
  | nil => exact nofun
  | cons hr _ ih => exact List.forall_mem_cons.mpr ⟨hr.right, ih⟩

/-- Closets with the same registrations and related notebooks. -/
structure Closet.Agree (s t : Scope) (R : Notebook → Notebook → Prop) (c d : Closet Closure) :
    Prop where
  shelf : c.shelf.Agree s t d.shelf
  book : R c.book d.book

section Agree

variable {s t : Scope} {R : Notebook → Notebook → Prop} {n m : Notebook}

namespace Notebook

theorem Simulates.scope_read (S : Simulates s t R) (h : R n m) {name : String}
    (hn : LocalName name) : t.read m.store name = s.read n.store name := by
  rw [Scope.read, Scope.read, Scope.realm_local hn, Scope.realm_local hn]
  exact S.read h

theorem Simulates.holds (S : Simulates s t R) (h : R n m) {c : Condition} (hc : LocalName c.name) :
    m.holds t c = n.holds s c := by
  rw [Notebook.holds, Notebook.holds, Condition.holds, Condition.holds, S.scope_read h hc]

theorem Simulates.say (S : Simulates s t R) (h : R n m) (line : String) :
    R (n.say s.root line) (m.say t.root line) := by
  refine S.event h rfl ?_
  rw [S.root]

theorem Simulates.perform (S : Simulates s t R) (h : R n m) {b : Basic} (hb : b.IsLocal)
    (res : Option String) : (n.perform s res b).Agree R (m.perform t res b) := by
  cases b with
  | log text => exact ⟨rfl, S.say h _⟩
  | logVar name =>
    refine ⟨rfl, ?_⟩
    show R (n.say s.root s!"var {name}={s.read n.store name}")
      (m.say t.root s!"var {name}={t.read m.store name}")
    rw [S.scope_read h hb]
    exact S.say h _
  | incr name =>
    refine ⟨rfl, ?_⟩
    show R { n with store := n.store.write (s.realm name) name (s.read n.store name + 1) }
      { m with store := m.store.write (t.realm name) name (t.read m.store name + 1) }
    rw [S.scope_read h hb, Scope.realm_local hb, Scope.realm_local hb]
    exact S.write _ _ h
  | logResource => exact ⟨rfl, S.say h _⟩
  | fail e => exact ⟨rfl, h⟩
  | panic p => exact ⟨rfl, h⟩

end Notebook

/-- **Local callbacks agree.** -/
theorem Callback.run_agree (S : Notebook.Simulates s t R) (res : Option String) {c : Callback}
    (hc : c.IsLocal) : ∀ {n m}, R n m → (c.run s res n).Agree R (c.run t res m) := by
  induction c with
  | done => intro n m h; exact ⟨rfl, h⟩
  | basic b next ih =>
    intro n m h
    exact (S.perform h hc.1 res).andThen fun x y hxy => ih hc.2 hxy
  | branch c yes no next ihy ihn ih =>
    intro n m h
    obtain ⟨hname, hy, hn, hnext⟩ := hc
    rw [run, run, S.holds h hname]
    refine Ran.Agree.andThen ?_ fun x y hxy => ih hnext hxy
    split
    · exact ihy hy h
    · exact ihn hn h

theorem Registration.run_agree (S : Notebook.Simulates s t R) {r q : Registration Closure}
    (hr : r.Agree s t q) (h : R n m) : (r.run n).Agree R (q.run m) := by
  have hclosed : R (n.add (.closed r.serial)) (m.add (.closed q.serial)) := S.event h rfl rfl
  rw [run, run, hr.resource, hr.script, hr.left, hr.right]
  exact (Callback.run_agree S r.resource hr.isLocal hclosed).mapError _

/-- **Sweeps of the same registrations find the same errors.** -/
theorem Notebook.sweep_agree (S : Simulates s t R) {rs qs : List (Registration Closure)}
    (hrs : List.Forall₂ (Registration.Agree s t) rs qs) : ∀ {n m}, R n m →
    (m.sweep qs).1 = (n.sweep rs).1 ∧ R (n.sweep rs).2 (m.sweep qs).2 := by
  induction hrs with
  | nil => intro n m h; exact ⟨rfl, h⟩
  | @cons r q rs qs hr _ ih =>
    intro n m h
    obtain ⟨he, hstate⟩ := Registration.run_agree S hr h
    obtain ⟨hrest, hlast⟩ := ih hstate
    refine ⟨?_, hlast⟩
    show (teardownError? q.label (q.run m).ending).toList ++ _ = _
    rw [hr.label, he]
    exact congrArg _ hrest

namespace Closet

variable {c d : Closet Closure}

theorem Agree.withBook (h : c.Agree s t R d) (hb : R n m) :
    ({ c with book := n } : Closet Closure).Agree s t R { d with book := m } :=
  ⟨h.shelf, hb⟩

theorem Agree.perform (S : Notebook.Simulates s t R) (h : c.Agree s t R d) {b : Basic}
    (hb : b.IsLocal) (res : Option String) :
    (c.perform s res b).Agree (Agree s t R) (d.perform t res b) :=
  (S.perform h.book hb res).mapState fun _ _ hxy => h.withBook hxy

theorem Agree.register (S : Notebook.Simulates s t R) (h : c.Agree s t R d) {close : Callback}
    (hc : close.IsLocal) (label : String) (res : Option String) :
    (c.register label res ⟨close, s⟩).Agree s t R (d.register label res ⟨close, t⟩) where
  shelf := .cons ⟨rfl, rfl, rfl, hc, rfl, rfl⟩ h.shelf
  book := S.serial _ _ (S.event h.book rfl rfl)

end Closet

variable {l₁ l₂ : Listener} (test : Description)

/-- **Local bodies agree**, whoever listens. -/
theorem Body.run_agree (S : Notebook.Simulates s t R) (hl₁ : l₁.Calm) (hl₂ : l₂.Calm) {b : Body}
    (hb : b.IsLocal) : ∀ {c d : Closet Closure}, c.Agree s t R d →
    (b.run ⟨test, l₁, s⟩ c).Agree (Closet.Agree s t R) (b.run ⟨test, l₂, t⟩ d) := by
  induction b with
  | done => intro c d h; exact ⟨rfl, h⟩
  | basic b next ih =>
    intro c d h
    exact ((h.perform S hb.1 none).mapError _).andThen fun x y hxy => ih hb.2 hxy
  | branch c yes no next ihy ihn ih =>
    intro c d h
    obtain ⟨hname, hy, hn, hnext⟩ := hb
    rw [run, run, S.holds h.book hname]
    refine Ran.Agree.andThen ?_ fun x y hxy => ih hnext hxy
    split
    · exact ihy hy h
    · exact ihn hn h
  | autoClose r close next ih => intro c d h; exact ih hb.2 (h.register S hb.1 _ _)
  | deferClose close next ih => intro c d h; exact ih hb.2 (h.register S hb.1 _ _)
  | publish kind payload next ih =>
    intro c d h
    rw [run, run, Notebook.notify, Notebook.notify, hl₁, hl₂]
    exact ih hb (h.withBook (S.event h.book rfl rfl))
  | nameSelf next ih => intro c d h; exact ih hb (h.withBook (S.say h.book _))
  | describeSelf next ih => intro c d h; exact ih hb (h.withBook (S.say h.book _))

theorem Body.execute_agree (S : Notebook.Simulates s t R) (hl₁ : l₁.Calm) (hl₂ : l₂.Calm) {b : Body}
    (hb : b.IsLocal) {c d : Closet Closure} (h : c.Agree s t R d) :
    (b.execute ⟨test, l₂, t⟩ d).1 = (b.execute ⟨test, l₁, s⟩ c).1 ∧
      (b.execute ⟨test, l₁, s⟩ c).2.Agree s t R (b.execute ⟨test, l₂, t⟩ d).2 := by
  have hran : R (c.book.add (.ran s.root test.path)) (d.book.add (.ran t.root test.path)) := by
    refine S.event h.book rfl ?_
    rw [S.root]
  obtain ⟨he, hstate⟩ := Body.run_agree test S hl₁ hl₂ hb (h.withBook hran)
  exact ⟨congrArg failure? he, hstate⟩

theorem Closet.conclude_agree (S : Notebook.Simulates s t R) {c d : Closet Closure}
    (h : c.Agree s t R d) (failure : Option Failure) :
    (d.conclude failure).1 = (c.conclude failure).1 ∧
      R (c.conclude failure).2 (d.conclude failure).2 := by
  obtain ⟨he, hbook⟩ := Notebook.sweep_agree S h.shelf h.book
  exact ⟨congrArg (TestTree.conclude failure) he, hbook⟩

/-- Replays that registered the same and decided the same. -/
structure Replay.Agree (s t : Scope) (R : Notebook → Notebook → Prop) (r q : Replay) : Prop where
  closet : r.closet.Agree s t R q.closet
  decision : q.decision = r.decision

theorem Replay.leave_agree {r q : Ran BuildError Replay} (h : r.Agree (Replay.Agree s t R) q) :
    (leave r).Agree s t R (leave q) := by
  rcases r with ⟨e, c, x⟩
  rcases q with ⟨e', d, y⟩
  obtain ⟨rfl, hc, rfl⟩ := h
  rw [leave, leave]
  cases contextFailure? e' with
  | none => exact ⟨hc, rfl⟩
  | some f => cases y <;> exact ⟨hc, rfl⟩

theorem Replay.verdict_agree {r q : Ran BuildError Replay} (h : r.Agree (Replay.Agree s t R) q) :
    verdict test q = verdict test r := by
  rw [verdict, verdict, h.2.decision, h.1]

/-- **Replays through local builders agree.** -/
theorem Builder.replay_agree (S : Notebook.Simulates s t R) (hl₁ : l₁.Calm) (hl₂ : l₂.Calm)
    {b : Builder} (hb : b.IsLocal) : ∀ (depth : Nat) {r q : Replay}, r.Agree s t R q →
    (b.replay ⟨test, l₁, s⟩ depth r).Agree (Replay.Agree s t R)
      (b.replay ⟨test, l₂, t⟩ depth q) := by
  induction b with
  | done => intro depth r q h; exact ⟨rfl, h⟩
  | basic b next ih =>
    intro depth r q h
    refine (((h.closet.perform S hb.1 none).mapError _).mapState ?_).andThen fun x y hxy =>
      ih hb.2 depth hxy
    intro c d hcd
    exact ⟨hcd, h.decision⟩
  | branch c yes no next ihy ihn ih =>
    intro depth r q h
    obtain ⟨hname, hy, hn, hnext⟩ := hb
    rw [replay, replay, S.holds h.closet.book hname]
    refine Ran.Agree.andThen ?_ fun x y hxy => ih hnext depth hxy
    split
    · exact ihy hy depth h
    · exact ihn hn depth h
  | autoClose res close next ih =>
    intro depth r q h
    exact ih hb.2 depth ⟨h.closet.register S hb.1 _ _, h.decision⟩
  | deferClose close next ih =>
    intro depth r q h
    exact ih hb.2 depth ⟨h.closet.register S hb.1 _ _, h.decision⟩
  | test name site body swallow next ih =>
    intro depth r q h
    -- whether this is the target depends on the path and on what was decided
    rw [replay, replay, h.decision]
    split
    · obtain ⟨hf, hc⟩ := Body.execute_agree test S hl₁ hl₂ hb.1 h.closet
      refine ih hb.2 depth ⟨hc, ?_⟩
      exact congrArg Decision.ofBody hf
    · exact ih hb.2 depth h
  | context name site inner swallow next ihi ih =>
    intro depth r q h
    rw [replay, replay, h.decision]
    split
    · refine ih hb.2 depth (Replay.leave_agree (ihi hb.1 _ ⟨h.closet.withBook ?_, rfl⟩))
      refine S.event h.closet.book rfl ?_
      rw [S.root]
    · exact ih hb.2 depth h
  | pending name site swallow next ih => intro depth r q h; exact ih hb depth h
  | afterSuite callback next ih => intro depth r q h; exact ih hb depth h
  | logCurrent next ih =>
    intro depth r q h
    exact ih hb depth ⟨h.closet.withBook (S.say h.closet.book _), h.decision⟩

end Agree

end TestTree

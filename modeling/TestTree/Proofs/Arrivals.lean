/-
Contexts that passes enter, each with the site of the declaration that entered it.

* `Builder.arrivals`, `RootContext.arrivals` : the contexts that a visit enters, and a pass;
* `ArrivalRelation`, `Builder.visit_arrivals` : **what every step of a visit keeps of the contexts
  entered so far, the whole visit keeps**;
* `Builder.arrivals_logged` : the arrivals are what the log has;
* `RootContext.route` : the arrivals of the passes of a discovery;
* `RootContext.Tours` : what discovery carries, where each pass may run another builder of the root.

## Design notes

A declaration is made anew in every pass, with a site that may be another one than before.  The log
has the paths of contexts only, so the sites are told by a function beside the visit.
-/
import TestTree.Proofs.Entrances

namespace TestTree

/-- The path of a context that was entered, and the site of the declaration that entered it. -/
abbrev Arrival := NamePath × Location

/-- The contexts that the visit of a builder enters, in order. -/
def Builder.arrivals (s : PassScope) : Builder → Pass → List Arrival
  | done, _ => []
  | basic b next, p => (p.perform s.scope b).behind (next.arrivals s)
  | branch c yes no next, p =>
    if p.world.book.holds s.scope c then
      yes.arrivals s p ++ (yes.visit s p).behind (next.arrivals s)
    else no.arrivals s p ++ (no.visit s p).behind (next.arrivals s)
  | autoClose r close next, p =>
    next.arrivals s (p.withCloset (p.closet.autoClose r ⟨close, s.scope⟩))
  | deferClose close next, p =>
    next.arrivals s (p.withCloset (p.closet.deferClose ⟨close, s.scope⟩))
  | test name site body swallow next, p =>
    ((p.declareTest s name site body).swallowing swallow).behind (next.arrivals s)
  | context name site inner swallow next, p =>
    match p.enter? s name site with
    | .inl r => (r.swallowing swallow).behind (next.arrivals s)
    | .inr y =>
      let r := Pass.leave (p.parentVisit name) name site y.shelf.mark (inner.visit s y)
      ((p.visit.context.path ++ [name], site) :: inner.arrivals s y)
        ++ (r.swallowing swallow).behind (next.arrivals s)
  | pending name site swallow next, p =>
    ((p.declarePending name site).swallowing swallow).behind (next.arrivals s)
  | afterSuite callback next, p => next.arrivals s (p.declareAfterSuite s callback)
  | logCurrent next, p =>
    next.arrivals s { p with world := { p.world with
      book := p.world.book.say s.scope.root ("current " ++ p.visit.context.display) } }

/-! ### Visits with their arrivals -/

/-- What is known of two moments of the visit of one context and of the contexts entered between
them, and is kept by every step.  The visit of a sub-context, from entering to leaving it, is one
step. -/
structure ArrivalRelation (s : PassScope) (Rel : Pass → List Arrival → Pass → Prop) : Prop where
  refl : ∀ x, Rel x [] x
  trans : ∀ {x y z as bs}, Rel x as y → Rel y bs z → Rel x (as ++ bs) z
  perform : ∀ x b, Rel x [] (x.perform s.scope b).state
  register : ∀ x label res close, Rel x [] (x.withCloset (x.closet.register label res close))
  say : ∀ x line,
    Rel x [] { x with world := { x.world with book := x.world.book.say s.scope.root line } }
  declareTest : ∀ x name site body, Rel x [] (x.declareTest s name site body).state
  declarePending : ∀ x name site, Rel x [] (x.declarePending name site).state
  declareAfterSuite : ∀ x callback, Rel x [] (x.declareAfterSuite s callback)
  outside : ∀ {x name site r}, x.enter? s name site = .inl r → Rel x [] r.state
  leave : ∀ {x name site y as} {r : Ran BuildError Pass}, x.enter? s name site = .inr y →
    Rel y as r.state → ∀ mark, Rel x ((x.visit.context.path ++ [name], site) :: as)
      (Pass.leave (x.parentVisit name) name site mark r).state

namespace ArrivalRelation

variable {s : PassScope} {Rel : Pass → List Arrival → Pass → Prop} (H : ArrivalRelation s Rel)
include H

/-- A part of a visit, and what comes behind it if it finishes. -/
theorem andThen {x : Pass} {as : List Arrival} {r : Ran BuildError Pass} (h : Rel x as r.state)
    {next : Pass → Ran BuildError Pass} {rest : Pass → List Arrival}
    (hn : ∀ y, Rel y (rest y) (next y).state) :
    Rel x (as ++ r.behind rest) (r.andThen next).state := by
  have hstop : Rel x (as ++ []) r.state := by rwa [List.append_nil]
  obtain ⟨_ | e | p, y⟩ := r
  · exact H.trans h (hn y)
  · exact hstop
  · exact hstop

theorem behind {x : Pass} {r : Ran BuildError Pass} (h : Rel x [] r.state)
    {next : Pass → Ran BuildError Pass} {rest : Pass → List Arrival}
    (hn : ∀ y, Rel y (rest y) (next y).state) : Rel x (r.behind rest) (r.andThen next).state :=
  H.andThen h hn

end ArrivalRelation

/-- **What every step of a visit keeps of the contexts entered, the whole visit keeps.** -/
theorem Builder.visit_arrivals {s : PassScope} {Rel : Pass → List Arrival → Pass → Prop}
    (H : ArrivalRelation s Rel) (b : Builder) :
    ∀ x, Rel x (b.arrivals s x) (b.visit s x).state := by
  induction b with
  | done => intro x; exact H.refl x
  | basic b next ih => intro x; exact H.behind (H.perform x b) ih
  | branch c yes no next ihy ihn ih =>
    intro x
    rw [visit, arrivals]
    split
    · exact H.andThen (ihy x) ih
    · exact H.andThen (ihn x) ih
  | autoClose r close next ih => intro x; exact H.trans (H.register x _ _ _) (ih _)
  | deferClose close next ih => intro x; exact H.trans (H.register x _ _ _) (ih _)
  | test name site body swallow next ih =>
    intro x
    refine H.behind ?_ ih
    rw [Ran.state_swallowing]
    exact H.declareTest x name site body
  | context name site inner swallow next ihi ih =>
    intro x
    rw [visit, arrivals]
    cases h : x.enter? s name site with
    | inl r =>
      refine H.behind ?_ ih
      rw [Ran.state_swallowing]
      exact H.outside h
    | inr y =>
      refine H.andThen ?_ ih
      rw [Ran.state_swallowing]
      exact H.leave h (ihi y) _
  | pending name site swallow next ih =>
    intro x
    refine H.behind ?_ ih
    rw [Ran.state_swallowing]
    exact H.declarePending x name site
  | afterSuite callback next ih => intro x; exact H.trans (H.declareAfterSuite x callback) (ih _)
  | logCurrent next ih => intro x; exact H.trans (H.say x _) (ih _)

/-! ### Arrivals in the log -/

/-- The arrivals as the log has them, the latest first. -/
def Arrival.logged (root : Nat) (as : List Arrival) : List (Nat × NamePath) :=
  (as.map fun a => (root, a.1)).reverse

theorem Arrival.logged_append (root : Nat) (as bs : List Arrival) :
    logged root (as ++ bs) = logged root bs ++ logged root as := by
  simp [logged]

/-- The log of `y` has the contexts `as` on top of what that of `x` has. -/
def Pass.Logs (s : PassScope) (x : Pass) (as : List Arrival) (y : Pass) : Prop :=
  y.world.book.entrances = Arrival.logged s.root.index as ++ x.world.book.entrances

theorem Pass.logs_arrivalRelation (s : PassScope) : ArrivalRelation s (Pass.Logs s) where
  refl _ := rfl
  trans h k := by
    rw [Logs, k, h, Arrival.logged_append, List.append_assoc]
  perform x b := entrances_perform x s.scope b
  register x _ _ _ := Notebook.entrances_add x.world.book _
  say x _ := Notebook.entrances_add x.world.book _
  declareTest := entrances_declareTest
  declarePending := entrances_declarePending
  declareAfterSuite x callback := by
    rw [Logs, world_declareAfterSuite]
    rfl
  outside h := by
    rcases outside_cases h with ⟨_, rfl⟩ | ⟨-, -, hworld, -⟩
    · rfl
    · rw [Logs, hworld]
      rfl
  leave hy h mark := by
    rw [Logs, entrances_leave, h, entrances_enter hy, List.append_cons]
    simp [Arrival.logged]

/-- **A visit writes down its arrivals, and no others.** -/
theorem Builder.arrivals_logged (s : PassScope) (b : Builder) (x : Pass) :
    (b.visit s x).state.world.book.entrances
      = Arrival.logged s.root.index (b.arrivals s x) ++ x.world.book.entrances :=
  b.visit_arrivals (Pass.logs_arrivalRelation s) x

/-! ### Passes -/

namespace RootContext

variable {r : RootContext} {search : Search} {w w₀ : World} {n : Nat}

/-- The arrivals of a pass, at the root first. -/
def arrivals (r : RootContext) (search : Search) (w : World) : List Arrival :=
  (r.context.path, r.location)
    :: r.builder.arrivals ⟨r, ⟨r.index, w.book.invocations⟩, w.shelves.length⟩ (r.opened search w)

/-- The arrivals of the first `n` passes of a discovery that begins in `w`. -/
def route (r : RootContext) (n : Nat) (w : World) : List Arrival :=
  r.along r.arrivals n {} w

theorem Begins.route_succ (h : r.Begins w₀ n search w) :
    r.route (n + 1) w₀ = r.route n w₀ ++ r.arrivals search w :=
  h.along_succ r.arrivals

theorem logged_runPass (r : RootContext) (search : Search) (w : World) :
    (r.runPass search w).world.book.entrances
      = Arrival.logged r.index (r.arrivals search w) ++ w.book.entrances := by
  have hvisit := r.builder.arrivals_logged
    ⟨r, ⟨r.index, w.book.invocations⟩, w.shelves.length⟩ (r.opened search w)
  rw [r.entrances_opened] at hvisit
  rw [arrivals, ← List.singleton_append, Arrival.logged_append, List.append_assoc]
  exact hvisit

/-- **The log of a discovery has the arrivals of its passes.** -/
theorem Begins.logged (h : r.Begins w₀ n search w) :
    w.book.entrances = Arrival.logged r.index (r.route n w₀) ++ w₀.book.entrances := by
  induction h with
  | first => rfl
  | next h _ _ _ ih =>
    rw [r.entrances_behind, logged_runPass, ih, h.route_succ, Arrival.logged_append,
      List.append_assoc]

/-! ### Builders that change -/

/-- The root with another builder. -/
def building (r : RootContext) (b : Builder) : RootContext :=
  { r with builder := b }

/-- What discovery carries behind passes that entered `as`, where every pass may run another builder
of the root, and begins in a world of which `Q` is known. -/
inductive Tours (r : RootContext) (Q : World → Prop) : Search → List Arrival → Prop
  | first : Tours r Q {} []
  | next {search : Search} {as : List Arrival} {w : World} (h : Tours r Q search as) (b : Builder)
      (hw : Q w) : Tours r Q (r.handOn ((r.building b).runPass search w))
        (as ++ (r.building b).arrivals search w)

/-- A discovery is a tour in which the root keeps its builder. -/
theorem Begins.tours {Q : World → Prop} (h : r.Begins w₀ n search w)
    (hQ : ∀ {n search w}, r.Begins w₀ n search w → Q w) :
    r.Tours Q search (r.route n w₀) := by
  induction h with
  | first => exact .first
  | next h _ _ _ ih =>
    rw [h.route_succ]
    exact ih.next r.builder (hQ h)

end RootContext

end TestTree

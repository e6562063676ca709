/-
Structural errors on their way through the builders of a pass.

* `Mark`, `Builder.history` : names that a pass declares, structural errors that are raised, and
  those that a builder discards;
* `Mark.collision?` : the first name that is declared for a second time;
* `Builder.visit_told` : a visit keeps the first collision, whatever builders do with the error;
* `Builder.visit_surfaces` : a structural error that is raised and never discarded ends the visit;
* `RootContext.fatal?_runPass` : the error that a pass ends discovery with;
* `RootContext.structural_errors_end` : **a collision in any pass, and a structural error that no
  builder discards, end discovery with an error**;
* `RootContext.discardingRoot_loses` : an error that a builder discards is lost otherwise.

## Design notes

The history of a visit is computed along with the visit, and says nothing about what discovery
remembers.  A context is visited once in a pass, so a name that is declared twice in one visit is a
path that is declared twice in one pass.
-/
import TestTree.Proofs.DiscoveryAlike
import TestTree.Proofs.PassBound

namespace TestTree

/-! ### Histories -/

/-- What happens in a pass that has to do with structural errors. -/
inductive Mark where
  /-- A name is declared, whether it was declared before or not. -/
  | declared (place : Place)
  /-- A statement of a builder fails with a structural error. -/
  | raised (error : StructuralError)
  /-- A declaration ends with a structural error, and its builder goes on. -/
  | discarded (error : StructuralError)
  deriving Inhabited

/-- The structural error of a part of a visit that ended so. -/
def Ran.structural? {σ : Type} (r : Ran BuildError σ) : Option StructuralError :=
  match r.ending with
  | .failed (.structural e) => some e
  | _ => none

/-- The structural error of a declaration that its builder swallows. -/
def Ran.discarding {σ : Type} (r : Ran BuildError σ) (swallow : Bool) : List Mark :=
  if swallow then (r.structural?.map Mark.discarded).toList else []

/-- The history of the visit of a builder. -/
def Builder.history (s : PassScope) : Builder → Pass → List Mark
  | done, _ => []
  | basic b next, p =>
    ((p.perform s.scope b).structural?.map Mark.raised).toList
      ++ (p.perform s.scope b).behind (next.history s)
  | branch c yes no next, p =>
    if p.world.book.holds s.scope c then
      yes.history s p ++ (yes.visit s p).behind (next.history s)
    else no.history s p ++ (no.visit s p).behind (next.history s)
  | autoClose r close next, p =>
    next.history s (p.withCloset (p.closet.autoClose r ⟨close, s.scope⟩))
  | deferClose close next, p =>
    next.history s (p.withCloset (p.closet.deferClose ⟨close, s.scope⟩))
  | test name site body swallow next, p =>
    let r := p.declareTest s name site body
    (.declared (p.place name) :: r.discarding swallow)
      ++ (r.swallowing swallow).behind (next.history s)
  | context name site inner swallow next, p =>
    match p.enter? s name site with
    | .inl r =>
      (.declared (p.place name) :: r.discarding swallow)
        ++ (r.swallowing swallow).behind (next.history s)
    | .inr y =>
      let r := Pass.leave (p.parentVisit name) name site y.shelf.mark (inner.visit s y)
      (.declared (p.place name) :: (inner.history s y ++ r.discarding swallow))
        ++ (r.swallowing swallow).behind (next.history s)
  | pending name site swallow next, p =>
    let r := p.declarePending name site
    (.declared (p.place name) :: r.discarding swallow)
      ++ (r.swallowing swallow).behind (next.history s)
  | afterSuite callback next, p => next.history s (p.declareAfterSuite s callback)
  | logCurrent next, p =>
    next.history s (p.withCloset
      ⟨p.shelf, p.world.book.say s.scope.root ("current " ++ p.visit.context.display)⟩)

/-- The history of a pass. -/
def RootContext.marks (r : RootContext) (search : Search) (w : World) : List Mark :=
  r.builder.history ⟨r, ⟨r.index, w.book.invocations⟩, w.shelves.length⟩ (r.opened search w)

namespace Mark

/-- The path that is declared. -/
def path? : Mark → Option NamePath
  | declared place => some place.path
  | _ => none

/-- The paths that are declared, in order. -/
def paths (hs : List Mark) : List NamePath :=
  hs.filterMap path?

/-- The error for the first path that is declared though it is one of `seen`, or was declared
before. -/
def collision? : (seen : List NamePath) → List Mark → Option StructuralError
  | _, [] => none
  | seen, declared place :: rest =>
    if place.path ∈ seen then some (.duplicateName place.name place.container.display)
    else collision? (seen ++ [place.path]) rest
  | seen, raised _ :: rest => collision? seen rest
  | seen, discarded _ :: rest => collision? seen rest

@[simp] theorem paths_append (hs ks : List Mark) : paths (hs ++ ks) = paths hs ++ paths ks :=
  List.filterMap_append

theorem collision?_append (hs ks : List Mark) : ∀ seen, collision? seen (hs ++ ks)
    = (collision? seen hs).or (collision? (seen ++ paths hs) ks) := by
  induction hs with
  | nil => intro seen; simp [collision?, paths]
  | cons h rest ih =>
    intro seen
    cases h with
    | declared place =>
      rw [List.cons_append, collision?, collision?]
      split
      · rfl
      · rw [ih]
        simp [paths, path?]
    | raised e => exact ih seen
    | discarded e => exact ih seen

/-- Marks that declare nothing collide with nothing. -/
theorem collision?_of_paths {hs : List Mark} (h : paths hs = []) :
    ∀ seen, collision? seen hs = none := by
  induction hs with
  | nil => intro seen; rfl
  | cons m rest ih =>
    intro seen
    cases m with
    | declared place => simp [paths, path?] at h
    | raised e => exact ih h seen
    | discarded e => exact ih h seen

/-- There is no collision exactly if all paths are different, and none was seen before. -/
theorem collision?_eq_none {hs : List Mark} : ∀ {seen},
    collision? seen hs = none ↔ (paths hs).Nodup ∧ ∀ path ∈ paths hs, path ∉ seen := by
  induction hs with
  | nil => intro seen; simp [collision?, paths]
  | cons m rest ih =>
    intro seen
    cases m with
    | declared place =>
      have hpaths : paths (.declared place :: rest) = place.path :: paths rest := rfl
      rw [collision?, hpaths, List.nodup_cons, List.forall_mem_cons]
      split
      · simp [*]
      · rename_i hseen
        rw [ih]
        -- what comes behind must not repeat the path either
        constructor
        · rintro ⟨hnd, hnew⟩
          refine ⟨⟨fun hmem => hnew _ hmem (by simp), hnd⟩, hseen, fun path hp hs => ?_⟩
          exact hnew path hp (List.mem_append_left _ hs)
        · rintro ⟨⟨hmem, hnd⟩, -, hnew⟩
          refine ⟨hnd, fun path hp hs => ?_⟩
          rcases List.mem_append.mp hs with hs | hs
          · exact hnew path hp hs
          · rw [List.mem_singleton.mp hs] at hp
            exact hmem hp
    | raised e => exact ih
    | discarded e => exact ih

/-- The collision is at the first path that is declared for a second time. -/
theorem exists_of_collision {hs : List Mark} {e : StructuralError} : ∀ {seen},
    collision? seen hs = some e → ∃ before place after, hs = before ++ .declared place :: after ∧
      collision? seen before = none ∧ place.path ∈ seen ++ paths before ∧
      e = .duplicateName place.name place.container.display := by
  induction hs with
  | nil => intro seen h; cases h
  | cons m rest ih =>
    intro seen h
    cases m with
    | declared place =>
      rw [collision?] at h
      split at h
      · rename_i hseen
        cases h
        exact ⟨[], place, rest, rfl, rfl, List.mem_append_left _ hseen, rfl⟩
      · rename_i hseen
        obtain ⟨before, q, after, rfl, hnone, hq, he⟩ := ih h
        refine ⟨.declared place :: before, q, after, rfl, ?_, ?_, he⟩
        · rw [collision?, if_neg hseen]
          exact hnone
        · rwa [List.append_assoc] at hq
    | raised e' =>
      obtain ⟨before, q, after, rfl, hnone, hq, he⟩ := ih h
      exact ⟨.raised e' :: before, q, after, rfl, hnone, hq, he⟩
    | discarded e' =>
      obtain ⟨before, q, after, rfl, hnone, hq, he⟩ := ih h
      exact ⟨.discarded e' :: before, q, after, rfl, hnone, hq, he⟩

theorem paths_discarding (r : Ran BuildError Pass) (swallow : Bool) :
    paths (r.discarding swallow) = [] := by
  rw [Ran.discarding]
  split
  · cases r.structural? <;> rfl
  · rfl

end Mark

/-! ### Collisions -/

namespace Pass

/-- Leaving a context that failed changes nothing of the visit around it but whether a test was
met. -/
theorem visit_leaveFailed (x : Pass) (name : String) (site : Location) (mark : Nat)
    (failure : Failure) :
    (leaveFailed name site mark failure x).state.visit.context = x.visit.context ∧
      (leaveFailed name site mark failure x).state.visit.names = x.visit.names := by
  have hfails : ∀ y : Pass, ∀ f, (y.fails name site f).state.visit.context = y.visit.context ∧
      (y.fails name site f).state.visit.names = y.visit.names := by
    intro y f
    have hv := (y.complete_same ⟨⟨y.visit.context, name, site⟩, .failed f⟩).1
    rw [fails]
    generalize y.complete ⟨⟨y.visit.context, name, site⟩, .failed f⟩ = c at hv ⊢
    have hc := congrArg Visit.context hv
    have hn := congrArg Visit.names hv
    obtain ⟨_ | e | p, z⟩ := c <;> exact ⟨hc, hn⟩
  by_cases hd : x.search.direct.isSome = true
  · rw [leaveFailed_owned hd]
    exact hfails x _
  · rw [leaveFailed_swept hd]
    exact hfails (x.swept mark) _

/-- What leaving a context keeps: the visit around it, and the first collision. -/
theorem leave_keeps (parent : Visit) (name : String) (site : Location) (mark : Nat)
    (r : Ran BuildError Pass) :
    (leave parent name site mark r).state.visit.context = parent.context ∧
      (leave parent name site mark r).state.visit.names = parent.names ∧
      (leave parent name site mark r).state.search.fatal = r.state.search.fatal := by
  have hfailed : ∀ f, (leaveFailed name site mark f (r.state.within parent)).state.visit.context
      = parent.context ∧ (leaveFailed name site mark f (r.state.within parent)).state.visit.names
      = parent.names ∧ (leaveFailed name site mark f (r.state.within parent)).state.search.fatal
      = r.state.search.fatal := by
    intro f
    obtain ⟨hc, hn⟩ := (r.state.within parent).visit_leaveFailed name site mark f
    exact ⟨hc, hn, ((r.state.within parent).leaveFailed_keeps name site mark f).1⟩
  rw [leave]
  rcases r.ending with _ | (e | c) | p
  · have hv := visit_leaveFinished (r.state.within parent) name r.state.visit
    have hc := congrArg Visit.context hv
    have hn := congrArg Visit.names hv
    exact ⟨hc, hn, fatal_leaveFinished (r.state.within parent) name r.state.visit⟩
  · exact ⟨rfl, rfl, rfl⟩
  · exact hfailed _
  · exact hfailed _

/-- The names of the visit are the ones that were declared in its context, and nothing was declared
below any other name. -/
structure Knows (x : Pass) (seen : List NamePath) : Prop where
  declared : ∀ n ∈ x.visit.names, x.visit.context.path ++ [n] ∈ seen
  below : ∀ path ∈ seen, ∀ n, x.visit.context.path ++ [n] <+: path → n ∈ x.visit.names

/-- A part of a visit from `x` on, with the history `hs`, ended as `r`; `seen` was declared in the
pass before. -/
structure Told (seen : List NamePath) (x : Pass) (hs : List Mark) (r : Ran BuildError Pass) :
    Prop where
  context : r.state.visit.context = x.visit.context
  keep : ∀ n ∈ x.visit.names, n ∈ r.state.visit.names
  declared : ∀ n ∈ r.state.visit.names,
    n ∈ x.visit.names ∨ x.visit.context.path ++ [n] ∈ Mark.paths hs
  /-- Whatever is declared is declared in the context, or below one of its names. -/
  below : ∀ path ∈ Mark.paths hs, ∃ n, x.visit.context.path ++ [n] <+: path ∧
    n ∈ r.state.visit.names
  fatal : r.state.search.fatal = x.search.fatal.or (Mark.collision? seen hs)

variable {s : PassScope} {x y : Pass} {seen : List NamePath} {hs ks : List Mark}
  {r : Ran BuildError Pass}

/-- Two names that a path goes through at the same place are one. -/
theorem prefix_unique {c path : NamePath} {m n : String} (hm : c ++ [m] <+: path)
    (hn : c ++ [n] <+: path) : m = n := by
  obtain ⟨k, rfl⟩ := hm
  obtain ⟨l, hl⟩ := hn
  rw [List.append_assoc, List.append_assoc, List.append_right_inj] at hl
  exact (List.cons.inj hl).1.symm

/-- What goes through a name in a context is no path to the context. -/
theorem not_prefix_of_below {c path : NamePath} {name : String} (h : c ++ [name] <+: path) :
    ¬ path <+: c := by
  intro hc
  have hlen := (h.trans hc).length_le
  rw [List.length_append, List.length_singleton] at hlen
  omega

theorem Told.knows (h : Told seen x hs r) (hx : x.Knows seen) :
    r.state.Knows (seen ++ Mark.paths hs) where
  declared n hn := by
    rw [h.context, List.mem_append]
    exact (h.declared n hn).imp_left (hx.declared n)
  below path hp n hn := by
    rw [h.context] at hn
    rcases List.mem_append.mp hp with hp | hp
    · exact h.keep n (hx.below path hp n hn)
    · obtain ⟨m, hm, hmem⟩ := h.below path hp
      rwa [prefix_unique hn hm]

/-- Marks that declare nothing. -/
theorem Told.append (h : Told seen x hs r) (hk : Mark.paths ks = []) :
    Told seen x (hs ++ ks) r where
  context := h.context
  keep := h.keep
  declared := by rw [Mark.paths_append, hk, List.append_nil]; exact h.declared
  below := by rw [Mark.paths_append, hk, List.append_nil]; exact h.below
  fatal := by
    rw [Mark.collision?_append, Mark.collision?_of_paths hk, Option.or_none]
    exact h.fatal

/-- A step that declares nothing. -/
theorem told_quiet (hc : r.state.visit.context = x.visit.context)
    (hn : r.state.visit.names = x.visit.names) (hf : r.state.search.fatal = x.search.fatal)
    (hk : Mark.paths hs = []) : Told seen x hs r where
  context := hc
  keep n hmem := by rwa [hn]
  declared n hmem := .inl (by rwa [← hn])
  below := by simp [hk]
  fatal := by rw [Mark.collision?_of_paths hk, Option.or_none, hf]

theorem Told.swallowing (h : Told seen x hs r) (b : Bool) : Told seen x hs (r.swallowing b) := by
  constructor <;> rw [Ran.state_swallowing]
  · exact h.context
  · exact h.keep
  · exact h.declared
  · exact h.below
  · exact h.fatal

theorem Told.andThen (h : Told seen x hs r) (hx : x.Knows seen) {next : Pass → Ran BuildError Pass}
    {rest : Pass → List Mark}
    (hn : ∀ y : Pass, y.Knows (seen ++ Mark.paths hs) →
      Told (seen ++ Mark.paths hs) y (rest y) (next y)) :
    Told seen x (hs ++ r.behind rest) (r.andThen next) := by
  have hknows := h.knows hx
  obtain ⟨_ | e | p, y⟩ := r
  · have k := hn y hknows
    have hc : y.visit.context = x.visit.context := h.context
    constructor
    · exact k.context.trans hc
    · exact fun n hmem => k.keep n (h.keep n hmem)
    · intro n hmem
      rw [Mark.paths_append, List.mem_append, ← or_assoc]
      rcases k.declared n hmem with hy | hrest
      · exact .inl (h.declared n hy)
      · exact .inr (hc ▸ hrest)
    · intro path hp
      rw [Mark.paths_append] at hp
      rcases List.mem_append.mp hp with hp | hp
      · obtain ⟨n, hpre, hmem⟩ := h.below path hp
        exact ⟨n, hpre, k.keep n hmem⟩
      · rw [← hc]
        exact k.below path hp
    · rw [Mark.collision?_append, ← Option.or_assoc, ← h.fatal]
      exact k.fatal
  · exact h.append rfl
  · exact h.append rfl

/-- A declaration that enters no context: a name that was declared before is the first collision,
unless there was one. -/
theorem told_declared (hx : x.Knows seen) {name : String}
    (hc : r.state.visit.context = x.visit.context)
    (htaken : name ∈ x.visit.names → r.state.visit.names = x.visit.names ∧
      r.state.search.fatal
        = some (x.search.fatal.getD (.duplicateName name x.visit.context.display)))
    (hnew : name ∉ x.visit.names → r.state.visit.names = name :: x.visit.names ∧
      r.state.search.fatal = x.search.fatal) :
    Told seen x [.declared (x.place name)] r := by
  have hplace : (x.place name).path = x.visit.context.path ++ [name] := rfl
  have hpaths : Mark.paths [.declared (x.place name)] = [x.visit.context.path ++ [name]] := rfl
  by_cases hname : name ∈ x.visit.names
  · obtain ⟨hn, hf⟩ := htaken hname
    refine ⟨hc, fun n h => by rwa [hn], fun n h => .inl (by rwa [← hn]), fun path hp => ?_, ?_⟩
    · rw [List.mem_singleton.mp hp]
      exact ⟨name, List.prefix_rfl, by rwa [hn]⟩
    · rw [Mark.collision?, hplace, if_pos (hx.declared name hname), hf]
      cases x.search.fatal <;> rfl
  · obtain ⟨hn, hf⟩ := hnew hname
    refine ⟨hc, fun n h => ?_, fun n h => ?_, fun path hp => ?_, ?_⟩
    · rw [hn]
      exact List.mem_cons_of_mem _ h
    · rw [hn] at h
      rcases List.mem_cons.mp h with rfl | h
      · exact .inr (hpaths ▸ List.mem_cons_self)
      · exact .inl h
    · rw [List.mem_singleton.mp hp]
      exact ⟨name, List.prefix_rfl, by rw [hn]; exact List.mem_cons_self⟩
    · have hseen : x.visit.context.path ++ [name] ∉ seen := fun h =>
        hname (hx.below _ h name List.prefix_rfl)
      rw [Mark.collision?, hplace, if_neg hseen, hf]
      exact (Option.or_none).symm

theorem told_declareTest (hx : x.Knows seen) (name : String) (site : Location) (body : Body) :
    Told seen x [.declared (x.place name)] (x.declareTest s name site body) := by
  by_cases hname : name ∈ x.visit.names
  · rw [declareTest_taken hname]
    exact told_declared hx rfl (fun _ => ⟨rfl, rfl⟩) fun h => absurd hname h
  by_cases hp : x.isProcessed name = true
  · rw [declareTest_processed hname hp]
    exact told_declared hx rfl (fun h => absurd h hname) fun _ => ⟨rfl, rfl⟩
  by_cases hran : x.visit.ran = true
  · rw [declareTest_replayed hname hp hran]
    exact told_declared hx rfl (fun h => absurd h hname) fun _ => ⟨rfl, rfl⟩
  · rw [declareTest_direct hname hp hran]
    exact told_declared hx rfl (fun h => absurd h hname) fun _ => ⟨rfl, rfl⟩

theorem told_declarePending (hx : x.Knows seen) (name : String) (site : Location) :
    Told seen x [.declared (x.place name)] (x.declarePending name site) := by
  by_cases hname : name ∈ x.visit.names
  · rw [declarePending_taken hname]
    exact told_declared hx rfl (fun _ => ⟨rfl, rfl⟩) fun h => absurd hname h
  by_cases hp : x.isProcessed name = true
  · rw [declarePending_processed hname hp]
    exact told_declared hx rfl (fun h => absurd h hname) fun _ => ⟨rfl, rfl⟩
  · rw [declarePending_new hname hp]
    obtain ⟨hf, -, hv, -⟩ := complete_keeps ((x.within (x.parentVisit name)).process name)
      ⟨⟨x.visit.context, name, site⟩, .pending⟩
    have hc := congrArg Visit.context hv
    have hn := congrArg Visit.names hv
    exact told_declared hx hc (fun h => absurd h hname) fun _ => ⟨hn, hf⟩

theorem told_outside (hx : x.Knows seen) {name : String} {site : Location}
    (hr : x.enter? s name site = .inl r) : Told seen x [.declared (x.place name)] r := by
  by_cases hname : name ∈ x.visit.names
  · rw [enter?_taken hname] at hr
    cases hr
    exact told_declared hx rfl (fun _ => ⟨rfl, rfl⟩) fun h => absurd hname h
  by_cases hp : x.isProcessed name = true
  · rw [enter?_processed hname hp] at hr
    cases hr
    exact told_declared hx rfl (fun h => absurd h hname) fun _ => ⟨rfl, rfl⟩
  by_cases hran : x.visit.ran = true
  · rw [enter?_skipped hname hp hran] at hr
    cases hr
    exact told_declared hx rfl (fun h => absurd h hname) fun _ => ⟨rfl, rfl⟩
  · rw [enter?_new hname hp hran] at hr
    cases hr

/-- A context is entered: its own names are all new. -/
theorem knows_inside (hx : x.Knows seen) {name : String} {site : Location}
    (hy : x.enter? s name site = .inr y) :
    y.Knows (seen ++ [(x.place name).path]) ∧ y.search.fatal = x.search.fatal := by
  obtain ⟨hname, hp, hran⟩ := of_entered hy
  have hpath := (entered_eq hy).1
  rw [enter?_new hname hp hran] at hy
  cases hy
  obtain ⟨_, hs⟩ := x.search.intern_entered (x.place name) site
  have hfatal := congrArg Search.fatal hs
  refine ⟨⟨nofun, fun path hmem n hpre => ?_⟩, hfatal⟩
  rw [hpath] at hpre
  rcases List.mem_append.mp hmem with hmem | hmem
  · -- the name itself would have been declared before
    exact absurd (hx.below path hmem name ((List.prefix_append _ _).trans hpre)) hname
  · rw [List.mem_singleton.mp hmem] at hpre
    have hlength := hpre.length_le
    rw [show (x.place name).path = x.visit.context.path ++ [name] from rfl] at hlength
    simp at hlength

/-- A context that was entered and left. -/
theorem told_leave (hx : x.Knows seen) {name : String} {site : Location}
    (hy : x.enter? s name site = .inr y)
    (h : Told (seen ++ [(x.place name).path]) y hs r) (mark : Nat) :
    Told seen x (.declared (x.place name) :: hs) (leave (x.parentVisit name) name site mark r) := by
  obtain ⟨hname, -, -⟩ := of_entered hy
  have hpath := (entered_eq hy).1
  obtain ⟨-, hfatal⟩ := knows_inside hx hy
  obtain ⟨hc, hn, hf⟩ := leave_keeps (x.parentVisit name) name site mark r
  have hplace : (x.place name).path = x.visit.context.path ++ [name] := rfl
  have hseen : x.visit.context.path ++ [name] ∉ seen := fun h =>
    hname (hx.below _ h name List.prefix_rfl)
  have hnames : ∀ n, n ∈ (leave (x.parentVisit name) name site mark r).state.visit.names ↔
      n = name ∨ n ∈ x.visit.names := fun n => by rw [hn]; exact List.mem_cons
  refine ⟨hc, fun n h => (hnames n).mpr (.inr h), fun n h => ?_, fun path hp => ?_, ?_⟩
  · rcases (hnames n).mp h with rfl | h
    · exact .inr List.mem_cons_self
    · exact .inl h
  · refine ⟨name, ?_, (hnames name).mpr (.inl rfl)⟩
    rcases List.mem_cons.mp hp with rfl | hp
    · exact List.prefix_rfl
    · -- what is declared inside is below the name
      obtain ⟨n, hpre, -⟩ := h.below path hp
      rw [hpath] at hpre
      exact (List.prefix_append _ _).trans hpre
  · rw [hf, h.fatal, hfatal, Mark.collision?, hplace, if_neg hseen]

end Pass

/-- **A visit keeps the first name that is declared twice**, whatever its builders do with the
error. -/
theorem Builder.visit_told {s : PassScope} (b : Builder) : ∀ {x : Pass} {seen : List NamePath},
    x.Knows seen → Pass.Told seen x (b.history s x) (b.visit s x) := by
  induction b with
  | done => intro x seen hx; exact Pass.told_quiet rfl rfl rfl rfl
  | basic b next ih =>
    intro x seen hx
    have hstate := x.state_perform s.scope b
    refine Pass.Told.andThen (Pass.told_quiet ?_ ?_ ?_ ?_) hx fun y hy => ih hy
    · exact congrArg (·.visit.context) hstate
    · exact congrArg (·.visit.names) hstate
    · exact congrArg (·.search.fatal) hstate
    · cases (x.perform s.scope b).structural? <;> rfl
  | branch c yes no next ihy ihn ih =>
    intro x seen hx
    rw [visit, history]
    split
    · exact (ihy hx).andThen hx fun y hy => ih hy
    · exact (ihn hx).andThen hx fun y hy => ih hy
  | autoClose r close next ih =>
    intro x seen hx
    have h := ih (x := x.withCloset (x.closet.autoClose r ⟨close, s.scope⟩)) ⟨hx.declared, hx.below⟩
    exact ⟨h.context, h.keep, h.declared, h.below, h.fatal⟩
  | deferClose close next ih =>
    intro x seen hx
    have h := ih (x := x.withCloset (x.closet.deferClose ⟨close, s.scope⟩)) ⟨hx.declared, hx.below⟩
    exact ⟨h.context, h.keep, h.declared, h.below, h.fatal⟩
  | test name site body swallow next ih =>
    intro x seen hx
    have h := Pass.told_declareTest (s := s) hx name site body
    refine Pass.Told.andThen ?_ hx fun y hy => ih hy
    exact (h.append (Mark.paths_discarding _ swallow)).swallowing swallow
  | context name site inner swallow next ihi ih =>
    intro x seen hx
    rw [visit, history]
    cases henter : x.enter? s name site with
    | inl r =>
      have h := Pass.told_outside hx henter
      refine Pass.Told.andThen ?_ hx fun y hy => ih hy
      exact (h.append (Mark.paths_discarding _ swallow)).swallowing swallow
    | inr y =>
      have h := Pass.told_leave hx henter (ihi (Pass.knows_inside hx henter).1) y.shelf.mark
      refine Pass.Told.andThen ?_ hx fun y hy => ih hy
      exact (h.append (Mark.paths_discarding _ swallow)).swallowing swallow
  | pending name site swallow next ih =>
    intro x seen hx
    have h := Pass.told_declarePending hx name site
    refine Pass.Told.andThen ?_ hx fun y hy => ih hy
    exact (h.append (Mark.paths_discarding _ swallow)).swallowing swallow
  | afterSuite callback next ih =>
    intro x seen hx
    obtain ⟨afterSuite, hy⟩ : ∃ cs, x.declareAfterSuite s callback
        = { x with search := { x.search with afterSuite := cs } } := by
      rw [Pass.declareAfterSuite]
      split
      · exact ⟨_, rfl⟩
      · exact ⟨_, rfl⟩
    rw [visit, history, hy]
    have h := ih (x := { x with search := { x.search with afterSuite } }) ⟨hx.declared, hx.below⟩
    exact ⟨h.context, h.keep, h.declared, h.below, h.fatal⟩
  | logCurrent next ih =>
    intro x seen hx
    have h := ih (x := x.withCloset ⟨x.shelf, x.world.book.say s.scope.root
      ("current " ++ x.visit.context.display)⟩) ⟨hx.declared, hx.below⟩
    exact ⟨h.context, h.keep, h.declared, h.below, h.fatal⟩

/-! ### Errors that are raised -/

namespace Pass

variable {x : Pass} {hs : List Mark} {r : Ran BuildError Pass} {e : StructuralError}

theorem structural?_eq_some : r.structural? = some e ↔ r.ending = .failed (.structural e) := by
  obtain ⟨_ | (_ | _) | _, x⟩ := r <;> simp [Ran.structural?]

/-- An error that was raised and not discarded is what a part of a visit ended with. -/
def Surfaces (hs : List Mark) (r : Ran BuildError Pass) : Prop :=
  (∀ e, .discarded e ∉ hs) → ∀ e, .raised e ∈ hs → r.structural? = some e

/-- A part of a visit that ended with a structural error raised it, or met a name twice. -/
def Explains (hs : List Mark) (r : Ran BuildError Pass) : Prop :=
  ∀ e, r.structural? = some e → .raised e ∈ hs ∨ r.state.search.fatal.isSome = true

theorem andThen_of_structural (h : r.structural? = some e) (next : Pass → Ran BuildError Pass) :
    r.andThen next = r := by
  refine Ran.andThen_of_ne (fun hr => ?_) next
  rw [Ran.structural?, hr] at h
  cases h

theorem Surfaces.andThen (h : Surfaces hs r) {next : Pass → Ran BuildError Pass}
    {rest : Pass → List Mark} (hn : ∀ y, Surfaces (rest y) (next y)) :
    Surfaces (hs ++ r.behind rest) (r.andThen next) := by
  intro hkeep e he
  rcases List.mem_append.mp he with he | he
  · have hr := h (fun e hd => hkeep e (List.mem_append_left _ hd)) e he
    rwa [andThen_of_structural hr]
  · obtain ⟨_ | e' | p, y⟩ := r
    · exact hn y (fun e hd => hkeep e (List.mem_append_right _ hd)) e he
    · cases he
    · cases he

theorem Explains.andThen (h : Explains hs r) {next : Pass → Ran BuildError Pass}
    {rest : Pass → List Mark} (hn : ∀ y, Explains (rest y) (next y)) :
    Explains (hs ++ r.behind rest) (r.andThen next) := by
  intro e he
  obtain ⟨_ | e' | p, y⟩ := r
  · exact (hn y e he).imp_left (List.mem_append_right _)
  · exact (h e he).imp_left (List.mem_append_left _)
  · exact (h e he).imp_left (List.mem_append_left _)

theorem discarding_of_structural (h : r.structural? = some e) :
    .discarded e ∈ r.discarding true := by
  simp [Ran.discarding, h]

theorem raised_not_mem_discarding (b : Bool) : .raised e ∉ r.discarding b := by
  rw [Ran.discarding]
  split
  · cases r.structural? <;> simp
  · exact List.not_mem_nil

/-- A declaration with the history `hs`: its own error is discarded or handed on. -/
theorem Surfaces.declared (h : Surfaces hs r) (place : Place) (b : Bool) :
    Surfaces (.declared place :: (hs ++ r.discarding b)) (r.swallowing b) := by
  intro hkeep e he
  have hraised : .raised e ∈ hs := by
    rcases List.mem_cons.mp he with he | he
    · cases he
    · exact (List.mem_append.mp he).resolve_right (raised_not_mem_discarding b)
  have hr := h (fun e hd => hkeep e (List.mem_cons_of_mem _ (List.mem_append_left _ hd))) e hraised
  cases b with
  | true =>
    refine absurd (List.mem_cons_of_mem _ (List.mem_append_right _ ?_)) (hkeep e)
    exact discarding_of_structural hr
  | false =>
    obtain ⟨_ | e' | p, y⟩ := r <;> exact hr

theorem Explains.declared (h : Explains hs r) (place : Place) (b : Bool) :
    Explains (.declared place :: (hs ++ r.discarding b)) (r.swallowing b) := by
  intro e he
  have hr : r.structural? = some e := by
    obtain ⟨_ | e' | p, y⟩ := r
    · exact he
    · cases b with
      | true => cases he
      | false => exact he
    · exact he
  rw [Ran.state_swallowing]
  exact (h e hr).imp_left fun hm => List.mem_cons_of_mem _ (List.mem_append_left _ hm)

/-- A statement raises the error that it fails with. -/
theorem surfaces_perform (p : Ran BuildError Pass) :
    Surfaces (p.structural?.map Mark.raised).toList p := by
  intro _ e he
  cases hp : p.structural? with
  | none => rw [hp] at he; cases he
  | some e' =>
    rw [hp] at he
    cases List.mem_singleton.mp he
    rfl

theorem explains_perform (p : Ran BuildError Pass) :
    Explains (p.structural?.map Mark.raised).toList p := by
  intro e he
  rw [he]
  exact .inl List.mem_cons_self

theorem surfaces_nil (r : Ran BuildError Pass) : Surfaces [] r :=
  fun _ _ he => absurd he List.not_mem_nil

/-- Whatever a declaration fails with by itself is a name that was met twice. -/
theorem Kept.explains (h : Kept r) : Explains [] r :=
  fun e he => .inr (h (.structural e) (structural?_eq_some.mp he))

/-- A context ends its declaration with the structural error that its builder ended with. -/
theorem structural?_leave (parent : Visit) (name : String) (site : Location) (mark : Nat)
    (r : Ran BuildError Pass) : (leave parent name site mark r).structural? = r.structural? := by
  have hne := fun failure => (leaveFailed_keeps (r.state.within parent)
    name site mark failure).2.2.2
  have hfailed : ∀ failure,
      (leaveFailed name site mark failure (r.state.within parent)).structural? = none := by
    intro failure
    rw [Option.eq_none_iff_forall_ne_some]
    intro e he
    exact hne failure _ (structural?_eq_some.mp he)
  obtain ⟨_ | (e | c) | p, x⟩ := r
  · rfl
  · rfl
  · exact hfailed _
  · exact hfailed _

theorem surfaces_leave (h : Surfaces hs r) (parent : Visit) (name : String) (site : Location)
    (mark : Nat) : Surfaces hs (leave parent name site mark r) := by
  intro hkeep e he
  rw [structural?_leave]
  exact h hkeep e he

theorem explains_leave (h : Explains hs r) (parent : Visit) (name : String) (site : Location)
    (mark : Nat) : Explains hs (leave parent name site mark r) := by
  intro e he
  rw [structural?_leave] at he
  rw [(leave_keeps parent name site mark r).2.2]
  exact h e he

end Pass

/-- **A structural error that is raised and never discarded ends the visit.** -/
theorem Builder.visit_surfaces {s : PassScope} (b : Builder) :
    ∀ x : Pass, Pass.Surfaces (b.history s x) (b.visit s x) := by
  induction b with
  | done => intro x; exact Pass.surfaces_nil _
  | basic b next ih => intro x; exact (Pass.surfaces_perform _).andThen ih
  | branch c yes no next ihy ihn ih =>
    intro x
    rw [visit, history]
    split
    · exact (ihy x).andThen ih
    · exact (ihn x).andThen ih
  | autoClose r close next ih => intro x; exact ih _
  | deferClose close next ih => intro x; exact ih _
  | test name site body swallow next ih =>
    intro x
    exact ((Pass.surfaces_nil _).declared _ swallow).andThen ih
  | context name site inner swallow next ihi ih =>
    intro x
    rw [visit, history]
    cases x.enter? s name site with
    | inl r => exact ((Pass.surfaces_nil r).declared _ swallow).andThen ih
    | inr y => exact ((Pass.surfaces_leave (ihi y) _ name site _).declared _ swallow).andThen ih
  | pending name site swallow next ih =>
    intro x
    exact ((Pass.surfaces_nil _).declared _ swallow).andThen ih
  | afterSuite callback next ih => intro x; exact ih _
  | logCurrent next ih => intro x; exact ih _

/-- **A visit that ends with a structural error raised it, or met a name twice.** -/
theorem Builder.visit_explains {s : PassScope} (b : Builder) :
    ∀ x : Pass, Pass.Explains (b.history s x) (b.visit s x) := by
  induction b with
  | done => intro x; exact nofun
  | basic b next ih => intro x; exact (Pass.explains_perform _).andThen ih
  | branch c yes no next ihy ihn ih =>
    intro x
    rw [visit, history]
    split
    · exact (ihy x).andThen ih
    · exact (ihn x).andThen ih
  | autoClose r close next ih => intro x; exact ih _
  | deferClose close next ih => intro x; exact ih _
  | test name site body swallow next ih =>
    intro x
    exact ((Pass.kept_declareTest x name site body).explains.declared _ swallow).andThen ih
  | context name site inner swallow next ihi ih =>
    intro x
    rw [visit, history]
    cases henter : x.enter? s name site with
    | inl r => exact ((Pass.kept_outside henter).explains.declared _ swallow).andThen ih
    | inr y => exact ((Pass.explains_leave (ihi y) _ name site _).declared _ swallow).andThen ih
  | pending name site swallow next ih =>
    intro x
    exact ((Pass.kept_declarePending x name site).explains.declared _ swallow).andThen ih
  | afterSuite callback next ih => intro x; exact ih _
  | logCurrent next ih => intro x; exact ih _

/-! ### Visits that discard no structural error -/

/-- What is not discarded in a history is not discarded in its parts. -/
theorem undiscarded_append {hs ks : List Mark} (h : ∀ e, .discarded e ∉ hs ++ ks) :
    (∀ e, .discarded e ∉ hs) ∧ ∀ e, .discarded e ∉ ks :=
  ⟨fun e he => h e (List.mem_append_left _ he), fun e he => h e (List.mem_append_right _ he)⟩

theorem undiscarded_cons {m : Mark} {hs : List Mark} (h : ∀ e, .discarded e ∉ m :: hs) (e) :
    .discarded e ∉ hs :=
  fun he => h e (List.mem_cons_of_mem _ he)

namespace Pass

variable {s : PassScope} {x : Pass} {r : Ran BuildError Pass}

/-- No ordinary error ends the declaration of a test. -/
theorem ending_declareTest (x : Pass) (name : String) (site : Location) (body : Body) (c : Cause) :
    (x.declareTest s name site body).ending ≠ .failed (.failed c) := by
  by_cases hname : name ∈ x.visit.names
  · rw [declareTest_taken hname]
    exact nofun
  by_cases hp : x.isProcessed name = true
  · rw [declareTest_processed hname hp]
    exact nofun
  by_cases hran : x.visit.ran = true
  · rw [declareTest_replayed hname hp hran]
    exact nofun
  · rw [declareTest_direct hname hp hran]
    exact nofun

theorem ending_declarePending (x : Pass) (name : String) (site : Location) (c : Cause) :
    (x.declarePending name site).ending ≠ .failed (.failed c) := by
  by_cases hname : name ∈ x.visit.names
  · rw [declarePending_taken hname]
    exact nofun
  by_cases hp : x.isProcessed name = true
  · rw [declarePending_processed hname hp]
    exact nofun
  · rw [declarePending_new hname hp]
    exact (complete_keeps _ _).2.2.2 _

theorem ending_outside {name : String} {site : Location} (hr : x.enter? s name site = .inl r)
    (c : Cause) : r.ending ≠ .failed (.failed c) := by
  rcases outside_cases hr with ⟨_, rfl⟩ | ⟨he, -⟩
  · exact nofun
  · rw [he]
    exact nofun

/-- No ordinary error leaves a context. -/
theorem ending_leave (parent : Visit) (name : String) (site : Location) (mark : Nat)
    (r : Ran BuildError Pass) (c : Cause) :
    (leave parent name site mark r).ending ≠ .failed (.failed c) := by
  have hfailed := fun failure => (leaveFailed_keeps (r.state.within parent)
    name site mark failure).2.2.2 (.failed c)
  obtain ⟨_ | (e | c) | p, x⟩ := r
  · exact nofun
  · exact nofun
  · exact hfailed _
  · exact hfailed _

/-- A declaration whose error is not discarded, and that fails in no other way. -/
theorem swallowing_eq {b : Bool} (hk : ∀ e, .discarded e ∉ r.discarding b)
    (hne : ∀ c, r.ending ≠ .failed (.failed c)) : r.swallowing b = r := by
  obtain ⟨_ | (e | c) | p, y⟩ := r
  · rfl
  · cases b with
    | false => rfl
    | true => exact absurd (discarding_of_structural rfl) (hk e)
  · exact absurd rfl (hne c)
  · rfl

end Pass

/-- A property of the ends of parts of a visit that every step keeps. -/
structure VisitProperty (s : PassScope) (P : Ran BuildError Pass → Prop) : Prop where
  perform : ∀ {x} b, P ⟨.finished, x⟩ → P (x.perform s.scope b)
  register : ∀ {x} label res close, P ⟨.finished, x⟩ →
    P ⟨.finished, x.withCloset (x.closet.register label res close)⟩
  say : ∀ {x} line, P ⟨.finished, x⟩ →
    P ⟨.finished, { x with world := { x.world with book := x.world.book.say s.scope.root line } }⟩
  declareTest : ∀ {x} name site body, P ⟨.finished, x⟩ → P (x.declareTest s name site body)
  declarePending : ∀ {x} name site, P ⟨.finished, x⟩ → P (x.declarePending name site)
  declareAfterSuite : ∀ {x} callback, P ⟨.finished, x⟩ →
    P ⟨.finished, x.declareAfterSuite s callback⟩
  outside : ∀ {x name site r}, x.enter? s name site = .inl r → P ⟨.finished, x⟩ → P r
  inside : ∀ {x name site y}, x.enter? s name site = .inr y → P ⟨.finished, x⟩ → P ⟨.finished, y⟩
  leave : ∀ {r} parent name site mark, P r → P (Pass.leave parent name site mark r)

/-- The rest of a visit is run behind a part that finished. -/
theorem VisitProperty.andThen {P : Ran BuildError Pass → Prop} {r : Ran BuildError Pass} (h : P r)
    {next : Pass → Ran BuildError Pass} {rest : Pass → List Mark}
    (hk : ∀ e, .discarded e ∉ r.behind rest)
    (hn : ∀ {x}, P ⟨.finished, x⟩ → (∀ e, .discarded e ∉ rest x) → P (next x)) :
    P (r.andThen next) := by
  by_cases hr : r.ending = .finished
  · obtain ⟨_, x⟩ := r
    cases hr
    exact hn h hk
  · rwa [Ran.andThen_of_ne hr]

/-- **What every step of a visit keeps, a visit that discards no structural error keeps.** -/
theorem Builder.visit_property {s : PassScope} {P : Ran BuildError Pass → Prop}
    (H : VisitProperty s P) (b : Builder) : ∀ {x}, P ⟨.finished, x⟩ →
      (∀ e, .discarded e ∉ b.history s x) → P (b.visit s x) := by
  induction b with
  | done => intro x h _; exact h
  | basic b next ih =>
    intro x h hk
    exact VisitProperty.andThen (H.perform b h) (undiscarded_append hk).2 ih
  | branch c yes no next ihy ihn ih =>
    intro x h hk
    rw [visit]
    rw [history] at hk
    split at hk <;> rename_i hc
    · rw [if_pos hc]
      exact VisitProperty.andThen (ihy h (undiscarded_append hk).1) (undiscarded_append hk).2 ih
    · rw [if_neg hc]
      exact VisitProperty.andThen (ihn h (undiscarded_append hk).1) (undiscarded_append hk).2 ih
  | autoClose res close next ih => intro x h hk; exact ih (H.register _ _ _ h) hk
  | deferClose close next ih => intro x h hk; exact ih (H.register _ _ _ h) hk
  | test name site body swallow next ih =>
    intro x h hk
    obtain ⟨hd, hrest⟩ := undiscarded_append hk
    have heq := Pass.swallowing_eq (undiscarded_cons hd) (x.ending_declareTest name site body)
    rw [heq] at hrest
    rw [visit, heq]
    exact VisitProperty.andThen (H.declareTest name site body h) hrest ih
  | context name site inner swallow next ihi ih =>
    intro x h hk
    rw [visit]
    rw [history] at hk
    cases henter : x.enter? s name site with
    | inl r =>
      rw [henter] at hk
      obtain ⟨hd, hrest⟩ := undiscarded_append hk
      have heq := Pass.swallowing_eq (undiscarded_cons hd) (Pass.ending_outside henter)
      rw [heq] at hrest
      dsimp only
      rw [heq]
      exact VisitProperty.andThen (H.outside henter h) hrest ih
    | inr y =>
      rw [henter] at hk
      obtain ⟨hd, hrest⟩ := undiscarded_append hk
      obtain ⟨hin, hd⟩ := undiscarded_append (undiscarded_cons hd)
      have heq := Pass.swallowing_eq hd (Pass.ending_leave _ _ _ _ _)
      rw [heq] at hrest
      dsimp only
      rw [heq]
      exact VisitProperty.andThen (H.leave _ _ _ _ (ihi (H.inside henter h) hin)) hrest ih
  | pending name site swallow next ih =>
    intro x h hk
    obtain ⟨hd, hrest⟩ := undiscarded_append hk
    have heq := Pass.swallowing_eq (undiscarded_cons hd) (x.ending_declarePending name site)
    rw [heq] at hrest
    rw [visit, heq]
    exact VisitProperty.andThen (H.declarePending name site h) hrest ih
  | afterSuite callback next ih => intro x h hk; exact ih (H.declareAfterSuite callback h) hk
  | logCurrent next ih => intro x h hk; exact ih (H.say _ h) hk

/-! ### Passes -/

namespace RootContext

variable {r : RootContext} {w₀ w : World} {search : Search}

/-- Nothing is declared when a pass begins. -/
theorem knows_opened (r : RootContext) (search : Search) (w : World) :
    (r.opened search w).Knows [] :=
  ⟨fun _ hn => absurd hn List.not_mem_nil, fun _ hp => absurd hp List.not_mem_nil⟩

/-- A pass keeps the first name that is declared twice in it. -/
theorem fatal_runPass (r : RootContext) (search : Search) (w : World) :
    (r.runPass search w).search.fatal
      = search.fatal.or (Mark.collision? [] (r.marks search w)) :=
  (r.builder.visit_told (r.knows_opened search w)).fatal

/-- **The error that a pass ends discovery with: the first name that is declared twice, or what the
builder of the root ends with.** -/
theorem fatal?_runPass (hs : search.fatal = none) : fatal? (r.runPass search w)
    = (Mark.collision? [] (r.marks search w)).or
      (Ran.structural? ⟨(r.runPass search w).ending, ()⟩) := by
  rw [fatal?, fatal_runPass, hs, Option.none_or]
  cases Mark.collision? [] (r.marks search w) with
  | some e => rfl
  | none => rcases (r.runPass search w).ending with _ | (_ | _) | _ <;> rfl

/-- A pass of a discovery that ends with a structural error is its last one. -/
theorem errs_of_fatal (hw : w₀.listener.Calm) {n : Nat} (h : r.Begins w₀ n search w)
    {e : StructuralError} (hf : fatal? (r.runPass search w) = some e) :
    (r.discover w₀).1 = .ok (.error e) := by
  obtain ⟨hadds, hdirect, -⟩ := h.adds
  obtain ⟨_, -, hpass, -⟩ := r.runPass_adds search w hdirect
  rw [discover_aborts h hf]
  refine abort_calm _ _ ?_
  rw [hpass.listener, hadds.listener]
  exact hw

/-- **A name that is declared twice in one pass ends discovery with an error, and so does a
structural error that is raised in a pass that discards none.** -/
theorem structural_errors_end (hw : w₀.listener.Calm) {n : Nat} (h : r.Begins w₀ n search w)
    (hm : ¬ (Mark.paths (r.marks search w)).Nodup ∨
      (∃ e, .raised e ∈ r.marks search w) ∧ ∀ e, .discarded e ∉ r.marks search w) :
    ∃ e, (r.discover w₀).1 = .ok (.error e) := by
  obtain ⟨-, -, hfatal⟩ := h.adds
  have hf := fatal?_runPass (r := r) (w := w) hfatal
  cases hc : Mark.collision? [] (r.marks search w) with
  | some e =>
    rw [hc] at hf
    exact ⟨e, errs_of_fatal hw h hf⟩
  | none =>
    rw [hc, Option.none_or] at hf
    rcases hm with hm | ⟨⟨e, he⟩, hkeep⟩
    · exact absurd (Mark.collision?_eq_none.mp hc).1 hm
    · have hend := r.builder.visit_surfaces _ hkeep e he
      exact ⟨e, errs_of_fatal hw h (hf.trans hend)⟩

end RootContext

/-! ### Two roots that discard errors -/

/-- A root whose context declares a name twice, discards the error, and fails in an ordinary way. -/
def repeatingRoot : RootContext :=
  ⟨0, "root", false, .site 0,
    .context "c" (.site 1)
      (.test "x" (.site 2) .done false <| .pending "x" (.site 3) true <|
        .basic (.fail ⟨.text "no", .sorted⟩) .done)
      false .done⟩

/-- The name that is declared twice is not lost. -/
theorem structural_errors_end_repeatingRoot :
    ∃ e, (repeatingRoot.discover (.fresh (.held 1) .silent .lazy)).1 = .ok (.error e) := by
  have hmarks : Mark.paths (repeatingRoot.marks {} (.fresh (.held 1) .silent .lazy))
      = [["root", "c"], ["root", "c", "x"], ["root", "c", "x"]] := rfl
  refine RootContext.structural_errors_end (fun _ => rfl) .first (.inl ?_)
  rw [hmarks]
  decide

/-- A root that discards the structural error of the builder of its context. -/
def discardingRoot : RootContext :=
  ⟨0, "root", false, .site 0,
    .context "c" (.site 1) (.basic (.fail ⟨.ofStructural .emptySuite, .sorted⟩) .done) true .done⟩

/-- **A structural error that a builder discards is lost, unless it is a repeated name**: discovery
gives a result, as if nothing had happened. -/
theorem discardingRoot_loses :
    .raised .emptySuite ∈ discardingRoot.marks {} (.fresh (.held 1) .silent .lazy) ∧
      ∃ d, (discardingRoot.discover (.fresh (.held 1) .silent .lazy)).1 = .ok (.ok d) ∧
        d.tests = [] := by
  have hmarks : discardingRoot.marks {} (.fresh (.held 1) .silent .lazy)
      = [.declared ⟨discardingRoot.context, "c"⟩, .raised .emptySuite, .discarded .emptySuite] :=
        rfl
  refine ⟨?_, _, rfl, rfl⟩
  rw [hmarks]
  exact List.mem_cons_of_mem _ List.mem_cons_self

end TestTree

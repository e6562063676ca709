/-
Contexts that fail, and what becomes of them.

* `Builder.Comes` : the visit of a builder comes to a part of it;
* `Builder.Comes.rel` : what every step of a visit keeps holds up to that part, and from there on;
* `Pass.KeepsShut` : no visit enters a context whose name was processed;
* `RootContext.Begins.shut`, `RootContext.Begins.kept` : what holds behind a part of a pass, in later
  passes and in the result;
* `RootContext.failed_context_once` : **a context that fails is failed once and for all.**

## Design notes

The failure may come in any pass, at any depth and behind anything that the builders did before.  So
the statement is about the declaration that the visit has come to, and about the moment behind it:
whatever is true of all later moments is a relation that every step keeps.
-/
import TestTree.Proofs.Entrances
import TestTree.Proofs.Identity
import TestTree.Proofs.PlanVisit

namespace TestTree

/-! ### Parts of a visit -/

/-- The first statement of a builder, alone. -/
def Builder.alone : Builder → Builder
  | done => done
  | basic b _ => basic b done
  | branch c yes no _ => branch c yes no done
  | autoClose r close _ => autoClose r close done
  | deferClose close _ => deferClose close done
  | test name site body swallow _ => test name site body swallow done
  | context name site inner swallow _ => context name site inner swallow done
  | pending name site swallow _ => pending name site swallow done
  | afterSuite callback _ => afterSuite callback done
  | logCurrent _ => logCurrent done

/-- The statements behind the first one. -/
def Builder.tail : Builder → Builder
  | done => done
  | basic _ next => next
  | branch _ _ _ next => next
  | autoClose _ _ next => next
  | deferClose _ next => next
  | test _ _ _ _ next => next
  | context _ _ _ _ next => next
  | pending _ _ _ next => next
  | afterSuite _ next => next
  | logCurrent next => next

/-- The visit of the builder `b` from `x` comes to the rest `c` of it, or of a builder inside, in the
state `z`. -/
inductive Builder.Comes (s : PassScope) : Builder → Pass → Builder → Pass → Prop
  | here {b : Builder} {x : Pass} : Comes s b x b x
  | behind {b c : Builder} {x y z : Pass} (hb : b.alone.visit s x = ⟨.finished, y⟩)
      (h : Comes s b.tail y c z) : Comes s b x c z
  | yes {cond : Condition} {yes no next c : Builder} {x z : Pass}
      (hc : x.world.book.holds s.scope cond = true) (h : Comes s yes x c z) :
      Comes s (.branch cond yes no next) x c z
  | no {cond : Condition} {yes no next c : Builder} {x z : Pass}
      (hc : ¬ x.world.book.holds s.scope cond = true) (h : Comes s no x c z) :
      Comes s (.branch cond yes no next) x c z
  | inside {name : String} {site : Location} {inner next c : Builder} {swallow : Bool}
      {x y z : Pass} (hy : x.enter? s name site = .inr y) (h : Comes s inner y c z) :
      Comes s (.context name site inner swallow next) x c z

theorem Ran.andThen_done (s : PassScope) (r : Ran BuildError Pass) :
    r.andThen (Builder.done.visit s) = r := by
  rcases r with ⟨_ | e | p, x⟩ <;> rfl

/-- Behind a part of a script that finished comes the rest; nothing comes behind one that did not. -/
theorem Ran.rel_andThen {ε σ : Type} (Rel : σ → σ → Prop) (refl : ∀ x, Rel x x)
    (r : Ran ε σ) {next : σ → Ran ε σ} (hn : ∀ y, Rel y (next y).state) :
    Rel r.state (r.andThen next).state := by
  rcases r with ⟨_ | e | p, y⟩
  · exact hn y
  · exact refl y
  · exact refl y

namespace Builder

variable {s : PassScope} {b c d : Builder} {x y z : Pass}

/-- A builder is its first statement and what is behind it. -/
theorem visit_eq (b : Builder) (x : Pass) :
    b.visit s x = (b.alone.visit s x).andThen (b.tail.visit s) := by
  cases b with
  | done => rfl
  | basic b next => rw [alone, tail, visit, visit, Ran.andThen_done]
  | branch c yes no next => rw [alone, tail, visit, visit, Ran.andThen_done]
  | autoClose r close next => rfl
  | deferClose close next => rfl
  | test name site body swallow next => rw [alone, tail, visit, visit, Ran.andThen_done]
  | context name site inner swallow next => rw [alone, tail, visit, visit, Ran.andThen_done]
  | pending name site swallow next => rw [alone, tail, visit, visit, Ran.andThen_done]
  | afterSuite callback next => rfl
  | logCurrent next => rfl

theorem Comes.trans (h : b.Comes s x c y) (k : c.Comes s y d z) : b.Comes s x d z := by
  induction h with
  | here => exact k
  | behind hb _ ih => exact .behind hb (ih k)
  | yes hc _ ih => exact .yes hc (ih k)
  | no hc _ ih => exact .no hc (ih k)
  | inside hy _ ih => exact .inside hy (ih k)

/-- **What every step of a visit keeps holds up to each part of it, and from there on.** -/
theorem Comes.rel {Rel : Pass → Pass → Prop} (H : VisitRelation s Rel) (h : b.Comes s x c z) :
    Rel x z ∧ Rel (c.visit s z).state (b.visit s x).state := by
  induction h with
  | here => exact ⟨H.refl _, H.refl _⟩
  | @behind b c x y z hb _ ih =>
    have hfirst := b.alone.visit_rel H x
    rw [hb] at hfirst
    rw [b.visit_eq x, hb, Ran.andThen_finished]
    exact ⟨H.trans hfirst ih.1, ih.2⟩
  | yes hc _ ih =>
    rw [visit, if_pos hc]
    exact ⟨ih.1, H.trans ih.2 (Ran.rel_andThen Rel H.refl _ (Builder.visit_rel H _))⟩
  | no hc _ ih =>
    rw [visit, if_neg hc]
    exact ⟨ih.1, H.trans ih.2 (Ran.rel_andThen Rel H.refl _ (Builder.visit_rel H _))⟩
  | @inside name site inner next c swallow x y z hy _ ih =>
    rw [visit, hy]
    refine ⟨H.trans (H.enter hy) ih.1, H.trans ih.2 (H.trans ?_
      (Ran.rel_andThen Rel H.refl _ (Builder.visit_rel H next)))⟩
    rw [Ran.state_swallowing]
    exact H.leave _ _ _ _ _

theorem Comes.onward {Rel : Pass → Pass → Prop} (H : VisitRelation s Rel) (h : b.Comes s x c z) :
    Rel z (b.visit s x).state :=
  H.trans (c.visit_rel H z) (h.rel H).2

/-- A visit that has entered a context and left it goes on behind it. -/
theorem Comes.next {name : String} {site : Location} {inner next : Builder} {swallow : Bool}
    {p : Pass} (h : b.Comes s x (.context name site inner swallow next) p)
    (hy : p.enter? s name site = .inr y)
    (hz : Pass.leave (p.parentVisit name) name site y.shelf.mark (inner.visit s y)
      = ⟨.finished, z⟩) : b.Comes s x next z := by
  refine h.trans (.behind ?_ .here)
  rw [alone, visit, hy]
  dsimp only
  rw [hz]
  rfl

end Builder

/-! ### Names that were processed -/

namespace Pass

variable {s : PassScope} {x y z : Pass}

/-- What was processed stays so, and contexts of such names are not entered. -/
structure KeepsShut (s : PassScope) (x y : Pass) : Prop where
  processed : x.search.processed ⊆ y.search.processed
  entrances : ∀ path ∈ x.search.processed, y.world.book.entrances.count (s.root.index, path)
    = x.world.book.entrances.count (s.root.index, path)

theorem KeepsShut.trans (h : x.KeepsShut s y) (k : y.KeepsShut s z) : x.KeepsShut s z where
  processed := List.Subset.trans h.processed k.processed
  entrances path hp := (k.entrances path (h.processed hp)).trans (h.entrances path hp)

/-- A step that enters nothing. -/
theorem keepsShut_of_eq (hp : x.search.processed ⊆ y.search.processed)
    (he : y.world.book.entrances = x.world.book.entrances) : x.KeepsShut s y :=
  ⟨hp, fun _ _ => by rw [he]⟩

theorem Files.processed (h : x.Files y) : x.search.processed ⊆ y.search.processed := by
  obtain ⟨new, hnew, -⟩ := h.inside
  rw [hnew]
  exact List.subset_append_left _ _

theorem processed_leaveFailed (x : Pass) (name : String) (site : Location) (mark : Nat)
    (failure : Failure) :
    x.search.processed ⊆ (leaveFailed name site mark failure x).state.search.processed := by
  have hfails : ∀ (y : Pass) f, y.search.processed ⊆ (y.fails name site f).state.search.processed := by
    intro y f
    rw [fails]
    rcases y.complete_cases ⟨⟨y.visit.context, name, site⟩, .failed f⟩ with ⟨p, w, hc⟩ | ⟨w, hc, -⟩
    · rw [hc]
      exact List.Subset.refl _
    · rw [hc]
      exact List.subset_append_left _ _
  by_cases hd : x.search.direct.isSome = true
  · rw [leaveFailed_owned hd]
    exact hfails x _
  · rw [leaveFailed_swept hd]
    exact hfails (x.swept mark) _

theorem keepsShut_visitRelation (s : PassScope) : VisitRelation s (KeepsShut s) where
  refl x := keepsShut_of_eq (List.Subset.refl _) rfl
  trans := KeepsShut.trans
  visit x v := keepsShut_of_eq (List.Subset.refl _) rfl
  perform x b := by
    refine keepsShut_of_eq ?_ (entrances_perform x s.scope b)
    rw [state_perform]
    exact List.Subset.refl _
  register x label res close :=
    keepsShut_of_eq (List.Subset.refl _) (Notebook.entrances_add x.world.book _)
  claim x name := by
    rw [claim]
    split
    · exact keepsShut_of_eq (List.Subset.refl _) rfl
    · exact keepsShut_of_eq (List.Subset.refl _) rfl
  declareTest x name site body :=
    keepsShut_of_eq (files_declareTest (s := s) x name site body).processed
      (entrances_declareTest x name site body)
  declarePending x name site :=
    keepsShut_of_eq (files_declarePending x name site).processed
      (entrances_declarePending x name site)
  declareAfterSuite x callback := by
    refine keepsShut_of_eq ?_ (by rw [world_declareAfterSuite])
    rw [declareAfterSuite]
    split <;> exact List.Subset.refl _
  say x line := keepsShut_of_eq (List.Subset.refl _) (Notebook.entrances_add x.world.book _)
  enter := by
    intro x name site y hy
    obtain ⟨-, hn, -⟩ := of_entered hy
    obtain ⟨hp, -⟩ := search_entered hy
    refine ⟨by rw [hp]; exact List.Subset.refl _, fun path hpath => ?_⟩
    rw [entrances_enter hy, List.count_cons_of_ne]
    intro heq
    cases heq
    exact hn (isProcessed_iff.mpr hpath)
  leaveFinished x name v := by
    refine keepsShut_of_eq ?_ (by rw [world_leaveFinished])
    rw [processed_leaveFinished]
    exact List.subset_append_left _ _
  leaveFailed x name site mark failure :=
    keepsShut_of_eq (processed_leaveFailed x name site mark failure)
      (entrances_leaveFailed x name site mark failure)

theorem leave_eq_leaveFailed (parent : Visit) (name : String) (site : Location) (mark : Nat)
    {r : Ran BuildError Pass} {c : Cause}
    (hr : r.ending = .failed (.failed c) ∨ ∃ p : Payload, r.ending = .panicked p ∧ p.toCause = c) :
    leave parent name site mark r
      = leaveFailed name site mark (.ofCause .contextBuild c) (r.state.within parent) := by
  rw [leave]
  rcases hr with hr | ⟨p, hr, rfl⟩
  · rw [hr]
    rfl
  · rw [hr]
    rfl

/-- **A context that fails is listed as a failed test of the context around it**, whose builder goes on
as if nothing had happened. -/
theorem leave_failing (parent : Visit) (name : String) (site : Location) (mark : Nat)
    {r : Ran BuildError Pass} {c : Cause}
    (hr : r.ending = .failed (.failed c) ∨ ∃ p : Payload, r.ending = .panicked p ∧ p.toCause = c)
    (hw : r.state.world.listener.Calm) :
    ∃ notes z, leave parent name site mark r = ⟨.finished, z⟩ ∧
      (r.state.within parent).Fails name
        ⟨⟨parent.context, name, site⟩, .failed ⟨.contextBuild, c, notes⟩⟩ z := by
  obtain ⟨notes, z, hz, hf⟩ := (r.state.within parent).leaveFailed_calm name site (fun f => hw _)
    mark (.ofCause .contextBuild c)
  exact ⟨notes, z, (leave_eq_leaveFailed parent name site mark hr).trans hz, hf⟩

end Pass

/-! ### Later passes -/

/-- The one of several handles with different descriptions that has a given one. -/
theorem filter_of_nodup {hs : List Handle} (hn : (hs.map (·.test.path)).Nodup) {k : Handle}
    (hk : k ∈ hs) : hs.filter (fun h => h.test == k.test) = [k] := by
  induction hs with
  | nil => cases hk
  | cons h rest ih =>
    rw [List.map_cons, List.nodup_cons] at hn
    obtain ⟨hh, hrest⟩ := hn
    rcases List.mem_cons.mp hk with rfl | hk
    · have hnone : rest.filter (fun j => j.test == k.test) = [] := by
        refine List.filter_eq_nil_iff.mpr fun j hj hsame => hh ?_
        rw [← Description.same_iff.mp hsame]
        exact List.mem_map_of_mem hj
      have hself : (k.test == k.test) = true := Description.same_iff.mpr rfl
      rw [List.filter_cons_of_pos (by simpa using hself), hnone]
    · rw [List.filter_cons_of_neg, ih hrest hk]
      intro hsame
      refine hh ?_
      rw [Description.same_iff.mp hsame]
      exact List.mem_map_of_mem hk

namespace RootContext

variable {r : RootContext} {w₀ w v : World} {search : Search} {n : Nat} {path : NamePath}

/-- No pass enters a context whose name was processed before. -/
theorem keepsShut_runPass (hpath : path ∈ search.processed) (hroot : path ≠ r.context.path) :
    path ∈ (r.runPass search w).search.processed ∧
      (r.runPass search w).world.book.entrances.count (r.index, path)
        = w.book.entrances.count (r.index, path) := by
  have h := r.builder.visit_rel (Pass.keepsShut_visitRelation (r.openedScope w)) (r.opened search w)
  refine ⟨h.processed hpath, (h.entrances path hpath).trans ?_⟩
  rw [entrances_opened, List.count_cons_of_ne]
  · rfl
  · intro heq
    cases heq
    exact hroot rfl

/-- A name that a pass has processed is known to all later ones. -/
theorem Begins.processed {m : Nat} {t : Search} {u : World} (k : r.Begins w₀ m t u)
    (h : r.Begins w₀ n search w) (hlt : n < m) (hpath : path ∈ (r.runPass search w).search.processed)
    (hroot : path ≠ r.context.path) : path ∈ t.processed := by
  induction k with
  | first => exact absurd hlt (Nat.not_lt_zero _)
  | @next m t u k _ _ _ ih =>
    rcases Nat.lt_succ_iff_lt_or_eq.mp hlt with hlt | rfl
    · exact (keepsShut_runPass (ih hlt) hroot).1
    · obtain ⟨rfl, rfl⟩ := h.unique k
      exact hpath

/-- Later passes change no cell that there was at the end of an earlier one. -/
theorem Begins.cells_isPrefix (h : r.Begins w₀ n search w) : ∀ {m t u}, r.Begins w₀ m t u → m ≤ n →
    (r.runPass t u).world.cells <+: (r.runPass search w).world.cells := by
  induction h with
  | first =>
    intro m t u k hm
    obtain rfl := Nat.le_zero.mp hm
    obtain ⟨rfl, rfl⟩ := Begins.first.unique k
    exact List.prefix_rfl
  | @next n search w h hf he hl ih =>
    intro m t u k hm
    have hnext := h.next hf he hl
    rcases Nat.lt_or_eq_of_le hm with hlt | rfl
    · obtain ⟨_, -, hadds, -⟩ := r.runPass_adds (r.handOn (r.runPass search w))
        (r.behind (r.runPass search w)) hnext.adds.2.1
      have hcells := hadds.cells
      rw [cells_behind] at hcells
      exact (ih k (Nat.le_of_lt_succ hlt)).trans hcells
    · obtain ⟨rfl, rfl⟩ := hnext.unique k
      exact List.prefix_rfl

/-- No pass begins behind the one that a discovery ends with. -/
theorem Ends.le {m : Nat} {t : Search} {u : World}
    {a : Except Payload (Except StructuralError Discovery) × World}
    (hend : r.Ends (n + 1) (r.runPass search w) a) (h : r.Begins w₀ n search w)
    (k : r.Begins w₀ m t u) : m ≤ n := by
  induction k with
  | first => exact Nat.zero_le n
  | next k hf he hl ih =>
    rcases Nat.lt_or_eq_of_le ih with hlt | rfl
    · exact hlt
    · obtain ⟨rfl, rfl⟩ := h.unique k
      cases hend with
      | aborted hf' => rw [hf] at hf'; cases hf'
      | failedDirect _ he' _ => rw [he] at he'; cases he'
      | failedSwept _ he' _ => rw [he] at he'; cases he'
      | finished _ _ hl' => rw [hl] at hl'; cases hl'

/-- A context that is found is not listed as a failed test. -/
theorem ResultOf.notMem_contexts {e : PassEnd} {d : Discovery} (h : r.ResultOf e d v)
    (hf : e.search.Filed) {k : Handle} (hk : k ∈ e.search.tests)
    (hroot : k.test.path ≠ r.context.path) : ∀ c ∈ d.contexts, c.path ≠ k.test.path := by
  intro c hc hpath
  rw [h.contexts] at hc
  rcases List.mem_cons.mp hc with rfl | hc
  · exact hroot hpath.symm
  · obtain ⟨-, hfound⟩ := List.mem_filter.mp (List.mem_mergeSort.mp hc)
    obtain ⟨f, hf', hfc⟩ := List.any_eq_true.mp hfound
    have hmem : k.test.path ∈ e.search.found.map Context.path := by
      rw [← hpath, ← beq_iff_eq.mp hfc]
      exact List.mem_map_of_mem hf'
    exact (List.nodup_append.mp hf.nodup).2.2 _ (List.mem_map_of_mem hk) _ hmem rfl

/-- Where the visit of the root's builder has come to, handles have been made for all that is
listed. -/
theorem Begins.adds_of_grows {x : Pass} (h : r.Begins w₀ n search w)
    (hg : (r.opened search w).Grows x) : w₀.Adds x.world x.search.tests := by
  obtain ⟨hs, hgrows⟩ := hg
  have hopened : w.Adds (r.opened search w).world [] := World.adds_book rfl
  have hadds := h.adds.1.trans (hopened.trans hgrows.makes.toAdds)
  rw [hgrows.tests]
  exact hadds

/-- No context inside another one has the path of the root. -/
theorem path_child_ne (r : RootContext) (c : Context) (name : String) :
    c.path ++ [name] ≠ r.context.path := by
  intro heq
  obtain ⟨hnil, -⟩ := append_singleton_inj.mp (heq.trans (List.nil_append [r.name]).symm)
  exact c.path_ne_nil hnil

/-- A discovery that gives a result does so behind a pass that no other one follows. -/
theorem Begins.result (h : r.Begins w₀ n search w) {d : Discovery} {u : World}
    (hd : r.discover w₀ = (.ok (.ok d), u)) :
    ∃ m t v, r.Begins w₀ m t v ∧ n ≤ m ∧ r.ResultOf (r.runPass t v) d u := by
  obtain ⟨m, t, v, hm, hends⟩ := r.discover_ends w₀
  exact ⟨m, t, v, hm, hends.le hm h, hends.resultOf hd⟩

/-! ### Behind a part of a pass -/

section Onward

variable {rest : Builder} {z : Pass} {d : Discovery} {u : World}

/-- What is listed where a pass has come to is listed at its end, and by every later pass. -/
theorem Begins.lists (h : r.Begins w₀ n search w)
    (hz : r.builder.Comes (r.openedScope w) (r.opened search w) rest z) {m : Nat} {t : Search}
    (k : r.Begins w₀ m t u) (hm : n ≤ m) : z.search.tests ⊆ (r.runPass t u).search.tests := by
  obtain ⟨more, hmore⟩ := hz.onward (Pass.grows_visitRelation (r.openedScope w))
  intro j hj
  refine (k.tests_isPrefix h hm).subset ?_
  rw [show (r.runPass search w).search.tests = _ from hmore.tests]
  exact List.mem_append_left _ hj

/-- A context whose name is processed where a pass has come to is not entered any more. -/
theorem Begins.shut (h : r.Begins w₀ n search w)
    (hz : r.builder.Comes (r.openedScope w) (r.opened search w) rest z)
    (hpath : path ∈ z.search.processed) (hroot : path ≠ r.context.path) :
    (r.runPass search w).world.book.entrances.count (r.index, path)
        = z.world.book.entrances.count (r.index, path) ∧
      ∀ m t u, r.Begins w₀ m t u → n < m →
        (r.runPass t u).world.book.entrances.count (r.index, path)
          = u.book.entrances.count (r.index, path) := by
  have hlater := hz.onward (Pass.keepsShut_visitRelation (r.openedScope w))
  exact ⟨hlater.entrances path hpath, fun m t u hm hlt =>
    (keepsShut_runPass (hm.processed h hlt (hlater.processed hpath) hroot) hroot).2⟩

/-- **A result loses nothing** of what was listed where a pass had come to, nor of what was in the
cells then. -/
theorem Begins.kept (h : r.Begins w₀ n search w)
    (hz : r.builder.Comes (r.openedScope w) (r.opened search w) rest z)
    (hd : r.discover w₀ = (.ok (.ok d), u)) :
    z.search.tests ⊆ d.tests ∧ z.world.cells <+: u.cells := by
  obtain ⟨m, t, v, hm, hle, hresult⟩ := h.result hd
  obtain ⟨own, hown, -⟩ := hresult.tests
  obtain ⟨more, hmore⟩ := hz.onward (Pass.grows_visitRelation (r.openedScope w))
  refine ⟨fun j hj => ?_, hmore.makes.cells.trans ((hm.cells_isPrefix h hle).trans hresult.cells)⟩
  rw [hown]
  exact List.mem_append_left _ (h.lists hz hm hle hj)

/-- A result has no context under the name of what was listed. -/
theorem Begins.notMem_contexts (h : r.Begins w₀ n search w)
    (hz : r.builder.Comes (r.openedScope w) (r.opened search w) rest z)
    (hd : r.discover w₀ = (.ok (.ok d), u)) {k : Handle} (hk : k ∈ z.search.tests)
    (hroot : k.test.path ≠ r.context.path) : ∀ c ∈ d.contexts, c.path ≠ k.test.path := by
  obtain ⟨m, t, v, hm, hle, hresult⟩ := h.result hd
  exact hresult.notMem_contexts (filed_runPass hm.filed) (h.lists hz hm hle hk) hroot

/-- Discovery cancels nothing that it gives a result with: every cell that it made holds a unit that
waits, or an outcome. -/
theorem Begins.not_cancelled (hw : w₀.listener.Calm) (h : r.Begins w₀ n search w)
    (hz : r.builder.Comes (r.openedScope w) (r.opened search w) rest z)
    (hd : r.discover w₀ = (.ok (.ok d), u)) {j : Handle} (hj : j ∈ z.search.tests) :
    u.cell j.cell ≠ .cancelled := by
  obtain ⟨m, t, v, hm, hle, hresult⟩ := h.result hd
  obtain ⟨-, es, hcollects⟩ := hm.collects hw
  obtain ⟨s', hdealt⟩ := hcollects.dealt j (h.lists hz hm hle hj)
  have hlt := (hcollects.toAdds.lt (h.lists hz hm hle hj)).2
  rw [World.cell_of_isPrefix hresult.cells hlt]
  generalize (r.runPass t v).world.cell j.cell = content at hdealt
  cases hdealt with
  | given _ => rintro ⟨⟩
  | replayed => rintro ⟨⟩
  | direct _ => rintro ⟨⟩

end Onward

/-- **A context that fails is failed once and for all.**  Whenever the visit of the root's builder has
come to the declaration of a context that it enters, and the builder of the context ends in an ordinary
error or in a panic: the declaration finishes, with one more handle, named after the context, whose
outcome is known to be that error.  The context is not entered again, nor is there another handle with
that description at the end of this pass or of any later one.  If discovery gives a result, the handle
is part of it and the context is not, and so are all handles that were made before the failure, each
with what was in its cell then: none of them is cancelled. -/
theorem failed_context_once (hw : w₀.listener.Calm) (h : r.Begins w₀ n search w) {name : String}
    {site : Location} {inner next : Builder} {swallow : Bool} {p y : Pass}
    (hp : r.builder.Comes (r.openedScope w) (r.opened search w)
      (.context name site inner swallow next) p)
    (hy : p.enter? (r.openedScope w) name site = .inr y) {c : Cause}
    (hc : (inner.visit (r.openedScope w) y).ending = .failed (.failed c) ∨
      ∃ x : Payload, (inner.visit (r.openedScope w) y).ending = .panicked x ∧ x.toCause = c) :
    let i := (inner.visit (r.openedScope w) y).state
    let path := p.visit.context.path ++ [name]
    ∃ notes z k,
      Pass.leave (p.parentVisit name) name site y.shelf.mark (inner.visit (r.openedScope w) y)
        = ⟨.finished, z⟩ ∧
      z.search.tests = i.search.tests ++ [k] ∧ k.test = ⟨p.visit.context, name, site⟩ ∧
      z.world.cell k.cell = .done ⟨k.test, .failed ⟨.contextBuild, c, notes⟩⟩ ∧
      (r.runPass search w).world.book.entrances.count (r.index, path)
        = z.world.book.entrances.count (r.index, path) ∧
      (∀ m t u, r.Begins w₀ m t u → n ≤ m →
        (r.runPass t u).search.tests.filter (fun j => j.test == k.test) = [k] ∧
        (n < m → (r.runPass t u).world.book.entrances.count (r.index, path)
          = u.book.entrances.count (r.index, path))) ∧
      ∀ d u, r.discover w₀ = (.ok (.ok d), u) →
        k ∈ d.tests ∧ u.cell k.cell = .done ⟨k.test, .failed ⟨.contextBuild, c, notes⟩⟩ ∧
        (∀ k ∈ d.contexts, k.path ≠ path) ∧
        ∀ j ∈ i.search.tests, j ∈ d.tests ∧ u.cell j.cell = i.world.cell j.cell ∧
          u.cell j.cell ≠ .cancelled := by
  intro i path
  let s := r.openedScope w
  have hinside : r.builder.Comes s (r.opened search w) inner y := hp.trans (.inside hy .here)
  have hadds : w₀.Adds i.world i.search.tests := h.adds_of_grows
    ((hinside.rel (Pass.grows_visitRelation s)).1.trans (inner.visit_grows s y))
  have hcalm : i.world.listener.Calm := by
    rw [hadds.listener]
    exact hw
  obtain ⟨notes, z, hz, hfails⟩ := Pass.leave_failing (p.parentVisit name) name site y.shelf.mark hc
    hcalm
  have hnext : r.builder.Comes s (r.opened search w) next z := hp.next hy hz
  -- the declaration has left one handle and one cell more, and its name is processed
  let k : Handle := ⟨⟨p.visit.context, name, site⟩, i.world.cells.length⟩
  let cell : Cell TestUnit Outcome := .done ⟨k.test, .failed ⟨.contextBuild, c, notes⟩⟩
  have htests : z.search.tests = i.search.tests ++ [k] := hfails.tests
  have hcells : z.world.cells = i.world.cells ++ [cell] := hfails.cells
  have hprocessed : path ∈ z.search.processed := by
    rw [hfails.processed]
    exact List.mem_append_right _ List.mem_cons_self
  have hk : k ∈ z.search.tests := by
    rw [htests]
    exact List.mem_append_right _ List.mem_cons_self
  have hold : i.search.tests ⊆ z.search.tests := by
    rw [htests]
    exact List.subset_append_left _ _
  have hroot : path ≠ r.context.path := r.path_child_ne p.visit.context name
  obtain ⟨hpass, hlater⟩ := h.shut hnext hprocessed hroot
  refine ⟨notes, z, k, hz, htests, rfl, World.cell_last hcells, hpass,
    fun m t u hm hle => ⟨?_, hlater m t u hm⟩, fun d u hd => ?_⟩
  · exact filter_of_nodup (filed_runPass hm.filed).nodup.of_append_left (h.lists hnext hm hle hk)
  · obtain ⟨hlisted, hkept⟩ := h.kept hnext hd
    have hlt : k.cell < z.world.cells.length := by
      rw [hcells, List.length_append]
      exact Nat.lt_succ_self _
    have hiz : i.world.cells <+: z.world.cells := by
      rw [hcells]
      exact List.prefix_append _ _
    refine ⟨hlisted hk, ?_, h.notMem_contexts hnext hd hk hroot, fun j hj =>
      ⟨hlisted (hold hj), ?_, h.not_cancelled hw hnext hd (hold hj)⟩⟩
    · rw [World.cell_of_isPrefix hkept hlt]
      exact World.cell_last hcells
    · exact World.cell_of_isPrefix (hiz.trans hkept) (hadds.lt hj).2

end RootContext

/-- A root whose context declares a test and fails, with a test behind it. -/
def brittleRoot : RootContext :=
  ⟨0, "root", false, .site 0,
    .context "c" (.site 1)
      (.test "a" (.site 2) .done false <| .basic (.fail ⟨.text "no", .sorted⟩) .done) false <|
    .test "b" (.site 3) .done false .done⟩

/-- The context is one failed test, and the test that it declared is still there. -/
theorem failed_context_once_brittleRoot :
    ∃ d u, brittleRoot.discover (.fresh (.held 1) .silent .lazy) = (.ok (.ok d), u) ∧
      ∃ k ∈ d.tests, k.test.path = ["root", "c"] ∧
        (∃ notes, u.cell k.cell
          = .done ⟨k.test, .failed ⟨.contextBuild, .text "no", notes⟩⟩) ∧
        (∀ c ∈ d.contexts, c.path ≠ ["root", "c"]) ∧
        ∃ j ∈ d.tests, j.test.path = ["root", "c", "a"] ∧ u.cell j.cell ≠ .cancelled := by
  refine ⟨_, _, rfl, ?_⟩
  have hfirst : brittleRoot.Begins (.fresh (.held 1) .silent .lazy) 0 {}
    (.fresh (.held 1) .silent .lazy) := .first
  obtain ⟨notes, z, k, -, -, hk, -, -, -, hall⟩ := RootContext.failed_context_once (fun _ => rfl)
    hfirst .here rfl (.inl rfl)
  obtain ⟨hmem, hcell, hcontexts, hkept⟩ := hall _ _ rfl
  obtain ⟨hj, -, hne⟩ := hkept _ List.mem_cons_self
  exact ⟨k, hmem, by rw [hk]; rfl, ⟨notes, hcell⟩, hcontexts, _, hj, rfl, hne⟩

end TestTree

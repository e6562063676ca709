/-
Repeated names are found exactly.

* `Plan.Inside` : siblings have different names in every context inside a plan;
* `Plan.Clear` : contexts that discovery is done with hold no repeated name;
* `Builder.Declares.visit_clears` : a visit that meets no repeated name keeps that, and if it leaves
  no context there is none in the whole plan;
* `RootContext.duplicates_exact` : **discovery ends with the first repeated name that any of its
  passes meets, and with a result if there is none; a plan whose builders do not fail is refused
  exactly if two siblings share a name**.

## Design notes

A repeated name may be in a context that is visited late, or in several passes.  What carries the
argument is that a context counts as processed only behind a visit that left nothing in it; so when
the last pass leaves nothing, every context of the plan was visited to its end.
-/
import TestTree.Proofs.History
import TestTree.Proofs.PlanDiscovery

namespace TestTree

/-! ### Plans without repeated names -/

namespace Plan

variable {p q : Plan} {c : NamePath} {xs ys : List NamePath}

/-- Siblings have different names in every context inside the plan. -/
def Inside : Plan → Prop
  | stop _ => True
  | test _ _ _ next => next.Inside
  | pending _ _ next => next.Inside
  | context _ _ _ inner next => inner.Distinct ∧ next.Inside

/-- In the context with the path `c`, the contexts that are `done` hold no repeated name. -/
def Clear (done : List NamePath) (c : NamePath) : Plan → Prop
  | stop _ => True
  | test _ _ _ next => next.Clear done c
  | pending _ _ next => next.Clear done c
  | context n _ _ inner next =>
    (c ++ [n] ∈ done → inner.Distinct) ∧ inner.Clear done (c ++ [n]) ∧ next.Clear done c

theorem distinct_iff (p : Plan) : p.Distinct ↔ p.names.Nodup ∧ p.Inside := by
  induction p with
  | stop e => simp [Distinct, names, Inside]
  | test n site body next ih => simp [Distinct, names, Inside, ih, and_assoc]
  | pending n site next ih => simp [Distinct, names, Inside, ih, and_assoc]
  | context n site known inner next _ ih =>
    simp only [Distinct, names, Inside, List.nodup_cons, ih]
    tauto

theorem Inside.andThen (hp : p.Inside) (hq : q.Inside) : (p.andThen q).Inside := by
  induction p with
  | stop e => cases e <;> trivial
  | test n site body next ih => exact ih hp
  | pending n site next ih => exact ih hp
  | context n site known inner next _ ih => exact ⟨hp.1, ih hp.2⟩

theorem Sound.andThen (h : (p.andThen q).Sound) : p.Sound ∧ q.Sound := by
  induction p with
  | stop e =>
    cases e with
    | finished => exact ⟨rfl, h⟩
    | failed c => cases h
    | panicked x => cases h
  | test n site body next ih => exact ih h
  | pending n site next ih => exact ih h
  | context n site known inner next _ ih =>
    obtain ⟨hn, hq⟩ := ih h.2
    exact ⟨⟨h.1, hn⟩, hq⟩

theorem clear_andThen (hp : p.ending = .finished) :
    (p.andThen q).Clear xs c ↔ p.Clear xs c ∧ q.Clear xs c := by
  induction p with
  | stop e => cases hp; simp [Plan.andThen, Clear]
  | test n site body next ih => exact ih hp
  | pending n site next ih => exact ih hp
  | context n site known inner next _ ih =>
    simp only [Plan.andThen, Clear, ih hp, and_assoc]

/-- What is done elsewhere does not matter. -/
theorem Clear.congr (h : p.Clear xs c)
    (hsub : ∀ n ∈ p.names, ∀ path, c ++ [n] <+: path → path ∈ ys → path ∈ xs) : p.Clear ys c := by
  induction p generalizing c with
  | stop e => trivial
  | test n site body next ih => exact ih h fun m hm => hsub m (List.mem_cons_of_mem _ hm)
  | pending n site next ih => exact ih h fun m hm => hsub m (List.mem_cons_of_mem _ hm)
  | context n site known inner next ihi ih =>
    obtain ⟨hdone, hi, hn⟩ := h
    have hhere := hsub n List.mem_cons_self
    refine ⟨fun hmem => hdone (hhere _ List.prefix_rfl hmem), ?_, ?_⟩
    · exact ihi hi fun m _ path hpre => hhere path ((List.prefix_append _ _).trans hpre)
    · exact ih hn fun m hm => hsub m (List.mem_cons_of_mem _ hm)

theorem clear_nil (p : Plan) : ∀ c, p.Clear [] c := by
  induction p with
  | stop e => intro c; trivial
  | test n site body next ih => intro c; exact ih c
  | pending n site next ih => intro c; exact ih c
  | context n site known inner next ihi ih =>
    intro c
    exact ⟨fun h => absurd h List.not_mem_nil, ihi _, ih c⟩

end Plan

/-! ### Visits without repeated names -/

namespace Pass

/-- A part of a visit from `x` on, which declares `p`, meets no repeated name. -/
structure VisitsClear (x : Pass) (p : Plan) (r : Ran BuildError Pass) : Prop where
  ending : r.ending = .finished
  context : r.state.visit.context = x.visit.context
  nodup : p.names.Nodup
  fresh : ∀ n ∈ p.names, n ∉ x.visit.names
  names : ∀ n, n ∈ r.state.visit.names ↔ n ∈ x.visit.names ∨ n ∈ p.names
  /-- Only what is declared is processed. -/
  only : ∀ path ∈ r.state.search.processed, path ∈ x.search.processed ∨
    ∃ n ∈ p.names, x.visit.context.path ++ [n] <+: path
  clear : p.Clear x.search.processed x.visit.context.path →
    p.Clear r.state.search.processed x.visit.context.path
  /-- If no context is left, every context inside was visited to its end. -/
  done : p.Clear x.search.processed x.visit.context.path → r.state.visit.left = false → p.Inside
  left : r.state.visit.left = false → x.visit.left = false

variable {s : PassScope} {x y : Pass} {p q : Plan} {r : Ran BuildError Pass} {seen : List NamePath}
  {hs : List Mark}

/-- The end of a builder that declares nothing more. -/
theorem visitsClear_done (x : Pass) : VisitsClear x (.stop .finished) ⟨.finished, x⟩ where
  ending := rfl
  context := rfl
  nodup := List.nodup_nil
  fresh := nofun
  names n := by simp [Plan.names]
  only _ h := .inl h
  clear h := h
  done _ _ := trivial
  left h := h

theorem Quiet.knows (h : x.Quiet y) (hx : x.Knows seen) : y.Knows seen := by
  constructor <;> rw [h.visit]
  · exact hx.declared
  · exact hx.below

theorem Quiet.calm (h : x.Quiet y) (hw : x.world.listener.Calm) : y.world.listener.Calm := by
  rw [h.grows.listener]
  exact hw

/-- A step that declares nothing. -/
theorem Quiet.visitsClear (h : x.Quiet y) (k : VisitsClear y p r) : VisitsClear x p r := by
  have hv := h.visit
  have hp := h.processed
  obtain ⟨h1, h2, h3, h4, h5, h6, h7, h8, h9⟩ := k
  rw [hv] at h2 h4 h5 h6 h7 h8 h9
  rw [hp] at h6 h7 h8
  exact ⟨h1, h2, h3, h4, h5, h6, h7, h8, h9⟩

theorem VisitsClear.trans (h : VisitsClear x p ⟨.finished, y⟩) (k : VisitsClear y q r)
    (hp : p.ending = .finished) :
    VisitsClear x (p.andThen q) r := by
  have hc : y.visit.context = x.visit.context := h.context
  have hnames : (p.andThen q).names = p.names ++ q.names := Plan.names_andThen hp q
  -- no name of the first part is one of the second
  have hdisjoint : ∀ n ∈ q.names, n ∉ p.names := fun n hq hmem =>
    k.fresh n hq ((h.names n).mpr (.inr hmem))
  have hkeep : q.Clear x.search.processed x.visit.context.path →
      q.Clear y.search.processed y.visit.context.path := by
    intro hq
    rw [hc]
    refine hq.congr fun n hn path hpre hmem => (h.only path hmem).resolve_right ?_
    rintro ⟨m, hm, hpre'⟩
    rw [prefix_unique hpre' hpre] at hm
    exact hdisjoint n hn hm
  refine ⟨k.ending, k.context.trans hc, ?_, ?_, ?_, ?_, ?_, ?_, fun hl => h.left (k.left hl)⟩
  · rw [hnames, List.nodup_append']
    exact ⟨h.nodup, k.nodup, fun n hn hq => hdisjoint n hq hn⟩
  · intro n hn
    rw [hnames] at hn
    rcases List.mem_append.mp hn with hn | hn
    · exact h.fresh n hn
    · exact fun hx => k.fresh n hn ((h.names n).mpr (.inl hx))
  · intro n
    rw [k.names, h.names, hnames, List.mem_append, or_assoc]
  · intro path hmem
    rw [hnames]
    rcases k.only path hmem with hy | ⟨n, hn, hpre⟩
    · rcases h.only path hy with hx | ⟨n, hn, hpre⟩
      · exact .inl hx
      · exact .inr ⟨n, List.mem_append_left _ hn, hpre⟩
    · rw [hc] at hpre
      exact .inr ⟨n, List.mem_append_right _ hn, hpre⟩
  · intro hclear
    obtain ⟨hcp, hcq⟩ := (Plan.clear_andThen hp).mp hclear
    refine (Plan.clear_andThen hp).mpr ⟨?_, by rw [← hc]; exact k.clear (hkeep hcq)⟩
    -- the second part processes nothing below a name of the first
    refine (h.clear hcp).congr fun n hn path hpre hmem => (k.only path hmem).resolve_right ?_
    rintro ⟨m, hm, hpre'⟩
    rw [hc] at hpre'
    rw [prefix_unique hpre' hpre] at hm
    exact hdisjoint n hm hn
  · intro hclear hl
    obtain ⟨hcp, hcq⟩ := (Plan.clear_andThen hp).mp hclear
    exact (h.done hcp (k.left hl)).andThen (k.done (hkeep hcq) hl)

/-- The next part of a visit, which meets no repeated name if there is none behind it. -/
theorem VisitsClear.andThen (hx : x.Knows seen) (ht : Told seen x hs r)
    (hw : x.world.listener.Calm) (hl : x.Grows r.state)
    (hr : r.state.search.fatal = none → VisitsClear x p r) (hp : p.ending = .finished) {b : Builder}
    (hb : ∀ {y : Pass} {seen}, y.Knows seen → y.world.listener.Calm →
      (b.visit s y).state.search.fatal = none → VisitsClear y q (b.visit s y))
    (hfatal : (r.andThen (b.visit s)).state.search.fatal = none) :
    VisitsClear x (p.andThen q) (r.andThen (b.visit s)) := by
  have hknows := ht.knows hx
  have hcalm : r.state.world.listener.Calm := by
    rw [hl.listener]
    exact hw
  obtain ⟨_ | e | c, y⟩ := r
  · have hy : (y.search.fatal.or _) = none := ((b.visit_told hknows).fatal).symm.trans hfatal
    exact (hr (Option.or_eq_none_iff.mp hy).1).trans (hb hknows hcalm hfatal) hp
  · cases (hr hfatal).ending
  · cases (hr hfatal).ending

/-- A declaration that enters no context, under a name that is new. -/
theorem visitsClear_declared {name : String} (hnew : name ∉ x.visit.names)
    (hr : r.ending = .finished) (hc : r.state.visit.context = x.visit.context)
    (hn : r.state.visit.names = name :: x.visit.names) (hl : r.state.visit.left = x.visit.left)
    (hp : ∀ path ∈ r.state.search.processed, path ∈ x.search.processed ∨
      path = x.visit.context.path ++ [name])
    (hnames : p.names = [name]) (hinside : p.Inside) (hclear : ∀ done c, p.Clear done c) :
    VisitsClear x p r where
  ending := hr
  context := hc
  nodup := by rw [hnames]; exact List.nodup_singleton _
  fresh n h := by rw [hnames] at h; rwa [List.mem_singleton.mp h]
  names n := by rw [hn, hnames, List.mem_cons, List.mem_singleton, or_comm]
  only path h := by
    rcases hp path h with h | rfl
    · exact .inl h
    · refine .inr ⟨name, ?_, List.prefix_rfl⟩
      rw [hnames]
      exact List.mem_cons_self
  clear _ := hclear _ _
  done _ _ := hinside
  left h := by rwa [← hl]

theorem visitsClear_declareTest {name : String} {site : Location} {body : Body}
    (hf : (x.declareTest s name site body).state.search.fatal = none) :
    VisitsClear x (.test name site body (.stop .finished)) (x.declareTest s name site body) := by
  by_cases hname : name ∈ x.visit.names
  · rw [declareTest_taken hname] at hf
    cases hf
  have hnew : ∀ path ∈ x.search.processed ++ [x.visit.context.path ++ [name]],
      path ∈ x.search.processed ∨ path = x.visit.context.path ++ [name] := fun path hp =>
    (List.mem_append.mp hp).imp_right List.mem_singleton.mp
  by_cases hp : x.isProcessed name = true
  · rw [declareTest_processed hname hp]
    exact visitsClear_declared hname rfl rfl rfl rfl (fun _ => .inl) rfl trivial fun _ _ => trivial
  by_cases hran : x.visit.ran = true
  · rw [declareTest_replayed hname hp hran]
    exact visitsClear_declared hname rfl rfl rfl rfl hnew rfl trivial fun _ _ => trivial
  · rw [declareTest_direct hname hp hran]
    exact visitsClear_declared hname rfl rfl rfl rfl hnew rfl trivial fun _ _ => trivial

theorem visitsClear_declarePending (hw : x.world.listener.Calm) {name : String} {site : Location}
    (hf : (x.declarePending name site).state.search.fatal = none) :
    VisitsClear x (.pending name site (.stop .finished)) (x.declarePending name site) := by
  by_cases hname : name ∈ x.visit.names
  · rw [declarePending_taken hname] at hf
    cases hf
  by_cases hp : x.isProcessed name = true
  · rw [declarePending_processed hname hp]
    exact visitsClear_declared hname rfl rfl rfl rfl (fun _ => .inl) rfl trivial fun _ _ => trivial
  · let y := (x.within (x.parentVisit name)).process name
    have hy : y.world.listener.Calm := hw
    rw [declarePending_new hname hp, show (x.within _).process name = y from rfl,
      complete_calm (hy _)]
    refine visitsClear_declared hname rfl rfl rfl rfl (fun path hp => ?_) rfl trivial
      fun _ _ => trivial
    exact (List.mem_append.mp hp).imp_right List.mem_singleton.mp

/-- A context that is not entered was visited to its end before, or is left. -/
theorem visitsClear_outside {name : String} {site : Location} {known : Bool} {i : Plan}
    (hr : x.enter? s name site = .inl r) (hf : r.state.search.fatal = none) :
    VisitsClear x (.context name site known i (.stop .finished)) r := by
  have hdeclared : ∀ {r : Ran BuildError Pass}, name ∉ x.visit.names → r.ending = .finished →
      r.state.visit.context = x.visit.context → r.state.visit.names = name :: x.visit.names →
      r.state.search.processed = x.search.processed →
      (r.state.visit.left = false → x.visit.left = false ∧ x.isProcessed name = true) →
      VisitsClear x (.context name site known i (.stop .finished)) r := by
    intro r hnew he hc hn hp hl
    refine ⟨he, hc, List.nodup_singleton _, fun n h => ?_, fun n => ?_, fun path h => ?_,
      fun h => ?_, fun h hleft => ⟨h.1 (isProcessed_iff.mp (hl hleft).2), trivial⟩,
      fun h => (hl h).1⟩
    · rwa [List.mem_singleton.mp h]
    · rw [hn, List.mem_cons, or_comm]
      exact or_congr_right List.mem_singleton.symm
    · exact .inl (by rwa [← hp])
    · rwa [hp]
  by_cases hname : name ∈ x.visit.names
  · rw [enter?_taken hname] at hr
    cases hr
    cases hf
  by_cases hp : x.isProcessed name = true
  · rw [enter?_processed hname hp] at hr
    cases hr
    exact hdeclared hname rfl rfl rfl rfl fun hl => ⟨hl, hp⟩
  by_cases hran : x.visit.ran = true
  · rw [enter?_skipped hname hp hran] at hr
    cases hr
    exact hdeclared hname rfl rfl rfl rfl nofun
  · rw [enter?_new hname hp hran] at hr
    cases hr

/-- Leaving a context processes its own path, if no context was left in it. -/
theorem of_mem_processed_leaveFinished {name : String} {v : Visit} {path : NamePath}
    (h : path ∈ (x.leaveFinished name v).search.processed) : path ∈ x.search.processed ∨
      v.left = false ∧ path = x.visit.context.path ++ [name] := by
  rw [processed_leaveFinished] at h
  refine (List.mem_append.mp h).imp_right fun hmem => ?_
  cases hl : v.left with
  | true =>
    rw [hl] at hmem
    cases hmem
  | false =>
    rw [hl] at hmem
    exact ⟨rfl, List.mem_singleton.mp hmem⟩

/-- Nothing inside a context that is entered is processed under the path of the context itself. -/
theorem VisitsClear.notMem_entered {name : String} {site : Location} {i : Plan}
    (h : VisitsClear y i r)
    (hy : x.enter? s name site = .inr y) :
    x.visit.context.path ++ [name] ∉ r.state.search.processed := by
  obtain ⟨-, hnew, -⟩ := of_entered hy
  obtain ⟨hpath, hprocessed, -⟩ := entered_eq hy
  intro hmem
  rcases h.only _ hmem with hmem | ⟨m, -, hpre⟩
  · rw [hprocessed] at hmem
    exact hnew (isProcessed_iff.mpr hmem)
  · rw [hpath] at hpre
    exact not_prefix_of_below hpre List.prefix_rfl

/-- A context that is entered and left: it is processed only if no context was left in it. -/
theorem visitsClear_leave {name : String} {site : Location} {known : Bool} {i : Plan}
    (hy : x.enter? s name site = .inr y) (h : VisitsClear y i r) (mark : Nat) :
    VisitsClear x (.context name site known i (.stop .finished))
      (leave (x.parentVisit name) name site mark r) := by
  obtain ⟨hname, -⟩ := of_entered hy
  obtain ⟨hpath, hprocessed, -⟩ := entered_eq hy
  let v := r.state.visit
  let z := (r.state.within (x.parentVisit name)).leaveFinished name v
  have hz : leave (x.parentVisit name) name site mark r = ⟨.finished, z⟩ := by
    rw [leave, h.ending]
    rfl
  have hv : z.visit = { x.parentVisit name with
      ran := x.visit.ran || v.ran, left := x.visit.left || v.left } :=
    visit_leaveFinished (r.state.within (x.parentVisit name)) name v
  have hprocess : ∀ path ∈ z.search.processed, path ∈ r.state.search.processed ∨
      v.left = false ∧ path = x.visit.context.path ++ [name] := fun path hmem =>
    of_mem_processed_leaveFinished hmem
  have honly := h.only
  have hclear := h.clear
  have hdone := h.done
  rw [hpath, hprocessed] at hclear hdone
  rw [hpath, hprocessed] at honly
  have hdistinct : i.Clear x.search.processed (x.visit.context.path ++ [name]) → v.left = false →
      i.Distinct := fun hc hl => i.distinct_iff.mpr ⟨h.nodup, hdone hc hl⟩
  rw [hz]
  refine ⟨rfl, by rw [hv]; rfl, List.nodup_singleton _, fun n hn => ?_, fun n => ?_,
    fun path hp => ?_, fun hc => ⟨fun hmem => ?_, ?_, trivial⟩, fun hc hl => ⟨?_, trivial⟩,
    fun hl => ?_⟩
  · rwa [List.mem_singleton.mp hn]
  · rw [hv]
    show n ∈ name :: x.visit.names ↔ _
    rw [List.mem_cons, or_comm]
    exact or_congr_right List.mem_singleton.symm
  · rcases hprocess path hp with hp | ⟨-, rfl⟩
    · rcases honly path hp with hold | ⟨m, -, hpre⟩
      · exact .inl hold
      · exact .inr ⟨name, List.mem_cons_self, (List.prefix_append _ _).trans hpre⟩
    · exact .inr ⟨name, List.mem_cons_self, List.prefix_rfl⟩
  · rcases hprocess _ hmem with hmem | ⟨hl, -⟩
    · exact absurd hmem (h.notMem_entered hy)
    · exact hdistinct hc.2.1 hl
  · refine (hclear hc.2.1).congr fun m _ path hpre hmem => ?_
    rcases hprocess path hmem with hold | ⟨-, rfl⟩
    · exact hold
    · exact absurd List.prefix_rfl (not_prefix_of_below hpre)
  · rw [hv] at hl
    exact hdistinct hc.2.1 (Bool.or_eq_false_iff.mp hl).2
  · rw [hv] at hl
    exact (Bool.or_eq_false_iff.mp hl).1

theorem VisitsClear.swallowing (h : VisitsClear x p r) (b : Bool) :
    VisitsClear x p (r.swallowing b) := by
  obtain ⟨ending, y⟩ := r
  obtain rfl : ending = .finished := h.ending
  exact h

/-- A declaration that meets no repeated name if there is none behind it, and what comes behind. -/
theorem visitsClear_declaration (hx : x.Knows seen) (ht : Told seen x hs r)
    (hw : x.world.listener.Calm) (hl : x.Grows r.state)
    (hr : r.state.search.fatal = none → VisitsClear x p r) (hp : p.ending = .finished)
    (swallow : Bool) {b : Builder} (hb : ∀ {y : Pass} {seen}, y.Knows seen → y.world.listener.Calm →
      (b.visit s y).state.search.fatal = none → VisitsClear y q (b.visit s y))
    (hfatal : ((r.swallowing swallow).andThen (b.visit s)).state.search.fatal = none) :
    VisitsClear x (p.andThen q) ((r.swallowing swallow).andThen (b.visit s)) := by
  refine VisitsClear.andThen hx (ht.swallowing swallow) hw ?_ (fun hf => ?_) hp hb hfatal
  · rw [Ran.state_swallowing]
    exact hl
  · rw [Ran.state_swallowing] at hf
    exact (hr hf).swallowing swallow

end Pass

open Pass

namespace Builder

variable {s : PassScope} {b inner next : Builder} {i p q : Plan} {name : String} {site : Location}
  {swallow : Bool}

/-- The visits of the builder that meet no repeated name are done with what holds none, and if they
leave no context the plan holds none. -/
def KeepsClear (s : PassScope) (b : Builder) (p : Plan) : Prop :=
  ∀ {x : Pass} {seen}, x.Knows seen → x.world.listener.Calm →
    (b.visit s x).state.search.fatal = none → VisitsClear x p (b.visit s x)

theorem KeepsClear.quiet (h : next.KeepsClear s p) {x y : Pass} {seen : List NamePath}
    (hquiet : x.Quiet y) (hx : x.Knows seen) (hw : x.world.listener.Calm)
    (hf : (next.visit s y).state.search.fatal = none) : VisitsClear x p (next.visit s y) :=
  hquiet.visitsClear (h (hquiet.knows hx) (hquiet.calm hw) hf)

theorem keepsClear_basic {b : Basic} (hb : b.goesOn) (h : next.KeepsClear s p) :
    (basic b next).KeepsClear s p := by
  intro x seen hx hw hf
  obtain ⟨he, hquiet⟩ := quiet_perform (s := s) (x := x) hb
  rw [visit, Ran.andThen, he] at hf ⊢
  exact h.quiet hquiet hx hw hf

theorem keepsClear_branch {c : Condition} {yes no : Builder} (hyes : yes.KeepsClear s p)
    (hno : no.KeepsClear s p) (hp : p.ending = .finished) (h : next.KeepsClear s q) :
    (branch c yes no next).KeepsClear s (p.andThen q) := by
  intro x seen hx hw hf
  rw [visit] at hf ⊢
  split at hf
  · rw [if_pos ‹_›]
    exact VisitsClear.andThen hx (yes.visit_told hx) hw (yes.visit_grows s x) (hyes hx hw) hp h hf
  · rw [if_neg ‹_›]
    exact VisitsClear.andThen hx (no.visit_told hx) hw (no.visit_grows s x) (hno hx hw) hp h hf

theorem keepsClear_test {body : Body} (h : next.KeepsClear s p) :
    (test name site body swallow next).KeepsClear s (.test name site body p) := by
  intro x seen hx hw hf
  exact visitsClear_declaration (p := .test name site body (.stop .finished)) hx
    (told_declareTest hx name site body) hw (grows_declareTest s x name site body)
    visitsClear_declareTest rfl swallow h hf

theorem keepsClear_pending (h : next.KeepsClear s p) :
    (pending name site swallow next).KeepsClear s (.pending name site p) := by
  intro x seen hx hw hf
  exact visitsClear_declaration (p := .pending name site (.stop .finished)) hx
    (told_declarePending hx name site) hw (grows_declarePending x name site)
    (visitsClear_declarePending hw) rfl swallow h hf

/-- What is inside is visited if the context is entered. -/
theorem keepsClear_context (hinner : inner.KeepsClear s i) (h : next.KeepsClear s p) :
    (context name site inner swallow next).KeepsClear s (.context name site false i p) := by
  intro x seen hx hw hf
  rw [visit] at hf ⊢
  cases henter : x.enter? s name site with
  | inl r =>
    rw [henter] at hf
    exact visitsClear_declaration (p := .context name site false i (.stop .finished)) hx
      (told_outside hx henter) hw ((grows_visitRelation s).outside henter)
      (visitsClear_outside henter) rfl swallow h hf
  | inr y =>
    rw [henter] at hf
    have hgrows : x.Grows y := grows_enter henter
    have hy := (knows_inside hx henter).1
    have hcalm : y.world.listener.Calm := by
      rw [hgrows.listener]
      exact hw
    refine visitsClear_declaration (p := .context name site false i (.stop .finished)) hx
      (told_leave hx henter (inner.visit_told (s := s) hy) y.shelf.mark) hw ?_ (fun hr => ?_) rfl
      swallow h hf
    · exact hgrows.trans ((inner.visit_grows s y).trans
        ((grows_visitRelation s).leave _ _ _ _ _))
    · rw [(leave_keeps _ _ _ _ _).2.2] at hr
      exact visitsClear_leave henter (hinner hy hcalm hr) _

/-- **A visit that meets no repeated name**: what it is done with holds none, and if it leaves no
context the plan holds none. -/
theorem Declares.visit_clears (h : b.Declares p) : p.Sound → b.KeepsClear s p := by
  induction h with
  | done => exact fun _ {x} {_} _ _ _ => Pass.visitsClear_done x
  | basic hb _ ih => exact fun hsound => keepsClear_basic hb (ih hsound)
  | fail ht => intro hsound; cases hsound
  | panic => intro hsound; cases hsound
  | branch _ _ _ ihy ihn ih =>
    intro hsound
    obtain ⟨hp, hq⟩ := Plan.Sound.andThen hsound
    exact keepsClear_branch (ihy hp) (ihn hp) hp.ending (ih hp.ending hq)
  | @autoClose res close _ _ _ ih =>
    intro hsound x seen hx hw hf
    exact KeepsClear.quiet (ih hsound)
      (x.quiet_withCloset (x.closet.autoClose res ⟨close, s.scope⟩) rfl rfl) hx hw hf
  | @deferClose close _ _ _ ih =>
    intro hsound x seen hx hw hf
    exact KeepsClear.quiet (ih hsound)
      (x.quiet_withCloset (x.closet.deferClose ⟨close, s.scope⟩) rfl rfl) hx hw hf
  | test _ ih => exact fun hsound => keepsClear_test (ih hsound)
  | context _ _ ihi ih => exact fun hsound => keepsClear_context (ihi hsound.1) (ih hsound.2)
  | pending _ ih => exact fun hsound => keepsClear_pending (ih hsound)
  | afterSuite _ ih =>
    intro hsound x seen hx hw hf
    exact KeepsClear.quiet (ih hsound) (quiet_afterSuite _) hx hw hf
  | logCurrent _ ih =>
    intro hsound x seen hx hw hf
    exact KeepsClear.quiet (ih hsound) (x.quiet_withCloset
      ⟨x.shelf, x.world.book.say s.scope.root ("current " ++ x.visit.context.display)⟩ rfl rfl)
      hx hw hf

end Builder

/-! ### Discoveries -/

namespace RootContext

variable {r : RootContext} {p : Plan} {w₀ w : World} {search : Search} {n : Nat}

theorem Begins.calm (h : r.Begins w₀ n search w) (hw : w₀.listener.Calm) : w.listener.Calm := by
  rw [h.adds.1.listener]
  exact hw

/-- A pass that meets no repeated name. -/
theorem runPass_clears (hb : r.builder.Declares p) (hp : p.Sound) (hw : w.listener.Calm)
    (hf : (r.runPass search w).search.fatal = none) : Pass.VisitsClear (r.opened search w) p
      (r.builder.visit ⟨r, ⟨r.index, w.book.invocations⟩, w.shelves.length⟩ (r.opened search w)) :=
  hb.visit_clears hp (r.knows_opened search w) hw hf

/-- What the passes so far are done with holds no repeated name. -/
theorem Begins.clear (hb : r.builder.Declares p) (hp : p.Sound) (hw : w₀.listener.Calm)
    (h : r.Begins w₀ n search w) : p.Clear search.processed r.context.path := by
  induction h with
  | first => exact p.clear_nil _
  | next h hf _ _ ih =>
    exact (runPass_clears hb hp (h.calm hw) (fatal?_eq_none_iff.mp hf).1).clear ih

/-- A plan whose builders do not fail is refused if two siblings share a name. -/
theorem distinct_of_finishes (hb : r.builder.Declares p) (hp : p.Sound) (hw : w₀.listener.Calm)
    (h : r.Begins w₀ n search w) (hf : fatal? (r.runPass search w) = none)
    (hl : (r.runPass search w).left = false) : p.Distinct := by
  have k := runPass_clears hb hp (h.calm hw) (fatal?_eq_none_iff.mp hf).1
  exact p.distinct_iff.mpr ⟨k.nodup, k.done (h.clear hb hp hw) hl⟩

/-- Behind a pass without a structural error discovery gives a result, if the listener does not
panic. -/
theorem Ends.result {e : PassEnd} {a : Except Payload (Except StructuralError Discovery) × World}
    (h : r.Ends n e a) (hw : e.world.listener.Calm) (hf : fatal? e = none) :
    ∃ d, a.1 = .ok (.ok d) := by
  have hfailed : ∀ failure s, ∀ w : World, w.listener.Calm →
      ∃ d, (r.finishFailed n failure s w).1 = .ok (.ok d) := by
    intro failure s w hw
    rw [finishFailed, World.completed_calm (hw _)]
    exact ⟨_, rfl⟩
  cases h with
  | aborted hf' => rw [hf] at hf'; cases hf'
  | @failedDirect _ h _ _ _ =>
    refine hfailed _ _ _ ?_
    obtain ⟨_, _, hr, -⟩ := World.release_eq e.world h
    rw [hr]
    exact hw
  | failedSwept _ _ _ => exact hfailed _ _ _ hw
  | finished _ _ _ => exact ⟨_, rfl⟩

/-- Nothing is left behind the last pass, unless it failed. -/
theorem Ends.left_of_finished {e : PassEnd}
    {a : Except Payload (Except StructuralError Discovery) × World} (h : r.Ends n e a)
    (hf : fatal? e = none) (he : failure? e.ending = none) : e.left = false := by
  cases h with
  | aborted hf' => rw [hf] at hf'; cases hf'
  | failedDirect _ he' _ => rw [he] at he'; cases he'
  | failedSwept _ he' _ => rw [he] at he'; cases he'
  | finished _ _ hl => exact hl

/-- **Repeated names are found exactly.**  If two declarations of one pass have the same path,
discovery ends with the error for the first of them, whatever the builders do with it.  If in no
pass a path is declared twice and a structural error is raised, it gives a result.  And a plan whose
builders do not fail is refused exactly if two siblings of any of its contexts share a name. -/
theorem duplicates_exact (r : RootContext) {w : World} (hw : w.listener.Calm) :
    (∀ n search v, r.Begins w n search v → ¬ (Mark.paths (r.marks search v)).Nodup →
      ∃ before place after, r.marks search v = before ++ .declared place :: after ∧
        (Mark.paths before).Nodup ∧ place.path ∈ Mark.paths before ∧
        (r.discover w).1 = .ok (.error (.duplicateName place.name place.container.display))) ∧
    ((∀ n search v, r.Begins w n search v → (Mark.paths (r.marks search v)).Nodup ∧
      ∀ e, .raised e ∉ r.marks search v) → ∃ d, (r.discover w).1 = .ok (.ok d)) ∧
    (∀ p, r.builder.Declares p → p.Sound →
      ((∃ e, (r.discover w).1 = .ok (.error e)) ↔ ¬ p.Distinct)) := by
  obtain ⟨n, search, v, hbegins, hends⟩ := r.discover_ends w
  have hcalm : (r.runPass search v).world.listener.Calm := by
    obtain ⟨hadds, hdirect, -⟩ := hbegins.adds
    obtain ⟨_, -, hpass, -⟩ := r.runPass_adds search v hdirect
    rw [hpass.listener]
    exact hbegins.calm hw
  refine ⟨fun n search v h hrepeat => ?_, fun hall => ?_, fun p hb hp => ?_⟩
  · obtain ⟨-, -, hfatal⟩ := h.adds
    cases hc : Mark.collision? [] (r.marks search v) with
    | none => exact absurd (Mark.collision?_eq_none.mp hc).1 hrepeat
    | some e =>
      have hf := fatal?_runPass (r := r) (w := v) hfatal
      rw [hc] at hf
      obtain ⟨before, place, after, hmarks, hnone, hmem, rfl⟩ := Mark.exists_of_collision hc
      exact ⟨before, place, after, hmarks, (Mark.collision?_eq_none.mp hnone).1, hmem,
        errs_of_fatal hw h hf⟩
  · -- the last pass met no repeated name, and so it has no error of its own either
    obtain ⟨hnodup, hraised⟩ := hall n search v hbegins
    obtain ⟨-, -, hfatal⟩ := hbegins.adds
    have hc : Mark.collision? [] (r.marks search v) = none :=
      Mark.collision?_eq_none.mpr ⟨hnodup, fun _ _ => List.not_mem_nil⟩
    refine hends.result hcalm (fatal?_eq_none_iff.mpr ⟨?_, fun e he => ?_⟩)
    · rw [fatal_runPass, hfatal, hc]
      rfl
    · rcases r.builder.visit_explains _ e (Pass.structural?_eq_some.mpr he) with he | he
      · exact hraised e he
      · have hnone := r.fatal_runPass search v
        rw [hfatal, hc] at hnone
        rw [show (r.builder.visit _ _).state.search.fatal = none from hnone] at he
        cases he
  · constructor
    · rintro ⟨e, he⟩ hd
      obtain ⟨d, u, hdu, -⟩ := discover_discovers hb hd (calmFor_of_calm hw)
      rw [hdu] at he
      cases he
    · intro hd
      cases hf : fatal? (r.runPass search v) with
      | some e => exact ⟨e, errs_of_fatal hw hbegins hf⟩
      | none =>
        -- the last pass has no error, so it leaves nothing, and the plan holds no repeated name
        have k := runPass_clears hb hp (hbegins.calm hw) (fatal?_eq_none_iff.mp hf).1
        have hend : (r.runPass search v).ending = .finished := k.ending
        have hl := hends.left_of_finished hf (by rw [hend]; rfl)
        exact absurd (distinct_of_finishes hb hp hw hbegins hf hl) hd

end RootContext

/-! ### A root with a late repetition -/

/-- A root whose last context declares a name twice; no pass but the second enters it. -/
def lateRoot : RootContext :=
  ⟨0, "root", false, .site 0,
    .test "a" (.site 1) .done false <|
    .context "late" (.site 2) (.test "x" (.site 3) .done false <| .pending "x" (.site 4) true .done)
      false .done⟩

/-- What the root declares. -/
def latePlan : Plan :=
  .test "a" (.site 1) .done <|
  .context "late" (.site 2) false (.test "x" (.site 3) .done <| .pending "x" (.site 4) <|
    .stop .finished) <|
  .stop .finished

theorem lateRoot_declares : lateRoot.builder.Declares latePlan :=
  .test (.context (.test (.pending .done)) .done)

theorem duplicates_exact_lateRoot : latePlan.Sound ∧ ¬ latePlan.Distinct ∧
    ∃ e, (lateRoot.discover (.fresh (.held 1) .silent .lazy)).1 = .ok (.error e) := by
  have hsound : latePlan.Sound := ⟨rfl, rfl⟩
  have hrepeat : ¬ latePlan.Distinct := fun h => h.2.2.1.1 List.mem_cons_self
  obtain ⟨-, -, hplan⟩ :=
    RootContext.duplicates_exact lateRoot (w := .fresh (.held 1) .silent .lazy) fun _ => rfl
  exact ⟨hsound, hrepeat, (hplan latePlan lateRoot_declares hsound).mpr hrepeat⟩

end TestTree

/-
Nodes of contexts are made once, and kept.

* `Search.Interned` : the nodes that were made, next to the contexts that were entered;
* `Search.Interned.intern` : a context is entered, for the first time or again;
* `Pass.Interns`, `Builder.interns` : a visit makes a node for each path that is new to it;
* `Discovery.Reaches` : the nodes of a result, and those around them;
* `RootContext.interning_stable` : **one node for each path, with the site of the declaration that
  entered it first**.

## Design notes

A node is looked up by its path, which does not tell where it was declared; and its container is a
node that was looked up in the same way.  So the list of nodes is compared with the list of
arrivals, where the site of each declaration is, and a node is made exactly when its path arrives
for the first time.
-/
import TestTree.Proofs.AfterSuite
import TestTree.Proofs.SearchState

namespace TestTree

/-! ### Nodes and arrivals -/

/-- No name in a context gives the path of a root. -/
theorem Context.path_ne_root {root : Context} (h : root.parent? = none) (c : Context)
    (name : String) : c.path ++ [name] ≠ root.path := by
  cases root with
  | root n l => simp [path, List.append_eq_singleton_iff, c.path_ne_nil]
  | child p n l => cases h

namespace Search

/-- The contexts below `root` that were entered, when `as` are the arrivals so far. -/
structure Interned (s : Search) (root : Context) (as : List Arrival) : Prop where
  /-- Each path is listed once, -/
  nodup : (s.entered.map Context.path).Nodup
  /-- if it was ever entered and is not the root's, -/
  paths : ∀ path, path ∈ s.entered.map Context.path ↔ path ∈ as.map Prod.fst ∧ path ≠ root.path
  /-- with the site that it was first entered at, -/
  sites : ∀ c ∈ s.entered, as.lookup c.path = some c.location
  /-- behind its parent. -/
  parents : ∀ before c after, s.entered = before ++ c :: after →
    ∃ p ∈ root :: before, c = .child p c.name c.location
  containers : ∀ h ∈ s.tests, h.test.container ∈ root :: s.entered

variable {s t : Search} {root : Context} {as : List Arrival} {place : Place}

/-- A step that makes no node, and lists only handles whose containers are there. -/
theorem Interned.listed (h : s.Interned root as) (he : t.entered = s.entered)
    (ht : ∀ k ∈ t.tests, k ∈ s.tests ∨ k.test.container ∈ root :: s.entered) :
    t.Interned root as := by
  constructor
  · rw [he]; exact h.nodup
  · rw [he]; exact h.paths
  · rw [he]; exact h.sites
  · rw [he]; exact h.parents
  · rw [he]; exact fun k hk => (ht k hk).elim (h.containers k) id

/-- A context is entered whose node is there, or the root is. -/
theorem Interned.again (h : s.Interned root as) {path : NamePath} (site : Location)
    (hp : path ∈ s.entered.map Context.path ∨ path = root.path) :
    s.Interned root (as ++ [(path, site)]) where
  nodup := h.nodup
  paths q := by
    rw [List.map_append, List.mem_append, List.map_singleton, List.mem_singleton, h.paths]
    refine ⟨fun hq => ⟨.inl hq.1, hq.2⟩, fun ⟨hq, hne⟩ => ⟨?_, hne⟩⟩
    rcases hq with hq | rfl
    · exact hq
    · exact ((h.paths _).mp (hp.resolve_right hne)).1
  sites c hc := by
    rw [List.lookup_append, h.sites c hc]
    rfl
  parents := h.parents
  containers := h.containers

/-- A context is entered for the first time. -/
theorem Interned.new (h : s.Interned root as) (site : Location)
    (hc : place.container ∈ root :: s.entered) (hp : place.path ∉ s.entered.map Context.path)
    (hroot : place.path ≠ root.path) :
    ({ s with entered := s.entered ++ [.child place.container place.name site] } : Search).Interned
      root (as ++ [(place.path, site)]) := by
  have hunseen : place.path ∉ as.map Prod.fst := fun hmem => hp ((h.paths _).mpr ⟨hmem, hroot⟩)
  constructor
  · rw [List.map_append]
    exact List.nodup_append_comm.mp (List.nodup_cons.mpr ⟨hp, h.nodup⟩)
  · intro q
    show q ∈ (s.entered ++ [_]).map Context.path ↔ _
    rw [List.map_append, List.map_append, List.mem_append, List.mem_append, h.paths]
    have hq : q ∈ [Context.child place.container place.name site].map Context.path ↔
        q = place.path := List.mem_singleton
    have hq' : q ∈ [(place.path, site)].map Prod.fst ↔ q = place.path := List.mem_singleton
    rw [hq, hq']
    refine ⟨?_, fun ⟨hq, hne⟩ => hq.imp_left fun hq => ⟨hq, hne⟩⟩
    rintro (⟨hq, hne⟩ | rfl)
    · exact ⟨.inl hq, hne⟩
    · exact ⟨.inr rfl, hroot⟩
  · intro c hc
    rw [List.lookup_append]
    rcases List.mem_append.mp hc with hc | hc
    · rw [h.sites c hc]
      rfl
    · rw [List.mem_singleton.mp hc]
      show (as.lookup place.path).or ([(place.path, site)].lookup place.path) = some site
      rw [List.lookup_eq_none_iff.mpr, Option.none_or, List.lookup_cons_self]
      exact fun a ha => by
        rw [bne_iff_ne]
        exact fun heq => hunseen (heq ▸ List.mem_map_of_mem ha)
  · intro before c after hsplit
    rcases List.eq_nil_or_concat' after with rfl | ⟨mid, z, rfl⟩
    · obtain ⟨rfl, hlast⟩ := List.append_inj' hsplit rfl
      obtain rfl := List.singleton_inj.mp hlast
      exact ⟨place.container, hc, rfl⟩
    · rw [← List.cons_append, ← List.append_assoc] at hsplit
      exact h.parents before c mid (List.append_inj' hsplit rfl).1
  · exact fun k hk => (List.cons_subset_cons _ (List.subset_append_left _ _)) (h.containers k hk)

/-- **Entering a context keeps the nodes in order**, whether its node is there or is made. -/
theorem Interned.intern (h : s.Interned root as) (hroot : root.parent? = none) (site : Location)
    (hc : place.container ∈ root :: s.entered) :
    (s.intern place site).2.Interned root (as ++ [(place.path, site)]) := by
  rw [Search.intern]
  cases hfind : s.entered.find? fun c => c.path == place.path with
  | some c =>
    have hpath : c.path = place.path := by simpa using List.find?_some hfind
    exact h.again site (.inl (hpath ▸ List.mem_map_of_mem (List.mem_of_find?_eq_some hfind)))
  | none =>
    refine h.new site hc (fun hp => ?_) (Context.path_ne_root hroot _ _)
    obtain ⟨c, hmem, hpath⟩ := List.mem_map.mp hp
    exact List.find?_eq_none.mp hfind c hmem (beq_iff_eq.mpr hpath)

/-- The contexts around a node are nodes. -/
theorem Interned.ancestry (h : s.Interned root as) (hroot : root.parent? = none) {c : Context} :
    c ∈ root :: s.entered → ∀ a ∈ c.ancestry, a ∈ root :: s.entered := by
  induction c with
  | root n l =>
    intro hc a ha
    rwa [List.mem_singleton.mp ha]
  | child p n l ih =>
    intro hc a ha
    rcases List.mem_append.mp ha with ha | ha
    · refine ih ?_ a ha
      rcases List.mem_cons.mp hc with rfl | hc
      · cases hroot
      · obtain ⟨before, after, hsplit⟩ := List.append_of_mem hc
        obtain ⟨q, hq, heq⟩ := h.parents before _ after hsplit
        obtain ⟨rfl, -, -⟩ := Context.child.inj heq
        rw [hsplit]
        exact List.cons_subset_cons _ (List.subset_append_left _ _) hq
    · rwa [List.mem_singleton.mp ha]

/-- Two nodes of one path are one. -/
theorem Interned.unique (h : s.Interned root as) {c d : Context} (hc : c ∈ root :: s.entered)
    (hd : d ∈ root :: s.entered) (hpath : c.path = d.path) : c = d := by
  have hnodup : ((root :: s.entered).map Context.path).Nodup :=
    List.nodup_cons.mpr ⟨fun hmem => ((h.paths _).mp hmem).2 rfl, h.nodup⟩
  exact List.inj_on_of_nodup_map hnodup hc hd hpath

end Search

/-! ### Visits -/

namespace Pass

variable {s : PassScope} {root : Context} {x y z : Pass} {as bs : List Arrival}

/-- The visit of a context goes from `x` to `y`, and enters `as`. -/
structure Interns (root : Context) (x : Pass) (as : List Arrival) (y : Pass) : Prop where
  context : y.visit.context = x.visit.context
  entered : x.search.entered <+: y.search.entered
  interned : ∀ seen, x.visit.context ∈ root :: x.search.entered → x.search.Interned root seen →
    y.search.Interned root (seen ++ as)

/-- What was entered stays entered. -/
theorem Interns.mem (h : x.Interns root as y) {c : Context} (hc : c ∈ root :: x.search.entered) :
    c ∈ root :: y.search.entered :=
  List.cons_subset_cons _ h.entered.subset hc

theorem Interns.trans (h : x.Interns root as y) (k : y.Interns root bs z) :
    x.Interns root (as ++ bs) z where
  context := k.context.trans h.context
  entered := h.entered.trans k.entered
  interned seen hc hx := by
    rw [← List.append_assoc]
    refine k.interned _ ?_ (h.interned seen hc hx)
    rw [h.context]
    exact h.mem hc

theorem Enlists.interns (h : x.Enlists y) : x.Interns root [] y := by
  obtain ⟨names, hs, h⟩ := h
  obtain ⟨_, _, _, hsearch⟩ := h.search
  have hentered : y.search.entered = x.search.entered := by rw [hsearch]
  refine ⟨h.context, hentered ▸ List.prefix_rfl, fun seen hc hx => ?_⟩
  rw [List.append_nil, hsearch]
  refine hx.listed rfl fun k hk => ?_
  rcases List.mem_append.mp hk with hk | hk
  · exact .inl hk
  · rw [h.container k hk]
    exact .inr hc

theorem search_enter {name : String} {site : Location} (hy : x.enter? s name site = .inr y) :
    y.search = (x.search.intern (x.place name) site).2 ∧
      y.visit.context = (x.search.intern (x.place name) site).1 := by
  obtain ⟨hname, hp, hran⟩ := of_entered hy
  rw [enter?_new hname hp hran] at hy
  cases hy
  exact ⟨rfl, rfl⟩

theorem interns_leave (hroot : root.parent? = none) {name : String} {site : Location}
    {r : Ran BuildError Pass} (hy : x.enter? s name site = .inr y) (h : y.Interns root as r.state)
    (mark : Nat) : x.Interns root ((x.visit.context.path ++ [name], site) :: as)
      (leave (x.parentVisit name) name site mark r).state := by
  obtain ⟨hgrows, hmem⟩ := extends_entered hy
  have hback : x.Interns root ((x.visit.context.path ++ [name], site) :: as)
      (r.state.within (x.parentVisit name)) := by
    refine ⟨rfl, hgrows.entered.trans h.entered, fun seen hc hx => ?_⟩
    have hentered : (x.search.intern (x.place name) site).2.Interned root
        (seen ++ [((x.place name).path, site)]) := hx.intern hroot site hc
    rw [← (search_enter hy).1] at hentered
    have hinner := h.interned _ (List.mem_cons_of_mem _ hmem) hentered
    rwa [List.append_assoc] at hinner
  have hfailed : ∀ failure, x.Interns root ((x.visit.context.path ++ [name], site) :: as)
      (leaveFailed name site mark failure (r.state.within (x.parentVisit name))).state := by
    intro failure
    have hboth := hback.trans (Enlists.interns (enlists_leaveFailed
      (r.state.within (x.parentVisit name)) name site mark failure))
    rwa [List.append_nil] at hboth
  rw [leave]
  rcases r.ending with _ | (e | c) | p
  · have he := entered_leaveFinished (r.state.within (x.parentVisit name)) name r.state.visit
    have ht := tests_leaveFinished (r.state.within (x.parentVisit name)) name r.state.visit
    have hv := visit_leaveFinished (r.state.within (x.parentVisit name)) name r.state.visit
    have hcontext := congrArg Visit.context hv
    refine ⟨hcontext, he ▸ hback.entered, fun seen hc hx => ?_⟩
    exact (hback.interned seen hc hx).listed he fun k hk => .inl (ht ▸ hk)
  · exact hback
  · exact hfailed _
  · exact hfailed _

theorem interns_arrivalRelation (s : PassScope) (hroot : root.parent? = none) :
    ArrivalRelation s (Interns root) where
  refl x := (enlists_closet x x.closet).interns
  trans := Interns.trans
  perform x b := (enlists_perform x b).interns
  register x _ _ _ := (enlists_closet x _).interns
  say x line := (enlists_closet x ⟨x.shelf, x.world.book.say s.scope.root line⟩).interns
  declareTest x name site body := (enlists_declareTest x name site body).interns
  declarePending x name site := (enlists_declarePending x name site).interns
  declareAfterSuite x callback := (enlists_declareAfterSuite x callback).interns
  outside h := (enlists_outside h).interns
  leave := interns_leave hroot

end Pass

/-- **A visit makes a node for each path that arrives for the first time.** -/
theorem Builder.visit_interns (s : PassScope) {root : Context} (hroot : root.parent? = none)
    (b : Builder) (x : Pass) : x.Interns root (b.arrivals s x) (b.visit s x).state :=
  b.visit_arrivals (Pass.interns_arrivalRelation s hroot) x

/-! ### Passes -/

/-- The nodes that a result leads to: its contexts, the containers of its tests, and the contexts
around these. -/
def Discovery.Reaches (d : Discovery) (c : Context) : Prop :=
  ∃ x, (x ∈ d.contexts ∨ ∃ h ∈ d.tests, h.test.container = x) ∧ c ∈ x.ancestry

namespace RootContext

variable {r : RootContext} {search : Search} {as : List Arrival} {w w₀ : World} {n : Nat}

theorem interned_runPass (h : search.Interned r.context as) (w : World) :
    (r.runPass search w).search.Interned r.context (as ++ r.arrivals search w) := by
  have hopened : (r.opened search w).search.Interned r.context
      (as ++ [(r.context.path, r.location)]) :=
    h.again r.location (.inr rfl)
  let s : PassScope := ⟨r, ⟨r.index, w.book.invocations⟩, w.shelves.length⟩
  have hroot : r.context.parent? = none := rfl
  have hvisit := r.builder.visit_interns s hroot (r.opened search w)
  have hinterned := hvisit.interned _ List.mem_cons_self hopened
  rw [List.append_assoc] at hinterned
  exact hinterned.listed rfl fun k hk => .inl hk

theorem Tours.interned {Q : World → Prop} (h : r.Tours Q search as) :
    search.Interned r.context as := by
  induction h with
  | first => exact ⟨List.nodup_nil, by simp, nofun, by simp, nofun⟩
  | next _ b _ ih =>
    have hpass := interned_runPass (r := r.building b) ih
    exact (hpass _).listed rfl fun k hk => .inl hk

/-- The nodes of a result are those of the last pass. -/
theorem ResultOf.mem_nodes {e : PassEnd} {d : Discovery} {v : World} (h : r.ResultOf e d v)
    (hi : e.search.Interned r.context as) {c : Context} (hc : d.Reaches c) :
    c ∈ r.context :: e.search.entered := by
  obtain ⟨x, hx, ha⟩ := hc
  refine hi.ancestry rfl ?_ c ha
  rcases hx with hx | ⟨k, hk, rfl⟩
  · rw [h.contexts] at hx
    refine List.cons_subset_cons _ (fun c hc => ?_) hx
    exact (List.mem_filter.mp (List.mem_mergeSort.mp hc)).1
  · obtain ⟨own, htests, hown⟩ := h.tests
    rw [htests, List.mem_append] at hk
    rcases hk with hk | hk
    · exact hi.containers k hk
    · rw [(hown k (Option.mem_toList.mp hk)).1]
      exact List.mem_cons_self

/-- **There is one node for each path, with the site at which the path was first entered**, whatever
the sites of later declarations are.  In every pass of a discovery the contexts entered so far are
listed once each, parents before children; this holds as well if every pass runs another builder of
the root.  All nodes that a result leads to, whichever pass made the handle, have the sites of the
first arrivals at their paths, so that nodes of one path are one node with one location; the log has
the arrivals of all passes. -/
theorem interning_stable (r : RootContext) :
    (∀ {w₀ n search w}, r.Begins w₀ n search w →
      (r.runPass search w).search.Interned r.context (r.route (n + 1) w₀)) ∧
    (∀ {search as}, r.Tours (fun _ => True) search as → ∀ b w,
      ((r.building b).runPass search w).search.Interned r.context
        (as ++ (r.building b).arrivals search w)) ∧
    ∀ {w v d}, r.discover w = (.ok (.ok d), v) →
      ∃ n search z, r.Begins w n search z ∧ r.Ends (n + 1) (r.runPass search z) (r.discover w) ∧
        v.book.entrances
          = Arrival.logged r.index (r.route (n + 1) w) ++ w.book.entrances ∧
        (∀ c, d.Reaches c → (r.route (n + 1) w).lookup c.path = some c.location) ∧
        ∀ c c', d.Reaches c → d.Reaches c' → c.path = c'.path →
          c = c' ∧ c.location = c'.location := by
  have htours : ∀ {search as}, r.Tours (fun _ => True) search as → ∀ b w,
      ((r.building b).runPass search w).search.Interned r.context
        (as ++ (r.building b).arrivals search w) :=
    fun h b w => interned_runPass (r := r.building b) h.interned w
  have hpass : ∀ {w₀ n search w}, r.Begins w₀ n search w →
      (r.runPass search w).search.Interned r.context (r.route (n + 1) w₀) := by
    intro w₀ n search w h
    rw [h.route_succ]
    exact htours (h.tours fun _ => trivial) r.builder w
  refine ⟨hpass, htours, fun {w v d} hd => ?_⟩
  obtain ⟨n, search, z, hbegins, hends⟩ := r.discover_ends w
  have hinterned := hpass hbegins
  have hnodes : ∀ c, d.Reaches c → c ∈ r.context :: (r.runPass search z).search.entered :=
    fun c hc => (hends.resultOf hd).mem_nodes hinterned hc
  refine ⟨n, search, z, hbegins, hends, ?_, fun c hc => ?_, fun c c' hc hc' hpath => ?_⟩
  · rw [(hends.keeps hd).2, logged_runPass, hbegins.logged, hbegins.route_succ,
      Arrival.logged_append, List.append_assoc]
  · rcases List.mem_cons.mp (hnodes c hc) with rfl | hmem
    · -- every route begins at the root
      show List.lookup r.context.path ((r.context.path, r.location) :: _ ++ _) = some r.location
      rw [List.cons_append, List.lookup_cons_self]
    · exact hinterned.sites c hmem
  · have heq := hinterned.unique (hnodes c hc) (hnodes c' hc') hpath
    exact ⟨heq, congrArg Context.location heq⟩

/-- A root that declares its contexts at other sites in its second invocation. -/
def movingRoot : RootContext :=
  ⟨0, "root", false, .site 0,
    .basic (.incr "n") <|
    .branch ⟨"n", .less, 2⟩
      (.context "c" (.site 1)
        (.test "a" (.site 2) .done false <|
         .context "d" (.site 3) (.test "b" (.site 4) .done false .done) false .done) false .done)
      (.context "c" (.site 5)
        (.context "d" (.site 6) (.test "b" (.site 7) .done false .done) false .done) false .done)
      .done⟩

/-- The second pass enters the context `c` at another site, and keeps its node. -/
theorem interning_stable_movingRoot :
    ∃ d v, movingRoot.discover (.fresh (.held 1) .silent .lazy) = (.ok (.ok d), v) ∧
      movingRoot.route 2 (.fresh (.held 1) .silent .lazy)
        = [(["root"], .site 0), (["root", "c"], .site 1), (["root"], .site 0),
          (["root", "c"], .site 5), (["root", "c", "d"], .site 6)] ∧
      d.tests.map (·.test.container.location) = [.site 1, .site 6] ∧
      ∀ c, d.Reaches c → c.path = ["root", "c"] → c = .child movingRoot.context "c" (.site 1) := by
  refine ⟨_, _, rfl, rfl, rfl, fun c hc hpath => ?_⟩
  obtain ⟨-, -, hresult⟩ := movingRoot.interning_stable
  obtain ⟨-, -, -, -, -, -, -, hunique⟩ := hresult (w := .fresh (.held 1) .silent .lazy) rfl
  let node : Context := .child movingRoot.context "c" (.site 1)
  exact (hunique c node hc ⟨node, .inr ⟨_, List.mem_cons_self, rfl⟩,
    List.mem_append_right _ List.mem_cons_self⟩ hpath).1

end RootContext

end TestTree

/-
The order in which discovery lists contexts.

* `Location.le_trans`, `le_total` : sites are ordered;
* `StableSort` : a sorted list with the same elements, those that are equivalent in their old order;
* `Plan.nodup_contexts` : siblings of different names make contexts of different paths;
* `RootContext.discover_contexts` : **a builder that does not fail has its contexts listed as the
  stable sort by site of their declaration order**.
-/
import TestTree.Proofs.PlanDiscovery

namespace TestTree

/-! ### Sites -/

namespace Location

/-- Files come before numbered sites. -/
def kind : Location → Nat
  | .file .. => 0
  | .site _ => 1

/-- The path of a file. -/
def file? : Location → String
  | .file path _ _ => path
  | .site _ => ""

/-- The line in a file, or the number of a site. -/
def line : Location → Nat
  | .file _ line _ => line
  | .site n => n

/-- The column in a line. -/
def column : Location → Nat
  | .file _ _ column => column
  | .site _ => 0

theorem order_eq : order = compareLex (compareOn kind) (compareLex (compareOn file?)
    (compareLex (compareOn line) (compareOn column))) := by
  funext a b
  cases a <;> cases b <;> first
    | rfl
    | simp [order, compareLex, compareOn, kind, file?, line, column]

instance : Std.TransCmp order := by
  rw [order_eq]
  infer_instance

theorem le_iff {a b : Location} : a.le b ↔ (a.order b).isLE := by
  rw [le]
  cases a.order b <;> simp

theorem le_trans (a b c : Location) (h : a.le b) (k : b.le c) : a.le c := by
  rw [le_iff] at h k ⊢
  exact Std.TransCmp.isLE_trans h k

theorem le_total (a b : Location) : a.le b || b.le a := by
  have hswap : b.order a = (a.order b).swap := Std.OrientedCmp.eq_swap
  rw [Bool.or_eq_true, le_iff, le_iff, hswap]
  cases a.order b <;> simp

theorem le_refl (a : Location) : a.le a := by
  have := le_total a a
  rwa [Bool.or_self] at this

end Location

/-! ### Stable sorting -/

/-- The list `l'` is `l` in sorted order, and elements that are equivalent keep their order. -/
structure StableSort {α : Type} (le : α → α → Bool) (l l' : List α) : Prop where
  perm : l'.Perm l
  sorted : l'.Pairwise fun a b => le a b
  stable : ∀ a, l'.filter (fun b => le a b && le b a) = l.filter fun b => le a b && le b a

theorem stableSort_mergeSort {α : Type} {le : α → α → Bool}
    (trans : ∀ a b c, le a b → le b c → le a c) (total : ∀ a b, le a b || le b a) (l : List α) :
    StableSort le l (l.mergeSort le) where
  perm := l.mergeSort_perm le
  sorted := List.pairwise_mergeSort trans total l
  stable := by
    intro a
    -- equivalent elements are sorted as they are, so sorting keeps them as a sublist
    have hsorted : (l.filter fun b => le a b && le b a).Pairwise fun b c => le b c := by
      rw [List.pairwise_filter]
      refine List.pairwise_of_forall fun b c hb hc => ?_
      rw [Bool.and_eq_true] at hb hc
      exact trans b a c hb.2 hc.1
    have hsub := List.sublist_mergeSort trans total hsorted
      (l.filter_sublist (p := fun b => le a b && le b a))
    have hsub' := hsub.filter fun b => le a b && le b a
    rw [List.filter_filter] at hsub'
    simp only [Bool.and_self] at hsub'
    refine (hsub'.eq_of_length ?_).symm
    exact (((l.mergeSort_perm le).filter _).length_eq).symm

theorem StableSort.eq_of_forall {α : Type} {le : α → α → Bool} {l l' : List α}
    (h : StableSort le l l') (hl : ∀ a ∈ l, ∀ b ∈ l, le a b) : l' = l := by
  cases l with
  | nil => exact h.perm.eq_nil
  | cons a rest =>
    have hall : ∀ b ∈ a :: rest, (le a b && le b a) = true := by
      intro b hb
      rw [Bool.and_eq_true]
      exact ⟨hl a List.mem_cons_self b hb, hl b hb a List.mem_cons_self⟩
    have := h.stable a
    rwa [List.filter_eq_self.mpr hall,
      List.filter_eq_self.mpr fun b hb => hall b (h.perm.mem_iff.mp hb)] at this

/-! ### Contexts of a plan -/

namespace Plan

/-- The path of a context goes through one of the names that are declared. -/
theorem prefix_of_mem_contexts {p : Plan} {k : Context} :
    ∀ {c}, k ∈ p.contexts c → ∃ n ∈ p.names, c.path ++ [n] <+: k.path := by
  induction p with
  | stop e => intro c hk; simp [contexts] at hk
  | test n site body next ih =>
    intro c hk
    obtain ⟨m, hm, hp⟩ := ih hk
    exact ⟨m, List.mem_cons_of_mem _ hm, hp⟩
  | pending n site next ih =>
    intro c hk
    obtain ⟨m, hm, hp⟩ := ih hk
    exact ⟨m, List.mem_cons_of_mem _ hm, hp⟩
  | context n site known inner next ihi ih =>
    intro c hk
    rw [contexts, List.mem_cons, List.mem_append] at hk
    rcases hk with rfl | hk | hk
    · exact ⟨n, List.mem_cons_self, List.prefix_rfl⟩
    · obtain ⟨m, -, hp⟩ := ihi hk
      exact ⟨n, List.mem_cons_self, (List.prefix_append _ _).trans hp⟩
    · obtain ⟨m, hm, hp⟩ := ih hk
      exact ⟨m, List.mem_cons_of_mem _ hm, hp⟩

/-- Siblings of different names make contexts of different paths. -/
theorem nodup_contexts {p : Plan} (h : p.Distinct) :
    ∀ c, ((p.contexts c).map Context.path).Nodup := by
  induction p with
  | stop e => intro c; exact List.nodup_nil
  | test n site body next ih => intro c; exact ih h.2 c
  | pending n site next ih => intro c; exact ih h.2 c
  | context n site known inner next ihi ih =>
    intro c
    obtain ⟨hn, hi, hd⟩ := h
    -- what is declared behind the context does not go through its name
    have hout : ∀ k ∈ next.contexts c, ¬ c.path ++ [n] <+: k.path := by
      intro k hk hp
      obtain ⟨m, hm, hmk⟩ := prefix_of_mem_contexts hk
      exact Pass.not_prefix_of_ne (fun hnm : n = m => hn (hnm ▸ hm)) hmk hp
    have hin : ∀ k ∈ inner.contexts (.child c n site),
        c.path ++ [n] <+: k.path ∧ k.path ≠ c.path ++ [n] := by
      intro k hk
      obtain ⟨m, -, hmk⟩ := prefix_of_mem_contexts hk
      exact ⟨(List.prefix_append _ _).trans hmk, Pass.ne_of_longer hmk⟩
    rw [contexts, List.map_cons, List.map_append, List.nodup_cons, List.nodup_append]
    refine ⟨?_, ihi hi _, ih hd c, ?_⟩
    · rw [List.mem_append, List.mem_map, List.mem_map]
      rintro (⟨k, hk, hp⟩ | ⟨k, hk, hp⟩)
      · exact (hin k hk).2 hp
      · exact hout k hk (by rw [hp]; exact List.prefix_rfl)
    · intro a ha b hb hab
      obtain ⟨k, hk, rfl⟩ := List.mem_map.mp ha
      obtain ⟨l, hl, rfl⟩ := List.mem_map.mp hb
      exact hout l hl (hab ▸ (hin k hk).1)

end Plan

/-! ### Contexts of a discovery -/

namespace RootContext

variable {r : RootContext} {p : Plan} {w : World}

/-- A context stands at its site. -/
def siteLe (a b : Context) : Bool :=
  a.location.le b.location

/-- **The contexts of a builder that does not fail are the root and then all contexts that it
declares, each once: the stable sort by site of their declaration order, outer ones first.** -/
theorem discover_contexts (h : r.builder.Declares p) (hs : p.Sound) (hd : p.Distinct)
    (hw : p.CalmFor w.listener r.context) :
    ∃ d v l, r.discover w = (.ok (.ok d), v) ∧ d.contexts = r.context :: l ∧
      StableSort siteLe (p.contexts r.context) l ∧ (l.map Context.path).Nodup ∧
      ((∀ a ∈ p.contexts r.context, ∀ b ∈ p.contexts r.context, a.location = b.location) →
        l = p.contexts r.context) := by
  have hcalm : r.CalmFor p w.listener := by
    refine ⟨hw, fun hf => ?_⟩
    rw [Plan.fails_eq_false.mpr hs.ending] at hf
    cases hf
  obtain ⟨d, v, hdv, k⟩ := discover_discovers h hd hcalm
  obtain ⟨s, hc, he, -, hfound⟩ := k.contexts
  -- contexts are entered in the order of declaration, and none is left out
  have hentered : s.entered = p.contexts r.context := by
    rw [he, findingsFrom, Plan.failure?_eq_none.mpr hs.ending, ← h.isNew.newContexts_eq]
    exact (hs.contexts_found r.context).1
  have horder : s.foundInOrder = p.contexts r.context := by
    rw [Search.foundInOrder, hentered, List.filter_eq_self]
    intro c hcs
    rw [List.any_eq_true]
    exact ⟨c, hfound hs c hcs, beq_self_eq_true _⟩
  have hsort : StableSort siteLe (p.contexts r.context) (s.foundInOrder.mergeSort siteLe) := by
    rw [horder]
    exact stableSort_mergeSort
      (fun a b c => Location.le_trans a.location b.location c.location)
      (fun a b => Location.le_total a.location b.location) _
  refine ⟨d, v, _, hdv, hc, hsort, ?_, ?_⟩
  · exact ((hsort.perm.map _).nodup_iff).mpr (Plan.nodup_contexts hd _)
  · intro heq
    -- all sites are equal: nothing is moved
    refine hsort.eq_of_forall fun a ha b hb => ?_
    rw [siteLe, heq a ha b hb]
    exact Location.le_refl _

/-- A root with nested contexts whose sites are not in the order of declaration. -/
def nestedRoot : RootContext :=
  ⟨0, "root", false, .site 0,
    .context "x" (.site 2)
      (.context "y" (.site 1) (.test "t" (.site 0) .done false .done) false .done) false <|
    .pending "p" (.site 0) false <|
    .context "z" (.site 1) .done false .done⟩

/-- What the nested root declares. -/
def nestedPlan : Plan :=
  .context "x" (.site 2) false
    (.context "y" (.site 1) false (.test "t" (.site 0) .done (.stop .finished)) (.stop .finished)) <|
  .pending "p" (.site 0) <|
  .context "z" (.site 1) false (.stop .finished) (.stop .finished)

theorem nestedRoot_declares : nestedRoot.builder.Declares nestedPlan :=
  .context (.context (.test .done) .done) (.pending (.context .done .done))

/-- The inner context comes before the one that is declared behind it at the same site. -/
theorem discover_contexts_nestedRoot :
    ∃ d v l, nestedRoot.discover (.fresh (.held 1) .silent .eager) = (.ok (.ok d), v) ∧
      d.contexts = nestedRoot.context :: l ∧ l.length = 3 ∧
      (l.filter fun c => siteLe (.root "" (.site 1)) c && siteLe c (.root "" (.site 1))).map
        Context.path = [["root", "x", "y"], ["root", "z"]] := by
  obtain ⟨d, v, l, hd, hc, hs, -, -⟩ := discover_contexts nestedRoot_declares
    (w := .fresh (.held 1) .silent .eager) ⟨⟨rfl, rfl⟩, rfl, rfl⟩
    (by simp [nestedPlan, Plan.Distinct, Plan.names])
    (Plan.calmFor_of_calm (fun _ => rfl) _ _)
  refine ⟨d, v, l, hd, hc, hs.perm.length_eq, ?_⟩
  rw [hs.stable]
  rfl

end RootContext

end TestTree

/-
What a context is known by, however many nodes stand for it.

* `Context.length_path`, `Context.ancestry_path` : depth and ancestry, read off the path;
* `Context.contains_iff` : containment is being a prefix;
* `Alive.sideBySide` : nodes that are kept at one time know their depths, and each has an address of
  its own;
* `SideBySide.same_eq`, `SideBySide.contains_eq` : **nodes answer as the contexts that they stand
  for**;
* `Context.identified_by_path` : **contexts are known by their paths**.

## Design notes

A node looks at addresses and at the depth that was noted down before it looks at names.  Addresses
agree only for one node, and where names agree all the way up the depths agree as well, so neither
look changes an answer.
-/
import Mathlib.Data.Fintype.EquivFin
import TestTree.Proofs.Identity
import TestTree.Tree.Node

namespace TestTree

/-! ### Contexts -/

namespace Context

theorem length_path (c : Context) : c.path.length = c.depth + 1 := by
  induction c with
  | root n l => rfl
  | child p n l ih => rw [path, List.length_append, ih]; rfl

theorem length_ancestry (c : Context) : c.ancestry.length = c.path.length := by
  induction c with
  | root n l => rfl
  | child p n l ih => rw [ancestry, path, List.length_append, List.length_append, ih]; rfl

theorem getLast?_ancestry (c : Context) : c.ancestry.getLast? = some c := by
  cases c with
  | root n l => rfl
  | child p n l => exact List.getLast?_concat

/-- **The ancestors have the prefixes of the path, the shortest first.** -/
theorem ancestry_path (c : Context) {i : Nat} (hi : i < c.path.length) :
    c.ancestry[i]?.map path = some (c.path.take (i + 1)) := by
  induction c with
  | root n l =>
    obtain rfl : i = 0 := Nat.lt_one_iff.mp hi
    rfl
  | child p n l ih =>
    have hlen := p.length_ancestry
    rw [ancestry]
    rw [path, List.length_append, List.length_singleton] at hi
    rcases Nat.lt_succ_iff_lt_or_eq.mp hi with hi | rfl
    · rw [List.getElem?_append_left (by omega), ih hi, path, List.take_append_of_le_length hi]
    · rw [← hlen, List.getElem?_concat_length, Option.map_some, hlen, List.take_of_length_le]
      rw [path, List.length_append, List.length_singleton]

theorem beq_iff {a b : Context} : (a == b) = true ↔ a.path = b.path :=
  same_iff

theorem path_prefix_singleton {a : Context} {n : String} : a.path <+: [n] ↔ [n] = a.path := by
  rw [← List.nil_append [n], List.prefix_concat_iff, List.prefix_nil, or_iff_left a.path_ne_nil]
  exact eq_comm

/-- **A context contains another one if its path is a prefix of the other path.**  Walking up,
nothing is missed by stopping above the context. -/
theorem contains_iff {a b : Context} : a.contains b = true ↔ a.path <+: b.path := by
  have hlen := a.length_path
  induction b with
  | root n l =>
    rw [contains]
    split
    · refine iff_of_false Bool.false_ne_true fun h => ?_
      have hle := h.length_le
      rw [path, List.length_singleton] at hle
      omega
    · exact beq_iff.trans path_prefix_singleton.symm
  | child p n l ih =>
    rw [contains]
    split
    · refine iff_of_false Bool.false_ne_true fun h => ?_
      have hle := h.length_le
      rw [path, List.length_append, p.length_path, List.length_singleton] at hle
      omega
    · rw [Bool.or_eq_true, path, List.prefix_concat_iff]
      exact or_congr (beq_iff.trans eq_comm) ih

theorem contains_eq_any (a b : Context) : a.contains b = b.ancestry.any (· == a) := by
  rw [Bool.eq_iff_iff, contains_iff]
  induction b with
  | root n l =>
    rw [ancestry, List.any_cons, List.any_nil, Bool.or_false, beq_iff]
    exact path_prefix_singleton
  | child p n l ih =>
    rw [ancestry, List.any_append, List.any_cons, List.any_nil, Bool.or_false, Bool.or_eq_true,
      path, List.prefix_concat_iff, or_comm, beq_iff]
    exact or_congr ih eq_comm

/-- Contexts with one path feed the same to every hasher. -/
theorem feed_congr {a b : Context} (h : a.path = b.path) {σ : Type} (hasher : Hasher σ) (s : σ) :
    a.feed hasher s = b.feed hasher s := by
  induction a generalizing b s with
  | root n l =>
    cases b with
    | root m k =>
      obtain rfl : n = m := List.singleton_inj.mp h
      rfl
    | child q m k => exact absurd (List.singleton_eq_append_iff.mp h) (by simp [q.path_ne_nil])
  | child p n l ih =>
    cases b with
    | root m k => exact absurd (List.append_eq_singleton_iff.mp h) (by simp [p.path_ne_nil])
    | child q m k =>
      obtain ⟨hp, rfl⟩ := append_singleton_inj.mp h
      exact ih hp _

end Context

/-! ### Nodes -/

/-- Nodes that are kept side by side: the parents of all are among them, their depths are those of
their contexts, and no two of them share an address. -/
structure SideBySide (xs : List Node) : Prop where
  parents : ∀ x ∈ xs, ∀ p, x.parent? = some p → p ∈ xs
  depth : ∀ x ∈ xs, x.depth = x.context.depth
  address : ∀ x ∈ xs, ∀ y ∈ xs, x.address = y.address → x = y

/-- A new node at a free address. -/
theorem SideBySide.add {xs : List Node} (h : SideBySide xs) {x : Node}
    (ha : ∀ y ∈ xs, y.address ≠ x.address) (hp : ∀ p, x.parent? = some p → p ∈ xs)
    (hd : x.depth = x.context.depth) : SideBySide (x :: xs) where
  parents := List.forall_mem_cons.mpr
    ⟨fun p k => List.mem_cons_of_mem _ (hp p k), fun y hy p k =>
      List.mem_cons_of_mem _ (h.parents y hy p k)⟩
  depth := List.forall_mem_cons.mpr ⟨hd, h.depth⟩
  address := by
    intro y hy z hz heq
    rcases List.mem_cons.mp hy with rfl | hold
    · rcases List.mem_cons.mp hz with rfl | hnew
      · rfl
      · exact absurd heq.symm (ha z hnew)
    · rcases List.mem_cons.mp hz with rfl | hnew
      · exact absurd heq (ha y hold)
      · exact h.address y hold z hnew heq

/-- **Nodes that are alive at one time are kept side by side.** -/
theorem Alive.sideBySide {xs : List Node} (h : Alive xs) : SideBySide xs := by
  induction h with
  | none => exact ⟨nofun, nofun, nofun⟩
  | root _ ha name location ih => exact ih.add ha nofun rfl
  | child _ hp ha name location ih =>
    refine ih.add ha (fun p k => ?_) (congrArg (· + 1) (ih.depth _ hp))
    cases k
    exact hp
  | drop _ hsub hp ih =>
    exact ⟨hp, fun x hx => ih.depth x (hsub hx),
      fun x hx y hy => ih.address x (hsub hx) y (hsub hy)⟩

namespace SideBySide

variable {xs : List Node} {x y : Node}

/-- **Nodes are the same if their contexts are.** -/
theorem same_eq (h : SideBySide xs) (hx : x ∈ xs) (hy : y ∈ xs) :
    x.same y = (x.context == y.context) := by
  induction x generalizing y with
  | root a n l =>
    by_cases ha : a = y.address
    · obtain rfl : .root a n l = y := h.address _ hx _ hy ha
      rw [Node.same, Bool.eq_iff_iff, Context.beq_iff]
      simp [Node.address]
    · rw [Node.same, beq_false_of_ne ha, Bool.false_or]
      cases y with
      | root b m k => exact (Bool.and_true _).trans (Bool.true_and _)
      | child b q m k e => exact Bool.and_false _
  | child a p n l d ih =>
    by_cases ha : a = y.address
    · obtain rfl : .child a p n l d = y := h.address _ hx _ hy ha
      rw [Node.same, Bool.eq_iff_iff, Context.beq_iff]
      simp [Node.address]
    · rw [Node.same, beq_false_of_ne ha, Bool.false_or]
      cases y with
      | root b m k => exact Bool.and_false _
      | child b q m k e =>
        have hp := h.parents _ hx _ rfl
        have hq := h.parents _ hy _ rfl
        have hd : d = p.context.depth + 1 := h.depth _ hx
        have he : e = q.context.depth + 1 := h.depth _ hy
        rw [Bool.eq_iff_iff]
        show (d == e && n == m && p.same q) = true ↔ (n == m && p.context == q.context) = true
        rw [ih hp hq, Bool.and_assoc, Bool.and_eq_true, and_iff_right_iff_imp, Bool.and_eq_true,
          Context.beq_iff]
        -- parents with one path are equally deep
        rintro ⟨-, hpath⟩
        have hlen := congrArg List.length hpath
        rw [Context.length_path, Context.length_path] at hlen
        exact beq_iff_eq.mpr (by omega)

theorem contains_eq (h : SideBySide xs) (hx : x ∈ xs) (hy : y ∈ xs) :
    x.contains y = x.context.contains y.context := by
  induction y with
  | root a n l => rw [Node.contains, h.same_eq hy hx, h.depth x hx]; rfl
  | child a p n l d ih =>
    have hd : d = p.context.depth + 1 := h.depth _ hy
    rw [Node.contains, h.same_eq hy hx, h.depth x hx, ih (h.parents _ hy _ rfl), hd]
    rfl

end SideBySide

namespace Node

theorem map_context_ancestry (x : Node) : x.ancestry.map context = x.context.ancestry := by
  induction x with
  | root a n l => rfl
  | child a p n l d ih =>
    rw [ancestry, climb, List.reverse_cons, List.map_append]
    exact congrArg (· ++ _) ih

theorem path_eq (x : Node) : x.path = x.context.path := by
  induction x with
  | root a n l => rfl
  | child a p n l d ih =>
    rw [path, climb, List.map_cons, List.reverse_cons]
    exact congrArg (· ++ _) ih

theorem getLast?_ancestry (x : Node) : x.ancestry.getLast? = some x := by
  rw [ancestry, List.getLast?_reverse]
  cases x <;> rfl

theorem feed_eq {σ : Type} (hasher : Hasher σ) (x : Node) (s : σ) :
    x.feed hasher s = x.context.feed hasher s := by
  induction x generalizing s with
  | root a n l => rfl
  | child a p n l d ih => exact ih _

end Node

/-- There is always a free address. -/
theorem exists_address (xs : List Node) : ∃ a, ∀ x ∈ xs, x.address ≠ a := by
  obtain ⟨a, ha⟩ := Infinite.exists_notMem_finset (xs.map Node.address).toFinset
  rw [List.mem_toFinset] at ha
  exact ⟨a, fun x hx heq => ha (heq ▸ List.mem_map_of_mem hx)⟩

/-- Every context can be kept next to what is kept already. -/
theorem Alive.keep {xs : List Node} (h : Alive xs) (c : Context) :
    ∃ ys, Alive ys ∧ xs ⊆ ys ∧ ∃ y ∈ ys, y.context = c := by
  induction c with
  | root n l =>
    obtain ⟨a, ha⟩ := exists_address xs
    exact ⟨_, h.root ha n l, List.subset_cons_self _ _, _, List.mem_cons_self, rfl⟩
  | child p n l ih =>
    obtain ⟨ys, hys, hsub, y, hy, rfl⟩ := ih
    obtain ⟨a, ha⟩ := exists_address ys
    exact ⟨_, hys.child hy ha n l, List.subset_cons_of_subset _ hsub, _, List.mem_cons_self, rfl⟩

/-! ### Identity -/

/-- **Contexts are known by their paths**, wherever they were declared and whichever nodes they
share.  They are the same if their paths are equal, and then they feed the same to every hasher.
The depth of a context is one less than the length of its path; its ancestors have the prefixes of
the path, and it is itself the last one.  It contains what its path is a prefix of, which is a
partial order, and the walk that stops at its depth finds it wherever it is among the ancestors.

Any two contexts can be kept at one time, and in whatever way the nodes of both have come about,
these give the answers of the contexts. -/
theorem Context.identified_by_path (a b : Context) :
    ((a == b) = true ↔ a.path = b.path) ∧
    ((a == b) = true → ∀ (σ : Type) (h : Hasher σ) (s : σ), a.feed h s = b.feed h s) ∧
    (a.depth = a.path.length - 1 ∧ a.ancestry.length = a.path.length ∧
      a.ancestry.getLast? = some a ∧
      ∀ i < a.path.length, a.ancestry[i]?.map path = some (a.path.take (i + 1))) ∧
    (a.contains b = true ↔ a.path <+: b.path) ∧ a.contains b = b.ancestry.any (· == a) ∧
    (a.contains a = true ∧ (a.contains b = true → b.contains a = true → (a == b) = true) ∧
      ∀ c, a.contains b = true → b.contains c = true → a.contains c = true) ∧
    (∃ xs, Alive xs ∧ ∃ x ∈ xs, ∃ y ∈ xs, x.context = a ∧ y.context = b) ∧
    ∀ xs, Alive xs → ∀ x ∈ xs, ∀ y ∈ xs, x.context = a → y.context = b →
      x.same y = (a == b) ∧ x.contains y = a.contains b ∧ x.depth = a.depth ∧ x.path = a.path ∧
        x.ancestry.map Node.context = a.ancestry ∧ x.ancestry.getLast? = some x ∧
        ∀ (σ : Type) (h : Hasher σ) (s : σ), x.feed h s = a.feed h s := by
  refine ⟨beq_iff, fun h σ hasher s => feed_congr (beq_iff.mp h) hasher s, ?_, contains_iff,
    contains_eq_any a b, ⟨?_, fun h k => ?_, fun c h k => ?_⟩, ?_, ?_⟩
  · exact ⟨by rw [length_path]; rfl, a.length_ancestry, a.getLast?_ancestry,
      fun i hi => a.ancestry_path hi⟩
  · exact contains_iff.mpr List.prefix_rfl
  · have hab := contains_iff.mp h
    have hba := contains_iff.mp k
    exact beq_iff.mpr (hab.eq_of_length_le hba.length_le)
  · exact contains_iff.mpr ((contains_iff.mp h).trans (contains_iff.mp k))
  · obtain ⟨xs, hxs, -, x, hx, hxa⟩ := Alive.none.keep a
    obtain ⟨ys, hys, hsub, y, hy, hyb⟩ := hxs.keep b
    exact ⟨ys, hys, x, hsub hx, y, hy, hxa, hyb⟩
  · rintro xs hxs x hx y hy rfl rfl
    have hk := hxs.sideBySide
    exact ⟨hk.same_eq hx hy, hk.contains_eq hx hy, hk.depth x hx, x.path_eq, x.map_context_ancestry,
      x.getLast?_ancestry, fun σ hasher s => x.feed_eq hasher s⟩

/-- The context `r` in a root of the same name, with nodes of its own. -/
def twinNode (address site : Nat) : Node :=
  .child (address + 1) (.root address "r" (.site site)) "r" (.site (site + 1)) 1

/-- Two contexts of one path that share no node and no site are the same. -/
theorem Context.identified_by_path_twins :
    Alive [twinNode 2 5, .root 2 "r" (.site 5), twinNode 0 3, .root 0 "r" (.site 3)] ∧
      (twinNode 0 3).same (twinNode 2 5) = ((twinNode 0 3).context == (twinNode 2 5).context) ∧
      (twinNode 0 3).contains (.root 2 "r" (.site 5)) = false ∧
      (((twinNode 0 3).context == (twinNode 2 5).context) = true ↔
        (twinNode 0 3).context.path = (twinNode 2 5).context.path) ∧
      (twinNode 0 3).context.path = (twinNode 2 5).context.path := by
  have hfirst := (Alive.none.root (a := 0) nofun "r" (.site 3)).child (a := 1) List.mem_cons_self
    (by decide) "r" (.site 4)
  have halive := (hfirst.root (a := 2) (by decide) "r" (.site 5)).child (a := 3) List.mem_cons_self
    (by decide) "r" (.site 6)
  obtain ⟨hiff, -, -, -, -, -, -, hnodes⟩ :=
    Context.identified_by_path (twinNode 0 3).context (twinNode 2 5).context
  obtain ⟨hsame, -⟩ := hnodes _ halive (twinNode 0 3)
    (List.mem_cons_of_mem _ (List.mem_cons_of_mem _ List.mem_cons_self)) (twinNode 2 5)
    List.mem_cons_self rfl rfl
  exact ⟨halive, hsame, by decide, hiff, rfl⟩

end TestTree

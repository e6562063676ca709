/-
How often the contexts of a plan are set up.

* `Plan.setups` : how often a scan sets up a context, itself or by the replays that it leaves;
* `Plan.idles` : the last visit of a context meets no test;
* `Plan.due` : one set-up for each test, and one more if the last visit meets none;
* `Plan.bill_eq` : **what a scan sets up, and what is due behind it, is what was due before**;
* `Plan.bill_of_mem` : what is due for a context of a plan is what is due for its own plan;
* `Plan.Busy.idles` : if every context declares tests, no visit of them meets none.

## Design notes

A visit that meets tests runs the first one directly and leaves each other one to a replay.  So every
set-up of a context, be it by a visit or by a replay, belongs to a test inside it, but for visits that
meet no test.  Such a visit leaves nothing, so it is the last one.
-/
import TestTree.Proofs.PlanReplay

namespace TestTree

namespace Plan

/-- The number of tests that are declared in a plan and inside it. -/
def testCount : Plan → Nat
  | stop _ => 0
  | test _ _ _ next => next.testCount + 1
  | pending _ _ next => next.testCount
  | context _ _ _ inner next => inner.testCount + next.testCount

theorem length_tests (p : Plan) : ∀ c, (p.tests c).length = p.testCount := by
  induction p with
  | stop e => intro c; rfl
  | test n site body next ih => intro c; exact congrArg Nat.succ (ih c)
  | pending n site next ih => intro c; exact ih c
  | context n site known inner next ihi ih =>
    intro c
    rw [tests, List.length_append, ihi, ih, testCount]

/-- All contexts inside, each with the plan of what it declares. -/
def inside (c : Context) : Plan → List (Context × Plan)
  | stop _ => []
  | test _ _ _ next => next.inside c
  | pending _ _ next => next.inside c
  | context n site _ inner next =>
    (.child c n site, inner) :: (inner.inside (.child c n site) ++ next.inside c)

/-- The path of a context inside goes through one of the names. -/
theorem through_inside {p i : Plan} {k : Context} : ∀ {c}, (k, i) ∈ p.inside c →
    ∃ n ∈ p.names, c.path ++ [n] <+: k.path := by
  induction p with
  | stop e => intro c hk; cases hk
  | test n site body next ih =>
    intro c hk
    obtain ⟨m, hm, hp⟩ := ih hk
    exact ⟨m, List.mem_cons_of_mem _ hm, hp⟩
  | pending n site next ih =>
    intro c hk
    obtain ⟨m, hm, hp⟩ := ih hk
    exact ⟨m, List.mem_cons_of_mem _ hm, hp⟩
  | context n site known inner next ihi ih =>
    intro c hk
    rw [inside, List.mem_cons, List.mem_append] at hk
    rcases hk with heq | hk | hk
    · cases heq
      exact ⟨n, List.mem_cons_self, List.prefix_rfl⟩
    · obtain ⟨m, -, hp⟩ := ihi hk
      exact ⟨n, List.mem_cons_self, (List.prefix_append _ _).trans hp⟩
    · obtain ⟨m, hm, hp⟩ := ih hk
      exact ⟨m, List.mem_cons_of_mem _ hm, hp⟩

/-! ### Visits -/

/-- Visits of a context go on as long as they leave something, and the last one meets no test. -/
def idles (p : Plan) : Bool :=
  if p.leaves false then (p.after false).idles else !p.runs false
termination_by p.size
decreasing_by exact size_after_lt_of_leaves ‹_›

theorem idles_of_leaves {p : Plan} (h : p.leaves false = true) : p.idles = (p.after false).idles := by
  rw [idles, if_pos h]

theorem idles_of_not_leaves {p : Plan} (h : p.leaves false = false) :
    p.idles = !p.runs false := by
  rw [idles, if_neg (by rw [h]; exact Bool.false_ne_true)]

/-- How often the builder of the context with the given path is entered on account of a scan of the
context `c`: by the scan, and by the replays that it leaves. -/
def setups (path : NamePath) (c : Context) : Plan → (ran : Bool) → Nat
  | stop _, _ => 0
  | test _ _ _ next, ran =>
    (if ran = true ∧ path <+: c.path then 1 else 0) + next.setups path c true
  | pending _ _ next, ran => next.setups path c ran
  | context n site _ inner next, ran =>
    (if ran then 0
      else (if c.path ++ [n] = path then 1 else 0) + inner.setups path (.child c n site) false)
    + next.setups path c (ran || inner.fails || inner.runs false)

theorem setups_andThen {p : Plan} (h : p.ending = .finished) (q : Plan) (path : NamePath)
    (c : Context) : ∀ ran,
    (p.andThen q).setups path c ran = p.setups path c ran + q.setups path c (p.runs ran) := by
  induction p with
  | stop e => rw [ending] at h; subst h; intro ran; exact (Nat.zero_add _).symm
  | test n site body next ih =>
    intro ran
    rw [andThen, setups, ih h, setups, runs, Nat.add_assoc]
  | pending n site next ih => intro ran; exact ih h ran
  | context n site known inner next _ ih =>
    intro ran
    rw [andThen, setups, ih h, setups, runs, Nat.add_assoc]

/-- How often a context is set up by all visits of it and the replays that they leave. -/
def due (p : Plan) : Nat :=
  p.testCount + p.idles.toNat

/-- How often the context with the given path is set up by all visits that are left, if it is inside
the context `c`. -/
def owed (path : NamePath) (c : Context) : Plan → Nat
  | stop _ => 0
  | test _ _ _ next => next.owed path c
  | pending _ _ next => next.owed path c
  | context n site _ inner next =>
    (if c.path ++ [n] = path then inner.due else inner.owed path (.child c n site))
    + next.owed path c

/-- How often the context with the given path is set up by all visits that are left, if it is the
context `c` or inside it. -/
def bill (path : NamePath) (c : Context) (p : Plan) : Nat :=
  if c.path = path then p.due else p.owed path c

/-! ### What is due -/

theorem Sound.fails {p : Plan} (h : p.Sound) : p.fails = false :=
  fails_eq_false.mpr h.ending

/-- No builder of a context inside fails. -/
theorem Sound.of_inside {p i : Plan} {k : Context} (h : p.Sound) : ∀ {c},
    (k, i) ∈ p.inside c → i.Sound := by
  induction p with
  | stop e => intro c hk; cases hk
  | test n site body next ih => intro c hk; exact ih h hk
  | pending n site next ih => intro c hk; exact ih h hk
  | context n site known inner next ihi ih =>
    intro c hk
    rw [inside, List.mem_cons, List.mem_append] at hk
    rcases hk with heq | hk | hk
    · cases heq
      exact h.1
    · exact ihi h.1 hk
    · exact ih h.2 hk

theorem Sound.of_mem {p i : Plan} {c k : Context} (h : p.Sound)
    (hk : (k, i) ∈ (c, p) :: p.inside c) : i.Sound := by
  rcases List.mem_cons.mp hk with heq | hk
  · cases heq
    exact h
  · exact h.of_inside hk

/-- A scan of a sound plan meets the tests that are declared in it. -/
theorem Sound.runs_eq {p : Plan} (h : p.Sound) :
    ∀ ran, p.runs ran = (ran || decide (0 < p.testCount)) := by
  induction p with
  | stop e => intro ran; simp [runs, testCount]
  | test n site body next ih => intro ran; simp [runs, testCount]
  | pending n site next ih => intro ran; exact ih h ran
  | context n site known inner next ihi ih =>
    intro ran
    rw [runs, h.1.fails, ih h.2, ihi h.1, testCount, Bool.or_false, Bool.false_or, Bool.or_assoc,
      ← Bool.decide_or]
    congr 2
    exact propext (by omega)

theorem Sound.testCount_after {n : String} {site : Location} {known : Bool} {inner next : Plan}
    (h : inner.Sound) : ((context n site known inner next).after false).testCount
      = (inner.after false).testCount + (next.after (inner.runs false)).testCount := by
  rcases hl : inner.leaves false with _ | _
  · -- a context that is finished holds no test any more
    rw [after_done (.inr hl), h.fails, Bool.false_or, after_of_not_leaves inner hl]
    exact (Nat.zero_add _).symm
  · rw [after_open h.fails hl]
    rfl

theorem Sound.owed_after {path : NamePath} {c : Context} {n : String} {site : Location}
    {known : Bool} {inner next : Plan} (h : inner.Sound) :
    ((context n site known inner next).after false).owed path c
      = (if c.path ++ [n] = path then if inner.leaves false then (inner.after false).due else 0
          else (inner.after false).owed path (.child c n site))
        + (next.after (inner.runs false)).owed path c := by
  rcases hl : inner.leaves false with _ | _
  · rw [after_done (.inr hl), h.fails, Bool.false_or, after_of_not_leaves inner hl]
    simp [owed]
  · rw [after_open h.fails hl]
    rfl

/-- A child lies below its parent. -/
theorem child_ne {path ext : NamePath} {n : String} (h : path <+: ext) : ext ++ [n] ≠ path := by
  intro heq
  have hle := h.length_le
  rw [← heq, List.length_append, List.length_singleton] at hle
  omega

section Path

variable {path : NamePath} {c : Context} {p i : Plan}

/-- **For a context around it, a scan leaves each test that it meets to a replay, but for the first
one of its pass.** -/
theorem Sound.setups_around (h : p.Sound) : ∀ {c : Context} (ran : Bool), path <+: c.path →
    p.setups path c ran + (p.after ran).testCount + (p.runs ran).toNat
      = p.testCount + ran.toNat := by
  induction p with
  | stop e => intro c ran _; rfl
  | test n site body next ih =>
    intro c ran hp
    have hn := ih h true hp
    cases ran with
    | true =>
      rw [setups, if_pos ⟨rfl, hp⟩, testCount]
      show _ + (next.after true).testCount + (next.runs true).toNat = _
      omega
    | false =>
      rw [setups, if_neg (fun hr => Bool.false_ne_true hr.1), testCount]
      show _ + (next.after true).testCount + (next.runs true).toNat = _
      rw [Bool.toNat_true] at hn
      rw [Bool.toNat_false]
      omega
  | pending n site next ih => intro c ran hp; exact ih h ran hp
  | context n site known inner next ihi ih =>
    intro c ran hp
    rw [setups, runs, h.1.fails, Bool.or_false, testCount]
    cases ran with
    | true =>
      have hn := ih h.2 true hp
      rw [after_skipped, testCount, Bool.true_or, if_pos rfl]
      omega
    | false =>
      -- what is met inside counts as met for the contexts behind
      have hi := ihi h.1 (c := .child c n site) false (hp.trans (List.prefix_append _ _))
      have hn := ih h.2 (inner.runs false) hp
      rw [h.1.testCount_after, Bool.false_or, if_neg Bool.false_ne_true, if_neg (child_ne hp)]
      rw [Bool.toNat_false] at hi ⊢
      omega

/-- **A visit of a context is a set-up of it, and what is left is due to the visits behind it.** -/
theorem Sound.due_eq (h : p.Sound) (c : Context) : 1 + p.setups c.path c false
    + (if p.leaves false then (p.after false).due else 0) = p.due := by
  have hall := h.setups_around (c := c) false List.prefix_rfl
  rw [Bool.toNat_false] at hall
  rcases hl : p.leaves false with _ | _
  · -- the last visit: it leaves no test, and if it meets none there is one set-up more than tests
    rw [after_of_not_leaves p hl, testCount] at hall
    rw [if_neg Bool.false_ne_true, due, idles_of_not_leaves hl]
    cases hr : p.runs false with
    | true =>
      rw [hr, Bool.toNat_true] at hall
      rw [Bool.not_true, Bool.toNat_false]
      omega
    | false =>
      rw [hr, Bool.toNat_false] at hall
      rw [Bool.not_false, Bool.toNat_true]
      omega
  · have hruns : p.runs false = true := by
      by_contra hr
      rw [Bool.not_eq_true] at hr
      rw [leaves_of_not_runs p hr] at hl
      cases hl
    rw [hruns, Bool.toNat_true] at hall
    rw [if_pos rfl, due, due, idles_of_leaves hl]
    omega

/-- A scan of a context that is not on the way to the path, and what is left of it. -/
theorem Sound.owed_eq (h : p.Sound) : ∀ {c : Context} (ran : Bool), ¬ path <+: c.path →
    p.setups path c ran + (p.after ran).owed path c = p.owed path c := by
  induction p with
  | stop e => intro c ran _; rfl
  | test n site body next ih =>
    intro c ran hp
    have hn := ih h true hp
    rw [setups, if_neg fun hr => hp hr.2, Nat.zero_add]
    exact hn
  | pending n site next ih => intro c ran hp; exact ih h ran hp
  | context n site known inner next ihi ih =>
    intro c ran hp
    rw [setups, h.1.fails, Bool.or_false, owed]
    cases ran with
    | true =>
      have hn := ih h.2 true hp
      rw [after_skipped, owed, if_pos rfl, Bool.true_or]
      omega
    | false =>
      have hn := ih h.2 (inner.runs false) hp
      rw [h.1.owed_after, Bool.false_or, if_neg Bool.false_ne_true]
      by_cases heq : c.path ++ [n] = path
      · -- the context itself
        subst heq
        have hi := h.1.due_eq (.child c n site)
        rw [if_pos rfl, if_pos rfl, if_pos rfl]
        rw [Context.path_child] at hi
        omega
      · -- another one, which may be around the context
        have hi := ihi h.1 (c := .child c n site) false fun hpc => by
          rcases List.prefix_concat_iff.mp hpc with hpc | hpc
          · exact heq hpc.symm
          · exact hp hpc
        rw [if_neg heq, if_neg heq, if_neg heq]
        omega

/-- **What a scan sets up, and what is due behind it, is what was due before.** -/
theorem Sound.bill_eq (h : p.Sound) (hp : path <+: c.path → c.path = path) :
    (if c.path = path then 1 else 0) + p.setups path c false
      + (if p.leaves false then (p.after false).bill path c else 0) = p.bill path c := by
  by_cases heq : c.path = path
  · subst heq
    have hdue := h.due_eq c
    rw [if_pos rfl, bill, if_pos rfl, bill, if_pos rfl]
    exact hdue
  · have howed := h.owed_eq false fun hpc => heq (hp hpc)
    rw [if_neg heq, bill, if_neg heq, bill, if_neg heq]
    rcases hl : p.leaves false with _ | _
    · rw [after_of_not_leaves p hl, owed] at howed
      rw [if_neg Bool.false_ne_true]
      omega
    · rw [if_pos rfl]
      omega

/-! ### What is due for one context -/

/-- Nothing is owed to a context that none of the names leads to. -/
theorem owed_eq_zero : ∀ {c : Context}, (∀ n ∈ p.names, ¬ c.path ++ [n] <+: path) →
    p.owed path c = 0 := by
  induction p with
  | stop e => intro c _; rfl
  | test n site body next ih => intro c hp; exact ih fun m hm => hp m (List.mem_cons_of_mem _ hm)
  | pending n site next ih => intro c hp; exact ih fun m hm => hp m (List.mem_cons_of_mem _ hm)
  | context n site known inner next ihi ih =>
    intro c hp
    have hn := hp n List.mem_cons_self
    have hne : c.path ++ [n] ≠ path := fun heq => hn (heq ▸ List.prefix_rfl)
    rw [owed, if_neg hne, ihi fun m _ hm => hn ((List.prefix_append _ _).trans hm),
      ih fun m hm => hp m (List.mem_cons_of_mem _ hm)]

/-- With siblings of different names, what is owed to a context is due to its own plan. -/
theorem Distinct.owed_of_mem {k : Context} (h : p.Distinct) : ∀ {c : Context},
    (k, i) ∈ p.inside c → p.owed k.path c = i.due := by
  induction p with
  | stop e => intro c hk; cases hk
  | test n site body next ih => intro c hk; exact ih h.2 hk
  | pending n site next ih => intro c hk; exact ih h.2 hk
  | context n site known inner next ihi ih =>
    intro c hk
    obtain ⟨hn, hinner, hnext⟩ := h
    -- what is declared behind the context does not go through its name
    have hother : c.path ++ [n] <+: k.path → next.owed k.path c = 0 := fun hp =>
      owed_eq_zero fun m hm => Pass.not_prefix_of_ne (fun hmn : m = n => hn (hmn ▸ hm)) hp
    rw [inside, List.mem_cons, List.mem_append] at hk
    rw [owed]
    rcases hk with heq | hk | hk
    · cases heq
      rw [Context.path_child, if_pos rfl, ← Context.path_child, hother List.prefix_rfl]
      rfl
    · obtain ⟨m, -, hp⟩ := through_inside hk
      have hway : c.path ++ [n] <+: k.path := (List.prefix_append _ _).trans hp
      have hne : c.path ++ [n] ≠ k.path := (Pass.ne_of_longer hp).symm
      rw [if_neg hne, ihi hinner hk, hother hway]
      rfl
    · obtain ⟨m, hm, hp⟩ := through_inside hk
      have hout : ¬ c.path ++ [n] <+: k.path :=
        Pass.not_prefix_of_ne (fun hnm : n = m => hn (hnm ▸ hm)) hp
      have hne : c.path ++ [n] ≠ k.path := fun heq => hout (heq ▸ List.prefix_rfl)
      rw [if_neg hne, owed_eq_zero fun l _ hl => hout ((List.prefix_append _ _).trans hl), ih hnext hk,
        Nat.zero_add]

/-- **What is due for a context of a plan is what is due for its own plan.** -/
theorem Distinct.bill_of_mem {k : Context} (h : p.Distinct)
    (hk : (k, i) ∈ (c, p) :: p.inside c) : p.bill k.path c = i.due := by
  rcases List.mem_cons.mp hk with heq | hk
  · cases heq
    exact if_pos rfl
  · obtain ⟨n, -, hp⟩ := through_inside hk
    rw [bill, if_neg (Pass.ne_of_longer hp).symm, h.owed_of_mem hk]

end Path

/-! ### Plans in which every context declares tests -/

/-- Tests are declared in every context inside, in itself or inside it. -/
def Busy : Plan → Prop
  | stop _ => True
  | test _ _ _ next => next.Busy
  | pending _ _ next => next.Busy
  | context _ _ _ inner next => 0 < inner.testCount ∧ inner.Busy ∧ next.Busy

/-- What is left of such a plan holds tests. -/
theorem Busy.testCount_after {p : Plan} (h : p.Busy) (hs : p.Sound) : ∀ ran,
    p.leaves ran = true → 0 < (p.after ran).testCount := by
  induction p with
  | stop e => intro ran hl; cases hl
  | test n site body next ih => intro ran hl; exact ih h hs true hl
  | pending n site next ih => intro ran hl; exact ih h hs ran hl
  | context n site known inner next ihi ih =>
    intro ran hl
    obtain ⟨htests, hi, hn⟩ := h
    cases ran with
    | true =>
      rw [after_skipped, testCount]
      omega
    | false =>
      rw [hs.1.testCount_after]
      rw [leaves, hs.1.fails, Bool.not_false, Bool.true_and, Bool.false_or, Bool.false_or,
        Bool.false_or, Bool.or_eq_true] at hl
      rcases hl with hl | hl
      · have := ihi hi hs.1 false hl
        omega
      · have := ih hn hs.2 _ hl
        omega

theorem Busy.after {p : Plan} (h : p.Busy) (hs : p.Sound) : ∀ ran, (p.after ran).Busy := by
  induction p with
  | stop e => intro ran; trivial
  | test n site body next ih => intro ran; exact ih h hs true
  | pending n site next ih => intro ran; exact ih h hs ran
  | context n site known inner next ihi ih =>
    intro ran
    obtain ⟨htests, hi, hn⟩ := h
    cases ran with
    | true =>
      rw [after_skipped]
      exact ⟨htests, hi, ih hn hs.2 true⟩
    | false =>
      rcases hl : inner.leaves false with _ | _
      · rw [after_done (.inr hl)]
        exact ih hn hs.2 _
      · rw [after_open hs.1.fails hl]
        exact ⟨hi.testCount_after hs.1 false hl, ihi hi hs.1 false, ih hn hs.2 _⟩

/-- **Where every context declares tests, every visit meets one.**  By induction on what is left. -/
theorem Busy.idles {p : Plan} (h : p.Busy) (hs : p.Sound) (ht : 0 < p.testCount) :
    p.idles = false := by
  induction hn : p.size using Nat.strong_induction_on generalizing p with
  | h n ih =>
    rcases hl : p.leaves false with _ | _
    · rw [idles_of_not_leaves hl, hs.runs_eq, decide_eq_true ht]
      rfl
    · rw [idles_of_leaves hl]
      have hsize := size_after_lt_of_leaves hl
      exact ih _ (hn ▸ hsize) (h.after hs false) (hs.after false) (h.testCount_after hs false hl) rfl

/-- A context that follows a test and declares none takes a visit of its own. -/
example : (test "t" (.site 1) .done <| context "c" (.site 2) false (stop .finished) <|
    stop .finished).idles = true := by
  rw [idles_of_leaves rfl, idles_of_not_leaves rfl]
  rfl

end Plan

end TestTree

/-
Plans: what a builder declares, and what passes over it find.

* `Plan` : declarations of a context in order, with how its builder ends;
* `Builder.Declares` : a builder declares a plan whatever its variables hold;
* `Plan.first`, `Plan.rest` : what a first scan of a context finds, and what is found behind it;
* `Plan.after`, `Plan.leaves` : the plan that one pass leaves for the next, and whether it does;
* `Plan.rest_eq` : what is found behind a pass is found by the next pass and behind that;
* `Plan.Sound.contexts_found` : contexts are entered in the order of their declaration;
* `Builder.Declares.size_le` : a builder has at least as many declarations as its plan.

## Design notes

A scan carries one flag, `ran`: a test was met before in this context, or in a context that was
entered from it.  From then on contexts are skipped.  The plan that a pass leaves is again a plan,
in which the contexts that were entered are marked as `known`; so one description of a pass serves
all of them.
-/
import Mathlib.Tactic.ByContra
import TestTree.Proofs.Frames

namespace TestTree

/-- The declarations of a context in order, and how its builder ends.  A `known` context has been
entered by an earlier pass. -/
inductive Plan where
  | stop (ending : Ending Cause)
  | test (name : String) (site : Location) (body : Body) (next : Plan)
  | pending (name : String) (site : Location) (next : Plan)
  | context (name : String) (site : Location) (known : Bool) (inner next : Plan)
  deriving Inhabited

/-- Something that discovery finds. -/
inductive Finding where
  /-- A context is entered for the first time. -/
  | context (node : Context)
  | test (test : Description) (body : Body)
  | pending (test : Description)
  /-- A context failed, and became a test. -/
  | failed (test : Description) (cause : Cause)
  deriving Inhabited

namespace Finding

/-- The test that is listed for a finding; an entered context is none. -/
def test? : Finding → Option Description
  | context _ => none
  | test d _ => some d
  | pending d => some d
  | failed d _ => some d

/-- The context that a finding enters. -/
def context? : Finding → Option Context
  | context c => some c
  | _ => none

end Finding

namespace Plan

/-- One plan behind another; nothing comes behind a failure. -/
def andThen : Plan → Plan → Plan
  | stop .finished, q => q
  | stop e, _ => stop e
  | test n site body next, q => test n site body (next.andThen q)
  | pending n site next, q => pending n site (next.andThen q)
  | context n site known inner next, q => context n site known inner (next.andThen q)

/-- How the builder ends. -/
def ending : Plan → Ending Cause
  | stop e => e
  | test _ _ _ next => next.ending
  | pending _ _ next => next.ending
  | context _ _ _ _ next => next.ending

/-- The cause of a builder that ends in an ordinary error or a panic. -/
def failure? (p : Plan) : Option Cause :=
  match p.ending with
  | .finished => none
  | .failed c => some c
  | .panicked x => some x.toCause

/-- The builder ends in an error or a panic. -/
def fails (p : Plan) : Bool :=
  p.failure?.isSome

/-- The names declared directly in the context. -/
def names : Plan → List String
  | stop _ => []
  | test n _ _ next => n :: next.names
  | pending n _ next => n :: next.names
  | context n _ _ _ next => n :: next.names

/-- Siblings have different names, here and in all contexts inside. -/
def Distinct : Plan → Prop
  | stop _ => True
  | test n _ _ next => n ∉ next.names ∧ next.Distinct
  | pending n _ next => n ∉ next.names ∧ next.Distinct
  | context n _ _ inner next => n ∉ next.names ∧ inner.Distinct ∧ next.Distinct

/-- No builder fails, neither this one nor one inside. -/
def Sound : Plan → Prop
  | stop e => e = .finished
  | test _ _ _ next => next.Sound
  | pending _ _ next => next.Sound
  | context _ _ _ inner next => inner.Sound ∧ next.Sound

/-- The listener does not panic at what discovery tells it: pending tests and failed contexts. -/
def CalmFor (l : Listener) (c : Context) : Plan → Prop
  | stop _ => True
  | test _ _ _ next => next.CalmFor l c
  | pending n site next => l.panic? (.finished ⟨⟨c, n, site⟩, .pending⟩) = none ∧ next.CalmFor l c
  | context n site _ inner next =>
    (inner.fails = true → ∀ f, l.panic? (.finished ⟨⟨c, n, site⟩, .failed f⟩) = none)
      ∧ inner.CalmFor l (.child c n site) ∧ next.CalmFor l c

/-- The number of declarations, inner ones included. -/
def size : Plan → Nat
  | stop _ => 0
  | test _ _ _ next => next.size + 1
  | pending _ _ next => next.size + 1
  | context _ _ _ inner next => inner.size + next.size + 1

theorem calmFor_of_calm {l : Listener} (h : l.Calm) (p : Plan) : ∀ c, p.CalmFor l c := by
  induction p with
  | stop e => intro c; trivial
  | test n site body next ih => intro c; exact ih c
  | pending n site next ih => intro c; exact ⟨h _, ih c⟩
  | context n site known inner next ihi ih => intro c; exact ⟨fun _ _ => h _, ihi _, ih c⟩

/-! ### One pass -/

/-- The flag behind a scan that begins with the flag `ran`. -/
def runs : Plan → (ran : Bool) → Bool
  | stop _, ran => ran
  | test _ _ _ next, _ => next.runs true
  | pending _ _ next, ran => next.runs ran
  | context _ _ _ inner next, ran => next.runs (ran || inner.fails || inner.runs false)

/-- What the first scan of a sub-context finds, from what is found inside: the context itself comes
first, and if its builder fails a test of its name comes last. -/
def opening (parent : Context) (name : String) (site : Location) (known : Bool) (inner : Plan)
    (inside : List Finding) : List Finding :=
  (if known then [] else [.context (.child parent name site)]) ++ inside
    ++ (inner.failure?.map (.failed ⟨parent, name, site⟩)).toList

/-- What a scan of the context `c` finds. -/
def first (c : Context) : Plan → (ran : Bool) → List Finding
  | stop _, _ => []
  | test n site body next, _ => .test ⟨c, n, site⟩ body :: next.first c true
  | pending n site next, ran => .pending ⟨c, n, site⟩ :: next.first c ran
  | context n site known inner next, ran =>
    (if ran then []
      else opening c n site known inner (inner.first (.child c n site) false))
    ++ next.first c (ran || inner.fails || inner.runs false)

/-- What later passes find in the sub-contexts of `c`: in one that was skipped everything, in one
that was entered its own rest, and in one that failed nothing more. -/
def rest (c : Context) : Plan → (ran : Bool) → List Finding
  | stop _, _ => []
  | test _ _ _ next, _ => next.rest c true
  | pending _ _ next, ran => next.rest c ran
  | context n site known inner next, ran =>
    (if ran then opening c n site known inner (inner.first (.child c n site) false) else [])
    ++ (if inner.fails then [] else inner.rest (.child c n site) false)
    ++ next.rest c (ran || inner.fails || inner.runs false)

/-- A scan leaves contexts for another pass. -/
def leaves : Plan → (ran : Bool) → Bool
  | stop _, _ => false
  | test _ _ _ next, _ => next.leaves true
  | pending _ _ next, ran => next.leaves ran
  | context _ _ _ inner next, ran =>
    ran || (!inner.fails && inner.leaves false)
      || next.leaves (ran || inner.fails || inner.runs false)

/-- What is left to be found behind a scan. -/
def after : Plan → (ran : Bool) → Plan
  | stop e, _ => stop e
  | test _ _ _ next, _ => next.after true
  | pending _ _ next, ran => next.after ran
  | context n site known inner next, ran =>
    let others := next.after (ran || inner.fails || inner.runs false)
    if ran then context n site known inner others
    else if inner.fails || !inner.leaves false then others
    else context n site true (inner.after false) others

/-- The contexts that a scan finishes, inner ones first. -/
def closed (c : Context) : Plan → (ran : Bool) → List Context
  | stop _, _ => []
  | test _ _ _ next, _ => next.closed c true
  | pending _ _ next, ran => next.closed c ran
  | context n site _ inner next, ran =>
    (if ran then [] else inner.closed (.child c n site) false
      ++ if inner.fails || inner.leaves false then [] else [.child c n site])
    ++ next.closed c (ran || inner.fails || inner.runs false)

/-- All contexts inside, in the order of declaration, outer ones first. -/
def contexts (c : Context) : Plan → List Context
  | stop _ => []
  | test _ _ _ next => next.contexts c
  | pending _ _ next => next.contexts c
  | context n site _ inner next =>
    .child c n site :: (inner.contexts (.child c n site) ++ next.contexts c)

/-- The contexts inside that no pass has entered yet. -/
def newContexts (c : Context) : Plan → List Context
  | stop _ => []
  | test _ _ _ next => next.newContexts c
  | pending _ _ next => next.newContexts c
  | context n site known inner next =>
    (if known then [] else [.child c n site]) ++ inner.newContexts (.child c n site)
      ++ next.newContexts c

/-! ### Ends and flags -/

section Context

variable {n : String} {site : Location} {known : Bool} {inner next : Plan}

theorem after_skipped :
    (context n site known inner next).after true
      = context n site known inner (next.after true) := by
  simp [after]

/-- A context that failed, or in which nothing was left, is done with. -/
theorem after_done (h : inner.fails = true ∨ inner.leaves false = false) :
    (context n site known inner next).after false
      = next.after (inner.fails || inner.runs false) := by
  rcases h with h | h <;> simp [after, h]

/-- A context in which something was left has been entered. -/
theorem after_open (hf : inner.fails = false) (hl : inner.leaves false = true) :
    (context n site known inner next).after false
      = context n site true (inner.after false) (next.after (inner.runs false)) := by
  simp [after, hf, hl]

end Context

@[simp] theorem ending_after (p : Plan) : ∀ ran, (p.after ran).ending = p.ending := by
  induction p with
  | stop e => intro ran; rfl
  | test n site body next ih => intro ran; exact ih true
  | pending n site next ih => intro ran; exact ih ran
  | context n site known inner next _ ih =>
    intro ran
    simp only [after]
    split
    · exact ih _
    · split
      · exact ih _
      · exact ih _

@[simp] theorem failure?_after (p : Plan) (ran : Bool) : (p.after ran).failure? = p.failure? := by
  rw [failure?, ending_after, failure?]

@[simp] theorem fails_after (p : Plan) (ran : Bool) : (p.after ran).fails = p.fails := by
  rw [fails, failure?_after, fails]

theorem failure?_eq_none {p : Plan} : p.failure? = none ↔ p.ending = .finished := by
  rw [failure?]
  cases p.ending <;> simp

theorem fails_eq_false {p : Plan} : p.fails = false ↔ p.ending = .finished := by
  rw [fails, ← failure?_eq_none, Option.isSome_eq_false_iff, Option.isNone_iff_eq_none]

theorem Sound.ending {p : Plan} (h : p.Sound) : p.ending = .finished := by
  induction p with
  | stop e => exact h
  | test n site body next ih => exact ih h
  | pending n site next ih => exact ih h
  | context n site known inner next _ ih => exact ih h.2

@[simp] theorem runs_true (p : Plan) : p.runs true = true := by
  induction p with
  | stop e => rfl
  | test n site body next ih => exact ih
  | pending n site next ih => exact ih
  | context n site known inner next _ ih => simpa [runs] using ih

/-- A scan that met no test has skipped nothing. -/
theorem leaves_of_not_runs (p : Plan) : ∀ {ran}, p.runs ran = false → p.leaves ran = false := by
  induction p with
  | stop e => intro ran _; rfl
  | test n site body next ih => intro ran h; simp [runs] at h
  | pending n site next ih => intro ran h; exact ih h
  | context n site known inner next ihi ih =>
    intro ran h
    rcases ran with _ | _
    · -- no test was met, so the context neither failed nor ran one
      have hskip : (inner.fails || inner.runs false) = false := by
        by_contra hc
        rw [Bool.not_eq_false] at hc
        simp [runs, hc] at h
      have hi : inner.leaves false = false := ihi (Bool.or_eq_false_iff.mp hskip).2
      have hn : next.leaves false = false := by
        apply ih
        simpa [runs, hskip] using h
      simp [leaves, hi, hskip, hn]
    · simp at h

theorem rest_of_not_leaves (p : Plan) :
    ∀ {c ran}, p.leaves ran = false → p.rest c ran = [] := by
  induction p with
  | stop e => intro c ran _; rfl
  | test n site body next ih => intro c ran h; exact ih h
  | pending n site next ih => intro c ran h; exact ih h
  | context n site known inner next ihi ih =>
    intro c ran h
    simp only [leaves, Bool.or_eq_false_iff] at h
    obtain ⟨⟨rfl, hi⟩, hn⟩ := h
    rw [rest, ih hn]
    by_cases hf : inner.fails
    · simp [hf]
    · have hl : inner.leaves false = false := by simpa [hf] using hi
      simp [hf, ihi hl]

theorem after_of_not_leaves (p : Plan) :
    ∀ {ran}, p.leaves ran = false → p.after ran = stop p.ending := by
  induction p with
  | stop e => intro ran _; rfl
  | test n site body next ih => intro ran h; exact ih h
  | pending n site next ih => intro ran h; exact ih h
  | context n site known inner next _ ih =>
    intro ran h
    simp only [leaves, Bool.or_eq_false_iff] at h
    obtain ⟨⟨rfl, hi⟩, hn⟩ := h
    have hdone : inner.fails = true ∨ inner.leaves false = false := by
      cases hf : inner.fails
      · exact .inr (by simpa [hf] using hi)
      · exact .inl rfl
    rw [after_done hdone]
    exact ih hn

/-! ### Passes behind each other -/

/-- No tests are left, neither pending ones: what is left are contexts. -/
def OnlyContexts : Plan → Prop
  | stop _ => True
  | test _ _ _ _ => False
  | pending _ _ _ => False
  | context _ _ _ _ next => next.OnlyContexts

theorem onlyContexts_after (p : Plan) : ∀ ran, (p.after ran).OnlyContexts := by
  induction p with
  | stop e => intro ran; trivial
  | test n site body next ih => intro ran; exact ih true
  | pending n site next ih => intro ran; exact ih ran
  | context n site known inner next _ ih =>
    intro ran
    simp only [after]
    split
    · exact ih _
    · split
      · exact ih _
      · exact ih _

/-- A scan that begins behind a test finds nothing in contexts. -/
theorem first_true {p : Plan} (c : Context) (h : p.OnlyContexts) : p.first c true = [] := by
  induction p with
  | stop e => rfl
  | test n site body next => exact absurd h id
  | pending n site next => exact absurd h id
  | context n site known inner next _ ih => simpa [first] using ih h

/-- Contexts that are all skipped are found by the next scan and behind it. -/
theorem rest_true {p : Plan} (c : Context) (h : p.OnlyContexts) :
    p.rest c true = p.first c false ++ p.rest c false := by
  induction p with
  | stop e => rfl
  | test n site body next => exact absurd h id
  | pending n site next => exact absurd h id
  | context n site known inner next _ ih =>
    have hn : next.OnlyContexts := h
    simp only [rest, first, Bool.true_or, Bool.false_or, if_pos, Bool.false_eq_true, if_false,
      List.nil_append]
    by_cases hr : (inner.fails || inner.runs false) = true
    · rw [hr, first_true c hn]
      simp
    · -- nothing ran in the first context, so nothing of it is left
      rw [Bool.not_eq_true] at hr
      obtain ⟨hf, hi⟩ := Bool.or_eq_false_iff.mp hr
      rw [hr, ih hn, rest_of_not_leaves inner (leaves_of_not_runs inner hi)]
      simp

/-- What is found behind a scan depends only on the plan that the scan leaves. -/
theorem rest_eq_rest_after (p : Plan) :
    ∀ c ran, p.rest c ran = (p.after ran).rest c true := by
  induction p with
  | stop e => intro c ran; rfl
  | test n site body next ih => intro c ran; exact ih c true
  | pending n site next ih => intro c ran; exact ih c ran
  | context n site known inner next ihi ih =>
    intro c ran
    rw [rest, ih c _]
    rcases ran with _ | _
    · by_cases hf : inner.fails = true
      · -- a context that failed is not entered again
        rw [after_done (.inl hf)]
        simp [hf]
      · rw [Bool.not_eq_true] at hf
        rcases hl : inner.leaves false with _ | _
        · rw [after_done (.inr hl), rest_of_not_leaves inner hl]
          simp
        · -- its rest is found by the scan that enters it again, and behind that
          have hi : inner.rest (.child c n site) false =
              (inner.after false).first (.child c n site) false
                ++ (inner.after false).rest (.child c n site) false := by
            rw [ihi, rest_true _ (onlyContexts_after inner false)]
          have hfa : (inner.after false).failure? = none := by
            rw [failure?_after, failure?_eq_none, ← fails_eq_false]
            exact hf
          rw [after_open hf hl, rest]
          simp [hf, hi, opening, hfa]
    · -- a context that was skipped is left as a whole
      rw [after_skipped, rest]
      simp

/-- **What is found behind a pass is found by the next pass and behind that.** -/
theorem rest_eq (p : Plan) (c : Context) (ran : Bool) :
    p.rest c ran = (p.after ran).first c false ++ (p.after ran).rest c false := by
  rw [rest_eq_rest_after, rest_true c (onlyContexts_after p ran)]

theorem size_after_le (p : Plan) : ∀ ran, (p.after ran).size ≤ p.size := by
  induction p with
  | stop e => intro ran; exact Nat.le_refl _
  | test n site body next ih => intro ran; exact Nat.le_succ_of_le (ih true)
  | pending n site next ih => intro ran; exact Nat.le_succ_of_le (ih ran)
  | context n site known inner next ihi ih =>
    intro ran
    have hn := ih (ran || inner.fails || inner.runs false)
    have hi := ihi false
    simp only [after]
    split
    · simp only [size]; omega
    · split
      · simp only [size]; omega
      · simp only [size]; omega

/-- A pass that meets a test leaves less than it found. -/
theorem size_after_lt (p : Plan) : p.runs false = true → (p.after false).size < p.size := by
  induction p with
  | stop e => intro h; exact absurd h (by simp [runs])
  | test n site body next ih => intro _; exact Nat.lt_succ_of_le (size_after_le next true)
  | pending n site next ih => intro h; exact Nat.lt_succ_of_lt (ih h)
  | context n site known inner next ihi ih =>
    intro h
    have hn := size_after_le next (inner.fails || inner.runs false)
    simp only [after, Bool.false_or, Bool.false_eq_true, if_false]
    split
    · simp only [size]; omega
    · rename_i hleft
      -- what was left in the context was left behind a test
      have hi : (inner.after false).size < inner.size := by
        apply ihi
        by_contra hc
        rw [Bool.not_eq_true] at hc
        simp [leaves_of_not_runs inner hc] at hleft
      simp only [size]; omega

/-- A pass that leaves contexts has met a test. -/
theorem size_after_lt_of_leaves {p : Plan} (h : p.leaves false = true) :
    (p.after false).size < p.size := by
  refine size_after_lt p ?_
  by_contra hc
  rw [Bool.not_eq_true] at hc
  rw [leaves_of_not_runs p hc] at h
  cases h

/-! ### Plans behind each other -/

theorem context_andThen (n : String) (site : Location) (known : Bool) (inner next q : Plan) :
    (context n site known inner next).andThen q = context n site known inner (next.andThen q) :=
  rfl

section AndThen

variable {p : Plan} (h : p.ending = .finished) (q : Plan)
include h

theorem names_andThen : (p.andThen q).names = p.names ++ q.names := by
  induction p with
  | stop e => obtain rfl : e = .finished := h; rfl
  | test n site body next ih => exact congrArg (n :: ·) (ih h)
  | pending n site next ih => exact congrArg (n :: ·) (ih h)
  | context n site known inner next _ ih => exact congrArg (n :: ·) (ih h)

theorem ending_andThen : (p.andThen q).ending = q.ending := by
  induction p with
  | stop e => obtain rfl : e = .finished := h; rfl
  | test n site body next ih => exact ih h
  | pending n site next ih => exact ih h
  | context n site known inner next _ ih => exact ih h

theorem runs_andThen : ∀ ran, (p.andThen q).runs ran = q.runs (p.runs ran) := by
  induction p with
  | stop e => obtain rfl : e = .finished := h; intro ran; rfl
  | test n site body next ih => intro ran; exact ih h true
  | pending n site next ih => intro ran; exact ih h ran
  | context n site known inner next _ ih => intro ran; exact ih h _

theorem first_andThen (c : Context) :
    ∀ ran, (p.andThen q).first c ran = p.first c ran ++ q.first c (p.runs ran) := by
  induction p with
  | stop e => obtain rfl : e = .finished := h; intro ran; rfl
  | test n site body next ih => intro ran; exact congrArg (_ :: ·) (ih h true)
  | pending n site next ih => intro ran; exact congrArg (_ :: ·) (ih h ran)
  | context n site known inner next _ ih =>
    intro ran
    rw [context_andThen, first, ih h, first, runs, List.append_assoc]

theorem closed_andThen (c : Context) :
    ∀ ran, (p.andThen q).closed c ran = p.closed c ran ++ q.closed c (p.runs ran) := by
  induction p with
  | stop e => obtain rfl : e = .finished := h; intro ran; rfl
  | test n site body next ih => intro ran; exact ih h true
  | pending n site next ih => intro ran; exact ih h ran
  | context n site known inner next _ ih =>
    intro ran
    rw [context_andThen, closed, ih h, closed, runs, List.append_assoc]

theorem leaves_andThen :
    ∀ ran, (p.andThen q).leaves ran = (p.leaves ran || q.leaves (p.runs ran)) := by
  induction p with
  | stop e => obtain rfl : e = .finished := h; intro ran; rfl
  | test n site body next ih => intro ran; exact ih h true
  | pending n site next ih => intro ran; exact ih h ran
  | context n site known inner next _ ih =>
    intro ran
    simp only [context_andThen, leaves, ih h, runs, Bool.or_assoc]

theorem after_andThen :
    ∀ ran, (p.andThen q).after ran = (p.after ran).andThen (q.after (p.runs ran)) := by
  induction p with
  | stop e => obtain rfl : e = .finished := h; intro ran; rfl
  | test n site body next ih => intro ran; exact ih h true
  | pending n site next ih => intro ran; exact ih h ran
  | context n site known inner next _ ih =>
    intro ran
    simp only [context_andThen, after, runs, ih h]
    split
    · rfl
    · split
      · rfl
      · rfl

theorem Distinct.andThen (hd : (p.andThen q).Distinct) :
    p.Distinct ∧ q.Distinct ∧ ∀ n ∈ p.names, n ∉ q.names := by
  induction p with
  | stop e => obtain rfl : e = .finished := h; exact ⟨trivial, hd, by simp [names]⟩
  | test n site body next ih =>
    obtain ⟨hn, hd⟩ := hd
    obtain ⟨h1, h2, h3⟩ := ih h hd
    rw [names_andThen (show next.ending = .finished from h), List.mem_append, not_or] at hn
    exact ⟨⟨hn.1, h1⟩, h2, List.forall_mem_cons.mpr ⟨hn.2, h3⟩⟩
  | pending n site next ih =>
    obtain ⟨hn, hd⟩ := hd
    obtain ⟨h1, h2, h3⟩ := ih h hd
    rw [names_andThen (show next.ending = .finished from h), List.mem_append, not_or] at hn
    exact ⟨⟨hn.1, h1⟩, h2, List.forall_mem_cons.mpr ⟨hn.2, h3⟩⟩
  | context n site known inner next _ ih =>
    obtain ⟨hn, hi, hd⟩ := hd
    obtain ⟨h1, h2, h3⟩ := ih h hd
    rw [names_andThen (show next.ending = .finished from h), List.mem_append, not_or] at hn
    exact ⟨⟨hn.1, hi, h1⟩, h2, List.forall_mem_cons.mpr ⟨hn.2, h3⟩⟩

theorem CalmFor.andThen {l : Listener} {c : Context} (hc : (p.andThen q).CalmFor l c) :
    p.CalmFor l c ∧ q.CalmFor l c := by
  induction p with
  | stop e => obtain rfl : e = .finished := h; exact ⟨trivial, hc⟩
  | test n site body next ih => exact ih h hc
  | pending n site next ih =>
    obtain ⟨h1, h2⟩ := ih h hc.2
    exact ⟨⟨hc.1, h1⟩, h2⟩
  | context n site known inner next _ ih =>
    obtain ⟨h1, h2⟩ := ih h hc.2.2
    exact ⟨⟨hc.1, hc.2.1, h1⟩, h2⟩

end AndThen

theorem andThen_of_fails {p : Plan} (h : p.ending ≠ .finished) (q : Plan) : p.andThen q = p := by
  induction p with
  | stop e =>
    rcases e with _ | c | x
    · exact absurd rfl h
    · rfl
    · rfl
  | test n site body next ih => exact congrArg (test n site body) (ih h)
  | pending n site next ih => exact congrArg (pending n site) (ih h)
  | context n site known inner next _ ih => exact congrArg (context n site known inner) (ih h)

theorem size_andThen_le (p q : Plan) : (p.andThen q).size ≤ p.size + q.size := by
  induction p with
  | stop e => cases e <;> simp [andThen, size]
  | test n site body next ih => simp only [andThen, size]; omega
  | pending n site next ih => simp only [andThen, size]; omega
  | context n site known inner next _ ih => simp only [andThen, size]; omega

/-! ### Plans that nothing is known of -/

/-- No context was entered yet. -/
def IsNew : Plan → Prop
  | stop _ => True
  | test _ _ _ next => next.IsNew
  | pending _ _ next => next.IsNew
  | context _ _ known inner next => known = false ∧ inner.IsNew ∧ next.IsNew

theorem IsNew.andThen {p q : Plan} (hp : p.IsNew) (hq : p.ending = .finished → q.IsNew) :
    (p.andThen q).IsNew := by
  induction p with
  | stop e =>
    cases e with
    | finished => exact hq rfl
    | _ => trivial
  | test n site body next ih => exact ih hp hq
  | pending n site next ih => exact ih hp hq
  | context n site known inner next _ ih => exact ⟨hp.1, hp.2.1, ih hp.2.2 hq⟩

theorem IsNew.newContexts_eq {p : Plan} (h : p.IsNew) :
    ∀ c, p.newContexts c = p.contexts c := by
  induction p with
  | stop e => intro c; rfl
  | test n site body next ih => intro c; exact ih h c
  | pending n site next ih => intro c; exact ih h c
  | context n site known inner next ihi ih =>
    intro c
    obtain ⟨rfl, hi, hn⟩ := h
    rw [newContexts, contexts, ihi hi, ih hn]
    rfl

/-! ### Contexts of sound plans -/

theorem Sound.after {p : Plan} (h : p.Sound) : ∀ ran, (p.after ran).Sound := by
  induction p with
  | stop e => intro ran; exact h
  | test n site body next ih => intro ran; exact ih h true
  | pending n site next ih => intro ran; exact ih h ran
  | context n site known inner next ihi ih =>
    intro ran
    simp only [Plan.after]
    split
    · exact ⟨h.1, ih h.2 _⟩
    · split
      · exact ih h.2 _
      · exact ⟨ihi h.1 false, ih h.2 _⟩

/-- No context is entered behind a test. -/
theorem contexts_first_true (p : Plan) (c : Context) :
    (p.first c true).filterMap Finding.context? = [] := by
  induction p with
  | stop e => rfl
  | test n site body next ih => exact ih
  | pending n site next ih => exact ih
  | context n site known inner next _ ih => simpa [first] using ih

/-- In a sound plan contexts are entered in the order of declaration, outer ones first. -/
theorem Sound.contexts_found {p : Plan} (h : p.Sound) :
    ∀ c, (p.first c false ++ p.rest c false).filterMap Finding.context? = p.newContexts c
      ∧ (p.rest c true).filterMap Finding.context? = p.newContexts c := by
  induction p with
  | stop e => intro c; exact ⟨rfl, rfl⟩
  | test n site body next ih =>
    intro c
    have hn := (ih h c).2
    refine ⟨?_, hn⟩
    simp only [first, rest, List.filterMap_append, List.filterMap_cons, Finding.context?,
      contexts_first_true next c, List.nil_append]
    exact hn
  | pending n site next ih => intro c; exact ih h c
  | context n site known inner next ihi ih =>
    intro c
    obtain ⟨hi, -⟩ := ihi h.1 (.child c n site)
    obtain ⟨hn, hn'⟩ := ih h.2 c
    have hf : inner.fails = false := fails_eq_false.mpr h.1.ending
    have hf' : inner.failure? = none := failure?_eq_none.mpr h.1.ending
    have hopen : (opening c n site known inner
          (inner.first (.child c n site) false)).filterMap Finding.context?
        = (if known then [] else [.child c n site])
          ++ (inner.first (.child c n site) false).filterMap Finding.context? := by
      cases known <;> simp [opening, hf', Finding.context?]
    rw [List.filterMap_append] at hi hn
    constructor
    · simp only [first, rest, Bool.false_eq_true, if_false, Bool.false_or, hf,
        List.filterMap_append, hopen, List.nil_append, newContexts, ← hi]
      rcases hr : inner.runs false with _ | _
      · -- no test inside: the same pass goes on to the contexts behind
        rw [rest_of_not_leaves inner (leaves_of_not_runs inner hr), ← hn]
        simp
      · -- a test inside: the contexts behind are left to later passes, as those left inside
        rw [contexts_first_true, hn']
        simp
    · simp only [rest, if_true, Bool.true_or, hf, Bool.false_eq_true, if_false,
        List.filterMap_append, hopen, hn', newContexts, ← hi, List.append_assoc]

/-- A context of a sound plan is finished by a scan or left by it. -/
theorem Sound.mem_closed_or_after {p : Plan} (h : p.Sound) {k : Context} :
    ∀ {c} ran, k ∈ p.contexts c → k ∈ p.closed c ran ∨ k ∈ (p.after ran).contexts c := by
  induction p with
  | stop e => intro c ran hk; simp [contexts] at hk
  | test n site body next ih => intro c ran hk; exact ih h true hk
  | pending n site next ih => intro c ran hk; exact ih h ran hk
  | context n site known inner next ihi ih =>
    intro c ran hk
    have hf : inner.fails = false := fails_eq_false.mpr h.1.ending
    rw [contexts, List.mem_cons, List.mem_append] at hk
    -- the context itself, one inside it, or one behind it
    rcases ran with _ | _
    · rcases hl : inner.leaves false with _ | _
      · rw [after_done (.inr hl)]
        rcases hk with rfl | hk | hk
        · left; simp [closed, hf, hl]
        · left
          rcases ihi h.1 false hk with hc | hc
          · simp [closed, hc]
          · rw [after_of_not_leaves inner hl] at hc
            simp [contexts] at hc
        · rcases ih h.2 (inner.fails || inner.runs false) hk with hc | hc
          · left; simp [closed, hc]
          · right; exact hc
      · rw [after_open hf hl]
        rcases hk with rfl | hk | hk
        · right; simp [contexts]
        · rcases ihi h.1 false hk with hc | hc
          · left; simp [closed, hc]
          · right; simp [contexts, hc]
        · rcases ih h.2 (inner.runs false) hk with hc | hc
          · left; simp [closed, hf, hc]
          · right; simp [contexts, hc]
    · rw [after_skipped]
      rcases hk with rfl | hk | hk
      · right; simp [contexts]
      · right; simp [contexts, hk]
      · rcases ih h.2 true hk with hc | hc
        · left; simp [closed, hc]
        · right; simp [contexts, hc]

end Plan

/-- The basic statement neither fails nor panics. -/
def Basic.goesOn : Basic → Bool
  | .fail _ => false
  | .panic _ => false
  | _ => true

/-- A builder declares a plan, whatever its variables hold and in every invocation.  A builder that
returns a structural error declares none. -/
inductive Builder.Declares : Builder → Plan → Prop
  | done : Declares .done (.stop .finished)
  | basic {b : Basic} {next : Builder} {p : Plan} (hb : b.goesOn) (h : Declares next p) :
      Declares (.basic b next) p
  | fail {t : Thrown} {c : Cause} {next : Builder} (ht : t.toBuildError = .failed c) :
      Declares (.basic (.fail t) next) (.stop (.failed c))
  | panic {x : Payload} {next : Builder} : Declares (.basic (.panic x) next) (.stop (.panicked x))
  | branch {c : Condition} {yes no next : Builder} {p q : Plan} (hyes : Declares yes p)
      (hno : Declares no p) (h : p.ending = .finished → Declares next q) :
      Declares (.branch c yes no next) (p.andThen q)
  | autoClose {r : Resource} {close : Callback} {next : Builder} {p : Plan}
      (h : Declares next p) : Declares (.autoClose r close next) p
  | deferClose {close : Callback} {next : Builder} {p : Plan} (h : Declares next p) :
      Declares (.deferClose close next) p
  | test {name : String} {site : Location} {body : Body} {swallow : Bool} {next : Builder}
      {p : Plan} (h : Declares next p) :
      Declares (.test name site body swallow next) (.test name site body p)
  | context {name : String} {site : Location} {inner : Builder} {swallow : Bool} {next : Builder}
      {i p : Plan} (hi : Declares inner i) (h : Declares next p) :
      Declares (.context name site inner swallow next) (.context name site false i p)
  | pending {name : String} {site : Location} {swallow : Bool} {next : Builder} {p : Plan}
      (h : Declares next p) : Declares (.pending name site swallow next) (.pending name site p)
  | afterSuite {callback : Callback} {next : Builder} {p : Plan} (h : Declares next p) :
      Declares (.afterSuite callback next) p
  | logCurrent {next : Builder} {p : Plan} (h : Declares next p) : Declares (.logCurrent next) p

namespace Builder.Declares

variable {b : Builder} {p : Plan}

theorem isNew (h : b.Declares p) : p.IsNew := by
  induction h with
  | done => trivial
  | basic _ _ ih => exact ih
  | fail _ => trivial
  | panic => trivial
  | branch _ _ _ ihy _ ih => exact ihy.andThen ih
  | autoClose _ ih => exact ih
  | deferClose _ ih => exact ih
  | test _ ih => exact ih
  | context _ _ ihi ih => exact ⟨rfl, ihi, ih⟩
  | pending _ ih => exact ih
  | afterSuite _ ih => exact ih
  | logCurrent _ ih => exact ih

/-- A plan has no more declarations than its builder. -/
theorem size_le (h : b.Declares p) : p.size ≤ b.declarations := by
  induction h with
  | done => exact Nat.le_refl _
  | basic _ _ ih => exact ih
  | fail _ => exact Nat.zero_le _
  | panic => exact Nat.zero_le _
  | @branch c yes no next p q _ _ _ ihy _ ih =>
    -- both branches count, of which only one is run
    rw [declarations]
    by_cases he : p.ending = .finished
    · have := Plan.size_andThen_le p q
      have := ih he
      omega
    · rw [Plan.andThen_of_fails he]
      omega
  | autoClose _ ih => exact ih
  | deferClose _ ih => exact ih
  | test _ ih => exact Nat.succ_le_succ ih
  | context _ _ ihi ih => exact Nat.succ_le_succ (Nat.add_le_add ihi ih)
  | pending _ ih => exact Nat.succ_le_succ ih
  | afterSuite _ ih => exact ih
  | logCurrent _ ih => exact ih

end Builder.Declares

end TestTree

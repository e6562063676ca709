/-
Replays of a builder that declares a plan.

* `Plan.tests` : the tests inside a plan, with their containers;
* `Replays` : what a replay of a plan does: nothing where the target is decided or declared
  elsewhere, and where it is declared its body is run behind entering the contexts on its way;
* `Builder.Declares.replay_replays` : a replay does this for every builder that declares the plan;
* `RootContext.replay_listed` : **a replay of a listed test runs its body once, enters exactly the
  contexts on its path, each once, and tells of no outcome**.

## Design notes

The way of the target through a context begins with one name (`Plan.through_names`).  With
siblings of different names at most one declaration takes part in the replay; all others leave it
alone.
-/
import TestTree.Proofs.PlanDiscovery

namespace TestTree

/-! ### Tests of a plan -/

namespace Plan

/-- The tests that are declared in a plan and inside it, in the order of declaration. -/
def tests (c : Context) : Plan → List Description
  | stop _ => []
  | test n site _ next => ⟨c, n, site⟩ :: next.tests c
  | pending _ _ next => next.tests c
  | context n site _ inner next => inner.tests (.child c n site) ++ next.tests c

theorem tests_andThen {p : Plan} (h : p.ending = .finished) (q : Plan) (c : Context) :
    (p.andThen q).tests c = p.tests c ++ q.tests c := by
  induction p with
  | stop e => rw [ending] at h; subst h; rfl
  | test n site body next ih => exact congrArg (_ :: ·) (ih h)
  | pending n site next ih => exact ih h
  | context n site known inner next _ ih =>
    rw [andThen, tests, ih h, tests, List.append_assoc]

theorem through_names {p : Plan} {d : Description} :
    ∀ {c}, d ∈ p.tests c → ∃ n ∈ p.names, c.path ++ [n] <+: d.path := by
  induction p with
  | stop e => intro c hd; simp [tests] at hd
  | test n site body next ih =>
    intro c hd
    rw [tests, List.mem_cons] at hd
    rcases hd with rfl | hd
    · exact ⟨n, List.mem_cons_self, List.prefix_rfl⟩
    · obtain ⟨m, hm, hp⟩ := ih hd
      exact ⟨m, List.mem_cons_of_mem _ hm, hp⟩
  | pending n site next ih =>
    intro c hd
    obtain ⟨m, hm, hp⟩ := ih hd
    exact ⟨m, List.mem_cons_of_mem _ hm, hp⟩
  | context n site known inner next ihi ih =>
    intro c hd
    rw [tests, List.mem_append] at hd
    rcases hd with hd | hd
    · obtain ⟨m, -, hp⟩ := ihi hd
      exact ⟨n, List.mem_cons_self, (List.prefix_append _ _).trans hp⟩
    · obtain ⟨m, hm, hp⟩ := ih hd
      exact ⟨m, List.mem_cons_of_mem _ hm, hp⟩

theorem prefix_container {p : Plan} {d : Description} :
    ∀ {c}, d ∈ p.tests c → c.path <+: d.container.path := by
  induction p with
  | stop e => intro c hd; simp [tests] at hd
  | test n site body next ih =>
    intro c hd
    rw [tests, List.mem_cons] at hd
    rcases hd with rfl | hd
    · exact List.prefix_rfl
    · exact ih hd
  | pending n site next ih => intro c hd; exact ih hd
  | context n site known inner next ihi ih =>
    intro c hd
    rw [tests, List.mem_append] at hd
    rcases hd with hd | hd
    · exact (List.prefix_append _ _).trans (ihi hd)
    · exact ih hd

theorem mem_tests_of_found {p : Plan} {d : Description} {body : Body} :
    ∀ {c ran}, .test d body ∈ p.first c ran ∨ .test d body ∈ p.rest c ran → d ∈ p.tests c := by
  induction p with
  | stop e => intro c ran h; simp [first, rest] at h
  | test n site b next ih =>
    intro c ran h
    rw [first, rest, List.mem_cons, or_assoc] at h
    rcases h with h | h
    · cases h
      exact List.mem_cons_self
    · exact List.mem_cons_of_mem _ (ih h)
  | pending n site next ih =>
    intro c ran h
    rw [first, rest, List.mem_cons, or_assoc] at h
    rcases h with h | h
    · cases h
    · exact ih h
  | context n site known inner next ihi ih =>
    intro c ran h
    have hopen : .test d body ∈ opening c n site known inner (inner.first (.child c n site) false) →
        d ∈ inner.tests (.child c n site) := by
      intro ho
      rw [opening, List.mem_append, List.mem_append] at ho
      rcases ho with (ho | ho) | ho
      · cases known <;> simp at ho
      · exact ihi (.inl ho)
      · cases hf : inner.failure? <;> simp [hf] at ho
    rw [tests, List.mem_append]
    simp only [first, rest, List.mem_append] at h
    -- found in the context by this scan, behind it, or in the contexts that follow
    rcases h with (h | h) | (h | h) | h
    · split at h
      · cases h
      · exact .inl (hopen h)
    · exact .inr (ih (.inl h))
    · split at h
      · exact .inl (hopen h)
      · cases h
    · split at h
      · cases h
      · exact .inl (ihi (.inr h))
    · exact .inr (ih (.inr h))

end Plan

/-! ### The way of a replay -/

/-- The events of entering the contexts on a way, from below the first `n` names on, the latest
first. -/
def entries (root : Nat) (path : NamePath) (n : Nat) : List Event :=
  ((List.range' (n + 1) (path.length - n)).map fun k => .entered root (path.take k)).reverse

theorem entries_step {root : Nat} {path : NamePath} {n : Nat} (h : n < path.length) :
    entries root path n = entries root path (n + 1) ++ [.entered root (path.take (n + 1))] := by
  rw [entries, entries, show path.length - n = (path.length - (n + 1)) + 1 by omega,
    List.range'_succ, List.map_cons, List.reverse_cons]

theorem entries_self (root : Nat) (path : NamePath) : entries root path path.length = [] := by
  rw [entries, Nat.sub_self]
  rfl

/-- The failures of a body. -/
def Failure.ofBody (f : Failure) : Prop :=
  f.origin = .testBody ∨ f.origin = .panic

theorem Body.ofBody_failure? {e : Ending Cause} {f : Failure} (h : Body.failure? e = some f) :
    f.ofBody := by
  cases e with
  | finished => cases h
  | failed c => cases h; exact .inl rfl
  | panicked p => cases h; exact .inr rfl

section Way

variable {t : TestScope} {c : Context} {depth : Nat}

theorem isTarget_iff (hc : c.path <+: t.test.container.path) (hdepth : depth + 1 = c.path.length)
    {n : String} : (depth + 1 == t.test.container.path.length && n == t.test.name) = true ↔
      t.test.path = c.path ++ [n] := by
  rw [Bool.and_eq_true, beq_iff_eq, beq_iff_eq, Description.path, Description.place, Place.path]
  constructor
  · rintro ⟨hl, rfl⟩
    rw [hc.eq_of_length (by omega)]
  · intro h
    obtain ⟨h1, h2⟩ := List.append_inj' h rfl
    exact ⟨by rw [h1, hdepth], (List.singleton_inj.mp h2).symm⟩

theorem isOnWay_iff (hc : c.path <+: t.test.container.path) (hdepth : depth + 1 = c.path.length)
    {n : String} : (t.test.container.path[depth + 1]? == some n) = true ↔
      c.path ++ [n] <+: t.test.container.path := by
  obtain ⟨more, hm⟩ := hc
  rw [← hm, beq_iff_eq, hdepth, List.prefix_append_right_inj,
    List.getElem?_append_right (Nat.le_refl _), Nat.sub_self]
  cases more with
  | nil => simp
  | cons m rest => simp [eq_comm]

end Way

/-! ### Replays of plans -/

/-- A replay has run the body of the target, behind entering the contexts below the first `n` names
of its way. -/
def Replay.Hit (t : TestScope) (n : Nat) (r q : Replay) : Prop :=
  ∃ f : Option Failure, (∀ e, f = some e → e.ofBody) ∧ q.decision = .ofBody f ∧
    q.closet.book.deeds = .ran t.scope.root t.test.path
      :: (entries t.scope.root t.test.container.path n ++ r.closet.book.deeds) ∧
    q.closet.book.invocations = r.closet.book.invocations

/-- Nothing was decided, and nobody did a deed. -/
structure Replay.Same (r q : Replay) : Prop where
  decision : q.decision = r.decision
  deeds : q.closet.book.deeds = r.closet.book.deeds
  invocations : q.closet.book.invocations = r.closet.book.invocations

theorem Replay.Same.trans {r q p : Replay} (h : r.Same q) (k : q.Same p) : r.Same p :=
  ⟨k.decision.trans h.decision, k.deeds.trans h.deeds, k.invocations.trans h.invocations⟩

theorem Replay.Same.hit {t : TestScope} {n : Nat} {r q p : Replay} (h : r.Same q)
    (k : q.Hit t n p) : r.Hit t n p := by
  obtain ⟨f, hf, hdec, hd, hi⟩ := k
  exact ⟨f, hf, hdec, by rw [hd, h.deeds], by rw [hi, h.invocations]⟩

theorem Replay.Hit.same {t : TestScope} {n : Nat} {r q p : Replay} (h : r.Hit t n q)
    (k : q.Same p) : r.Hit t n p := by
  obtain ⟨f, hf, hdec, hd, hi⟩ := h
  exact ⟨f, hf, by rw [k.decision, hdec], by rw [k.deeds, hd], by rw [k.invocations, hi]⟩

/-- Behind a hit the target is decided. -/
theorem Replay.Hit.closed {t : TestScope} {n : Nat} {r q : Replay} (h : r.Hit t n q) :
    q.decision.isOpen = false := by
  obtain ⟨f, -, hdec, -⟩ := h
  rw [hdec]
  cases f <;> rfl

/-- Leaving a context in which the target was decided decides nothing. -/
theorem Replay.leave_closed {q : Ran BuildError Replay} (h : q.state.decision.isOpen = false) :
    Replay.leave q = q.state := by
  rw [Replay.leave]
  split
  · rw [h]
    rfl
  · rfl

/-- What a replay of a target in the context `c` does to a plan. -/
structure Replays (t : TestScope) (c : Context) (p : Plan) (r : Replay)
    (q : Ran BuildError Replay) : Prop where
  ending : q.ending = p.buildEnding
  same : r.decision.isOpen = false ∨ (∀ n ∈ p.names, ¬ c.path ++ [n] <+: t.test.path) →
    r.Same q.state
  hit : r.decision.isOpen = true → t.test ∈ p.tests c → r.Hit t c.path.length q.state

namespace Replays

variable {t : TestScope} {c : Context} {a p : Plan} {r r' : Replay} {q : Ran BuildError Replay}
  {next : Replay → Ran BuildError Replay}

/-- A step that does nothing before a replay. -/
theorem quiet (h : r.Same r') (k : Replays t c p r' q) : Replays t c p r q where
  ending := k.ending
  same := by
    intro hs
    rw [← h.decision] at hs
    exact h.trans (k.same hs)
  hit := by
    intro ho ht
    rw [← h.decision] at ho
    exact h.hit (k.hit ho ht)

/-- A builder that is at its end. -/
theorem stop {e : Ending Cause} {o : Ending BuildError} (ho : o = (Plan.stop e).buildEnding) :
    Replays t c (.stop e) r ⟨o, r⟩ where
  ending := ho
  same := fun _ => ⟨rfl, rfl, rfl⟩
  hit := fun _ ht => absurd ht List.not_mem_nil

/-- Replaying one plan and then another one: at most one of them takes part. -/
theorem andThen (hd : (a.andThen p).Distinct) (ha : Replays t c a r q)
    (hp : a.ending = .finished → p.Distinct → ∀ r, Replays t c p r (next r)) :
    Replays t c (a.andThen p) r (q.andThen next) := by
  by_cases he : a.ending = .finished
  · obtain ⟨-, hdp, hnames⟩ := Plan.Distinct.andThen he p hd
    rcases q with ⟨e, s⟩
    obtain rfl : e = .finished := ha.ending.trans (Plan.buildEnding_finished he)
    have k := hp he hdp s
    rw [Ran.andThen_finished]
    constructor
    · rw [k.ending, Plan.buildEnding, Plan.buildEnding, Plan.ending_andThen he]
    · rw [Plan.names_andThen he]
      intro hs
      have hs₁ : r.Same s := by
        refine ha.same (hs.imp_right fun h n hn => h n ?_)
        exact List.mem_append_left _ hn
      refine hs₁.trans (k.same ?_)
      rw [hs₁.decision]
      exact hs.imp_right fun h n hn => h n (List.mem_append_right _ hn)
    · rw [Plan.tests_andThen he]
      intro ho ht
      rcases List.mem_append.mp ht with ht | ht
      · -- the target was decided in the first plan, so the second one leaves it alone
        have hh := ha.hit ho ht
        exact hh.same (k.same (.inl hh.closed))
      · -- the way of the target goes through the second plan, and not through the first one
        obtain ⟨m, hm, hway⟩ := Plan.through_names ht
        have hs₁ : r.Same s := by
          refine ha.same (.inr fun n hn => ?_)
          exact Pass.not_prefix_of_ne (fun hnm : n = m => hnames n hn (hnm ▸ hm)) hway
        refine hs₁.hit (k.hit ?_ ht)
        rw [hs₁.decision]
        exact ho
  · rw [Plan.andThen_of_fails he]
    rwa [Ran.andThen_of_ne (ha.ending ▸ Plan.buildEnding_ne he)]

/-- A declaration that takes no part: the target is decided, or its way does not go through it. -/
theorem outside (he : a.ending = .finished)
    (hout : r.decision.isOpen = true → t.test ∉ a.tests c) : Replays t c a r ⟨.finished, r⟩ where
  ending := (Plan.buildEnding_finished he).symm
  same := fun _ => ⟨rfl, rfl, rfl⟩
  hit := fun ho ht => absurd ht (hout ho)

end Replays

section Statements

variable {t : TestScope} {c : Context} {depth : Nat} {r : Replay}

/-- A test is run if it is the target. -/
theorem replays_test (hc : c.path <+: t.test.container.path) (hdepth : depth + 1 = c.path.length)
    {name : String} {site : Location} {body : Body} :
    Replays t c (.test name site body (.stop .finished)) r ⟨.finished,
      if r.decision.isOpen && depth + 1 == t.test.container.path.length && name == t.test.name then
        ⟨(body.execute t r.closet).2, .ofBody (body.execute t r.closet).1⟩
      else r⟩ := by
  rw [Bool.and_assoc]
  by_cases h : (r.decision.isOpen && (depth + 1 == t.test.container.path.length
      && name == t.test.name)) = true
  · rw [if_pos h]
    rw [Bool.and_eq_true, isTarget_iff hc hdepth] at h
    obtain ⟨ho, htarget⟩ := h
    refine ⟨rfl, ?_, fun _ _ => ?_⟩
    · rintro (hclosed | hout)
      · rw [ho] at hclosed
        cases hclosed
      · exact absurd (htarget ▸ List.prefix_rfl) (hout name List.mem_cons_self)
    · -- the body does no deed of its own, and the way ends here
      have hframe := (Body.run_framed (Q := fun _ => True) (Notebook.frame_deeds t.scope) trivial body
        { r.closet with book := r.closet.book.add (.ran t.scope.root t.test.path) }).book
      have hlen : c.path.length = t.test.container.path.length := by
        have := congrArg List.length htarget
        simp only [Description.path, Description.place, Place.path, List.length_append,
          List.length_singleton] at this
        omega
      refine ⟨(body.execute t r.closet).1, fun e => Body.ofBody_failure?, rfl, ?_,
        congrArg Prod.snd hframe⟩
      rw [hlen, entries_self]
      exact congrArg Prod.fst hframe
  · rw [if_neg h]
    refine Replays.outside rfl fun ho ht => h ?_
    rw [Bool.and_eq_true, isTarget_iff hc hdepth]
    refine ⟨ho, ?_⟩
    rw [List.mem_singleton.mp ht]
    rfl

/-- A context is entered if it is on the way of the target. -/
theorem replays_context (hc : c.path <+: t.test.container.path) (hdepth : depth + 1 = c.path.length)
    {name : String} {site : Location} {i : Plan} {inner : Builder}
    (hi : (Context.child c name site).path <+: t.test.container.path → ∀ r : Replay,
      Replays t (.child c name site) i r (inner.replay t (depth + 1) r)) :
    Replays t c (.context name site false i (.stop .finished)) r ⟨.finished,
      if r.decision.isOpen && t.test.container.path[depth + 1]? == some name then
        Replay.leave (inner.replay t (depth + 1) ⟨⟨r.closet.shelf, r.closet.book.add
          (.entered t.scope.root (t.test.container.path.take (depth + 2)))⟩, r.decision⟩)
      else r⟩ := by
  by_cases h : (r.decision.isOpen && t.test.container.path[depth + 1]? == some name) = true
  · rw [if_pos h]
    rw [Bool.and_eq_true, isOnWay_iff hc hdepth] at h
    obtain ⟨ho, hway⟩ := h
    refine ⟨rfl, ?_, fun _ ht => ?_⟩
    · rintro (hclosed | hout)
      · rw [ho] at hclosed
        cases hclosed
      · exact absurd (hway.trans (List.prefix_append _ _)) (hout name List.mem_cons_self)
    · rw [Plan.tests, Plan.tests, List.append_nil] at ht
      have hhit := (hi hway ⟨⟨r.closet.shelf, r.closet.book.add
        (.entered t.scope.root (t.test.container.path.take (depth + 2)))⟩, r.decision⟩).hit ho ht
      rw [Replay.leave_closed hhit.closed]
      obtain ⟨f, hf, hdec, hdeeds, hinv⟩ := hhit
      refine ⟨f, hf, hdec, ?_, hinv⟩
      -- entering this context comes first on the way that is left
      have hlt : c.path.length < t.test.container.path.length := by
        have := hway.length_le
        rw [List.length_append, List.length_singleton] at this
        omega
      rw [hdeeds, entries_step hlt, ← hdepth, Context.path_child, List.length_append, ← hdepth,
        Notebook.deeds_add]
      simp [Event.isDeed]
  · rw [if_neg h]
    refine Replays.outside rfl fun ho ht => h ?_
    rw [Bool.and_eq_true, isOnWay_iff hc hdepth]
    rw [Plan.tests, Plan.tests, List.append_nil] at ht
    exact ⟨ho, Plan.prefix_container ht⟩

end Statements

/-- **A replay of a builder that declares a plan takes part in the declaration on the way of the
target only, and runs the target if it is declared.** -/
theorem Builder.Declares.replay_replays {b : Builder} {p : Plan} (h : b.Declares p)
    {t : TestScope} (hd : p.Distinct) : ∀ {c : Context} {depth : Nat} (r : Replay),
      c.path <+: t.test.container.path → depth + 1 = c.path.length →
      Replays t c p r (b.replay t depth r) := by
  induction h with
  | done => intro c depth r hc hdepth; exact Replays.stop rfl
  | @basic b next p hb _ ih =>
    intro c depth r hc hdepth
    have hsame : r.Same ⟨⟨r.closet.shelf, (r.closet.book.perform t.scope none b).state⟩,
        r.decision⟩ :=
      ⟨rfl, Notebook.deeds_perform _ _ _ _, Notebook.invocations_perform _ _ _ _⟩
    have k := (ih hd _ hc hdepth).quiet hsame
    cases b with
    | fail t => cases hb
    | panic c => cases hb
    | log text => exact k
    | logVar n => exact k
    | incr n => exact k
    | logResource => exact k
  | @fail e cause next he =>
    intro c depth r hc hdepth
    have hq : (Builder.basic (.fail e) next).replay t depth r = ⟨.failed (.failed cause), r⟩ := by
      rw [← he]
      rfl
    rw [hq]
    exact Replays.stop rfl
  | panic => intro c depth r hc hdepth; exact Replays.stop rfl
  | @branch cond yes no next p q _ _ _ ihy ihn ih =>
    intro c depth r hc hdepth
    -- both branches declare `p`, so it does not matter which of them is run
    have hdp : p.Distinct := by
      by_cases he : p.ending = .finished
      · exact (Plan.Distinct.andThen he q hd).1
      · rwa [Plan.andThen_of_fails he] at hd
    refine Replays.andThen hd ?_ fun he hdq r => ih he hdq r hc hdepth
    split
    · exact ihy hdp r hc hdepth
    · exact ihn hdp r hc hdepth
  | @autoClose res close _ _ _ ih =>
    intro c depth r hc hdepth
    have hsame : r.Same ⟨r.closet.autoClose res ⟨close, t.scope⟩, r.decision⟩ := ⟨rfl, rfl, rfl⟩
    exact (ih hd _ hc hdepth).quiet hsame
  | @deferClose close _ _ _ ih =>
    intro c depth r hc hdepth
    have hsame : r.Same ⟨r.closet.deferClose ⟨close, t.scope⟩, r.decision⟩ := ⟨rfl, rfl, rfl⟩
    exact (ih hd _ hc hdepth).quiet hsame
  | @test name site body swallow next p _ ih =>
    intro c depth r hc hdepth
    -- a single declaration is a plan of its own, and the rest of the builder comes behind it
    have k := Replays.andThen (a := .test name site body (.stop .finished)) hd
      (replays_test (r := r) hc hdepth) fun _ hdp r => ih hdp r hc hdepth
    rw [Ran.andThen_finished] at k
    rw [replay]
    split
    · rename_i hcond
      rwa [if_pos hcond] at k
    · rename_i hcond
      rwa [if_neg hcond] at k
  | @context name site inner swallow next i p _ _ ihi ih =>
    intro c depth r hc hdepth
    have hlen : depth + 1 + 1 = (Context.child c name site).path.length := by
      rw [Context.path_child, List.length_append, List.length_singleton, hdepth]
    have k := Replays.andThen (a := .context name site false i (.stop .finished)) hd
      (replays_context (r := r) hc hdepth fun hway r => ihi hd.2.1 r hway hlen)
      fun _ hdp r => ih hdp r hc hdepth
    rw [Ran.andThen_finished] at k
    rw [replay]
    split
    · rename_i hcond
      rwa [if_pos hcond] at k
    · rename_i hcond
      rwa [if_neg hcond] at k
  | @pending name site swallow next p _ ih =>
    intro c depth r hc hdepth
    exact Replays.andThen (a := .pending name site (.stop .finished)) hd
      (Replays.outside rfl fun _ => List.not_mem_nil) fun _ hdp r => ih hdp r hc hdepth
  | afterSuite _ ih => intro c depth r hc hdepth; exact ih hd r hc hdepth
  | logCurrent _ ih =>
    intro c depth r hc hdepth
    have hsame : r.Same ⟨⟨r.closet.shelf, r.closet.book.say t.scope.root ("current "
        ++ " > ".intercalate (t.test.container.path.take (depth + 1)))⟩, r.decision⟩ :=
      ⟨rfl, rfl, rfl⟩
    exact (ih hd _ hc hdepth).quiet hsame

/-! ### Units of listed tests -/

/-- A result that the unit of a listed test can have: a failure comes from the body or from
cleaning up behind it. -/
def TestResult.Fair : TestResult → Prop
  | .success _ => True
  | .failed f => f.origin = .testBody ∨ f.origin = .panic ∨ f.origin = .teardown
  | .pending => False

theorem conclude_fair {f : Option Failure} (hf : ∀ e, f = some e → e.ofBody)
    (errors : List TeardownError) : (conclude f errors).Fair := by
  cases f with
  | some e => exact (hf e rfl).imp_right .inl
  | none =>
    cases errors with
    | nil => trivial
    | cons e rest => exact .inr (.inr rfl)

/-- **A replay of a test that the root declares runs its body once, behind entering exactly the
contexts on its path, each once; nothing else is entered, run, started or finished.** -/
theorem RootContext.replay_listed {r : RootContext} {p : Plan} (h : r.builder.Declares p)
    (hd : p.Distinct) {d : Description} (ht : d ∈ p.tests r.context) (l : Listener) (n : Notebook) :
    (replay l r d n).1.Fair ∧
      (replay l r d n).2.deeds
        = .ran r.index d.path :: (entries r.index d.container.path 0 ++ n.deeds) := by
  have hc := Plan.prefix_container ht
  have hlen : 0 < d.container.path.length := hc.length_le
  have k : Replays _ _ _ _ (r.replayWalk l d n) := h.replay_replays hd _ hc rfl
  obtain ⟨f, hf, hdec, hdeeds, -⟩ := k.hit rfl ht
  rw [replay_eq, Closet.conclude, Replay.verdict, hdec]
  constructor
  · cases f with
    | none => exact conclude_fair hf _
    | some e => exact conclude_fair hf _
  · show (Notebook.sweep _ _).2.deeds = _
    rw [Notebook.deeds_sweep, hdeeds, entries_step hlen, List.append_assoc]
    rfl

end TestTree

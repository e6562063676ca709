/-
Sweeps, round by round.

* `Round`, `rounds` : the callbacks that a sweep runs, with how each one ended;
* `Notebook.rounds` : the rounds of a sweep of callbacks that cannot reach the shelf;
* `sweep_errors` : the errors of a sweep are those of its rounds, in their order;
* `Closet.Orderly` : later callbacks stand in front of earlier ones.
-/
import TestTree.Proofs.Ledger

namespace TestTree

/-- One callback of a sweep: what was run, how it ended, and the state that it left behind. -/
structure Round (κ σ : Type) where
  entry : Registration κ
  ran : Ran Cause σ

/-- The teardown error of a round, if its callback failed or panicked. -/
def Round.error? {κ σ : Type} (r : Round κ σ) : Option TeardownError :=
  teardownError? r.entry.label r.ran.ending

section Rounds

variable {κ σ : Type}

/-- The rounds of a sweep. -/
def rounds (run : Registration κ → σ → Ran Cause σ) :
    List (Registration κ) → σ → List (Round κ σ)
  | [], _ => []
  | r :: rest, s => ⟨r, run r s⟩ :: rounds run rest (run r s).state

variable (run : Registration κ → σ → Ran Cause σ)

@[simp] theorem rounds_entries (rs : List (Registration κ)) :
    ∀ s, (rounds run rs s).map Round.entry = rs := by
  induction rs with
  | nil => intro s; rfl
  | cons r rest ih => intro s; exact congrArg (r :: ·) (ih _)

/-- **The errors of a sweep are those of its rounds**, in their order. -/
theorem sweep_errors (rs : List (Registration κ)) :
    ∀ s, (sweep run rs s).1 = (rounds run rs s).filterMap Round.error? := by
  induction rs with
  | nil => intro s; rfl
  | cons r rest ih =>
    intro s
    rw [sweep, rounds, List.filterMap_cons, ← ih]
    show (teardownError? r.label (run r s).ending).toList ++ _ = _
    rw [Round.error?]
    cases teardownError? r.label (run r s).ending <;> rfl

end Rounds

/-- The rounds of a sweep of callbacks that cannot reach the shelf. -/
def Notebook.rounds (n : Notebook) (rs : List (Registration Closure)) :
    List (Round Closure Notebook) :=
  TestTree.rounds Registration.run rs n

/-! ### Shelves in good order -/

namespace Closet

variable {κ : Type}

/-- The callbacks that wait to be run, the latest first. -/
def waiting (c : Closet κ) : List Nat :=
  c.shelf.map Registration.serial

/-- Later callbacks stand in front of earlier ones, and all of them have been numbered. -/
structure Orderly (c : Closet κ) : Prop where
  sorted : c.waiting.Pairwise (· > ·)
  below : ∀ k ∈ c.waiting, k < c.book.serials

theorem Orderly.suffix {c : Closet κ} (h : c.Orderly) {kept : Shelf κ} (hk : kept <:+ c.shelf) :
    Orderly { c with shelf := kept } where
  sorted := h.sorted.sublist (hk.sublist.map _)
  below := fun k hm => h.below k ((hk.sublist.map Registration.serial).subset hm)

theorem Orderly.book {c : Closet κ} (h : c.Orderly) {n : Notebook} (hn : n.serials = c.book.serials) :
    Orderly { c with book := n } where
  sorted := h.sorted
  below := fun k hm => hn ▸ h.below k hm

theorem Orderly.register {c : Closet κ} (h : c.Orderly) (label : String) (res : Option String)
    (close : κ) : (c.register label res close).Orderly where
  sorted := List.pairwise_cons.mpr ⟨h.below, h.sorted⟩
  below := by
    intro k hk
    rcases List.mem_cons.mp hk with rfl | hm
    · exact Nat.lt_succ_self _
    · exact Nat.lt_succ_of_lt (h.below k hm)

end Closet

end TestTree

/-
Tables while a document is being read.

* `Draft` : an entry so far, and how a table came about;
* `Branch.add` : put a value at a key;
* `Branch.open` : make the table of a header, or the next element of an array of tables;
* `Branch.entries` : the finished table.

## Design notes

A table has to be written in one place.  A header may come after the headers of tables below it, and
keys with dots may go through the tables that such keys have made, but neither may touch a table
that is written already.
-/
import TestTree.Toml.Value

namespace TestTree.Toml

/-- How a table came about. -/
inductive Origin where
  /-- By a header of its own, or by braces. -/
  | written
  /-- By the header of a table below it. -/
  | implied
  /-- By a key with dots. -/
  | dotted
  deriving DecidableEq, Inhabited

/-- An entry of a table that is being read. -/
inductive Draft where
  | value (v : Value)
  | table (origin : Origin) (entries : List (String × Draft))
  | elements (latest : List (String × Draft)) (earlier : List (List (String × Draft)))
  deriving Inhabited

/-- The entries of a table that is being read. -/
abbrev Branch := List (String × Draft)

namespace Branch

/-- Put an entry in the place of the one with its name, or else last. -/
def put (name : String) (d : Draft) : Branch → Branch
  | [] => [(name, d)]
  | (n, e) :: rest => if n = name then (name, d) :: rest else (n, e) :: put name d rest

theorem lookup_put (b : Branch) (name n : String) (d : Draft) :
    (b.put name d).lookup n = if n = name then some d else b.lookup n := by
  induction b with
  | nil =>
    by_cases h : n = name
    · simp [put, h]
    · simp [put, List.lookup_cons, beq_eq_false_iff_ne.mpr h, h]
  | cons e rest ih =>
    obtain ⟨m, x⟩ := e
    by_cases hm : m = name
    · subst hm
      by_cases h : n = m
      · simp [put, h]
      · simp [put, List.lookup_cons, beq_eq_false_iff_ne.mpr h, h]
    · by_cases h : n = m
      · simp [put, h, hm]
      · simp [put, List.lookup_cons, beq_eq_false_iff_ne.mpr h, hm, ih]

/-- Change the table at the end of a path.  Tables that are not there yet are made as `made` says.  A
path of a key with dots (one that makes dotted tables) does not go through a written table; a path
that meets an array of tables goes through its latest element. -/
def within (made : Origin) (change : Origin → Branch → Option Branch) :
    List String → Origin → Branch → Option Branch
  | [], origin, b => change origin b
  | n :: path, _, b =>
    match b.lookup n with
    | none => do
      let t ← within made change path made []
      return b.put n (.table made t)
    | some (.table origin t) =>
      if made = .dotted ∧ origin = .written then none
      else do
        let t ← within made change path origin t
        return b.put n (.table origin t)
    | some (.elements latest earlier) => do
      let t ← within made change path .written latest
      return b.put n (.elements t earlier)
    | some (.value _) => none

/-- Put a value at a key.  A key with dots adds to tables that such keys have made, and to no other;
no entry is written twice. -/
def add (b : Branch) (key : Key) (v : Value) : Option Branch :=
  within .dotted (fun origin t =>
      if decide (origin = .dotted) = key.path.isEmpty ∨ (t.lookup key.name).isSome then none
      else some (t.put key.name (.value v)))
    key.path .written b

/-- Put values at keys, one after another. -/
def addAll (b : Branch) (pairs : List (Key × Value)) : Option Branch :=
  pairs.foldlM (fun b p => b.add p.1 p.2) b

/-- The table of a header with its entries.  It may take over a table that headers below it imply. -/
def openTable (b : Branch) (key : Key) (pairs : List (Key × Value)) : Option Branch :=
  within .implied (fun _ t =>
      match t.lookup key.name with
      | none => do return t.put key.name (.table .written (← addAll [] pairs))
      | some (.table .implied old) => do
        return t.put key.name (.table .written (← addAll old pairs))
      | some _ => none)
    key.path .written b

/-- One more element of an array of tables, with its entries. -/
def openElement (b : Branch) (key : Key) (pairs : List (Key × Value)) : Option Branch :=
  within .implied (fun _ t =>
      match t.lookup key.name with
      | none => do return t.put key.name (.elements (← addAll [] pairs) [])
      | some (.elements latest earlier) => do
        return t.put key.name (.elements (← addAll [] pairs) (latest :: earlier))
      | some _ => none)
    key.path .written b

end Branch

mutual

/-- The value of a finished entry. -/
def Draft.finish : Draft → Value
  | .value v => v
  | .table _ entries => .table (Branch.finish entries)
  | .elements latest earlier => .array (Branch.finishAll earlier ++ [.table (Branch.finish latest)])

/-- The entries of a finished table. -/
def Branch.finish : List (String × Draft) → List (String × Value)
  | [] => []
  | (n, d) :: rest => (n, d.finish) :: Branch.finish rest

/-- Finished elements, in the order in which they came. -/
def Branch.finishAll : List (List (String × Draft)) → List Value
  | [] => []
  | b :: earlier => Branch.finishAll earlier ++ [.table (Branch.finish b)]

end

end TestTree.Toml

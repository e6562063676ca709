/-
Settings are read back from the file that they were saved to.

* `Toml.whole?_toDigits` : a number is read from its digits;
* `Toml.Legible` : an entry that is read as it was written, wherever it stands;
* `Toml.read_document` : legible entries of different names are read back;
* `Toml.Format.standard_faithful` : **what is written can be read**;
* `Slot.load_save` : **a file has the settings that were saved to it, and settings that have no
  written form leave the file as it was**.
-/
import Mathlib.Algebra.BigOperators.Group.List.Basic
import TestTree.Proofs.QuotedText
import TestTree.Suite.SettingsFile

namespace TestTree

namespace Toml

variable {cs rest word : List Char} {c : Char} {v : Value} {left n : Nat}

/-- A character of a class is none that is not in it. -/
theorem ne_of_class {p : Char → Bool} {x : Char} (h : p c = true) (hx : p x = false) : c ≠ x := by
  rintro rfl
  rw [hx] at h
  cases h

theorem cons_ne_of_class {p : Char → Bool} {x : Char} {tail : List Char} (h : p c = true)
    (hx : p x = false) : c :: cs ≠ x :: tail :=
  fun heq => ne_of_class h hx (List.cons.inj heq).1

/-- A blank is of no class that has neither spaces nor tabs. -/
theorem isBlank_of_class {p : Char → Bool} (h : p c = true) (hspace : p ' ' = false)
    (htab : p '\t' = false) : isBlank c = false := by
  rw [isBlank, Bool.or_eq_false_iff, decide_eq_false_iff_not, decide_eq_false_iff_not]
  exact ⟨ne_of_class h hspace, ne_of_class h htab⟩

/-! ### Numbers -/

theorem digit?_digitChar : ∀ d < 10,
    digit? 10 (Nat.digitChar d) = some d ∧ Nat.digitChar d ≠ '_' := by
  decide

theorem digitsFrom_digitChar {d : Nat} (hd : d < 10) (value : Nat) (closed : Bool) :
    digitsFrom 10 value closed (Nat.digitChar d :: rest)
      = digitsFrom 10 (value * 10 + d) true rest := by
  obtain ⟨hdigit, hgap⟩ := digit?_digitChar d hd
  rw [digitsFrom, if_neg hgap, hdigit]
  rfl

/-- The digits of a number are read as the number, whatever digits follow. -/
theorem digitsFrom_toDigits (n : Nat) :
    ∀ rest, digitsFrom 10 0 false (Nat.toDigits 10 n ++ rest) = digitsFrom 10 n true rest := by
  induction n using Nat.strongRecOn with
  | ind n ih =>
    intro rest
    rcases Nat.lt_or_ge n 10 with hn | hn
    · rw [Nat.toDigits_of_lt_base hn, List.singleton_append, digitsFrom_digitChar hn]
      rw [Nat.zero_mul, Nat.zero_add]
    · have hlast : n % 10 < 10 := Nat.mod_lt n (by decide)
      have hvalue : n / 10 * 10 + n % 10 = n := by omega
      rw [Nat.toDigits_of_base_le (by decide) hn, List.append_assoc, ih (n / 10) (by omega),
        List.singleton_append, digitsFrom_digitChar hlast, hvalue]

/-- Only the number zero begins with a zero. -/
theorem head?_toDigits (n : Nat) : 0 < n → (Nat.toDigits 10 n).head? ≠ some '0' := by
  induction n using Nat.strongRecOn with
  | ind n ih =>
    intro hpos
    rcases Nat.lt_or_ge n 10 with hn | hn
    · rw [Nat.toDigits_of_lt_base hn]
      intro h
      have hzero := Nat.digitChar_eq_zero.mp (Option.some.inj h)
      omega
    · have hfirst := ih (n / 10) (by omega) (by omega)
      have hne : Nat.toDigits 10 (n / 10) ≠ [] := Nat.toDigits_ne_nil
      obtain ⟨c, cs, hcs⟩ := List.exists_cons_of_ne_nil hne
      rw [hcs] at hfirst
      rw [Nat.toDigits_of_base_le (by decide) hn, hcs]
      exact hfirst

theorem decimal?_toDigits (n : Nat) : decimal? (Nat.toDigits 10 n) = some n := by
  have hdigits : digits? 10 (Nat.toDigits 10 n) = some n := by
    have h := digitsFrom_toDigits n []
    rw [List.append_nil] at h
    exact h
  rw [decimal?, hdigits]
  rcases Nat.eq_zero_or_pos n with rfl | hpos
  · rfl
  · rw [if_neg (by simp [head?_toDigits n hpos])]

/-- A digit is no letter and no sign. -/
theorem ne_of_mem_toDigits (h : c ∈ Nat.toDigits 10 n) {x : Char} (hx : x.isDigit = false) :
    c ≠ x :=
  ne_of_class (Nat.isDigit_of_mem_toDigits (by decide) (by decide) h) hx

theorem splitSign_toDigits (n : Nat) :
    splitSign (Nat.toDigits 10 n) = (false, Nat.toDigits 10 n) := by
  unfold splitSign
  split
  · rename_i ds h
    exact absurd rfl (ne_of_mem_toDigits (n := n) (h ▸ List.mem_cons_self) (x := '-') (by decide))
  · rename_i ds h
    exact absurd rfl (ne_of_mem_toDigits (n := n) (h ▸ List.mem_cons_self) (x := '+') (by decide))
  · rfl

/-- **A whole number of 64 bits is read from its digits.** -/
theorem whole?_toDigits (hn : n < wholeBound) : whole? (Nat.toDigits 10 n) = some (n : Int) := by
  have hrange : inRange (n : Int) = true := by
    simp only [inRange, Bool.and_eq_true, decide_eq_true_eq]
    omega
  have hletter : ∀ {a x : Char} {ds : List Char}, Nat.toDigits 10 n = a :: x :: ds →
      x.isDigit = false → False := fun h hx =>
    ne_of_mem_toDigits (n := n) (h ▸ List.mem_cons_of_mem _ List.mem_cons_self) hx rfl
  unfold whole?
  split
  · exact (hletter ‹_› (by decide)).elim
  · exact (hletter ‹_› (by decide)).elim
  · exact (hletter ‹_› (by decide)).elim
  · rw [splitSign_toDigits]
    show Option.filter inRange (Option.map _ (decimal? (Nat.toDigits 10 n) >>= _)) = _
    rw [decimal?_toDigits]
    show Option.filter inRange (some (n : Int)) = _
    rw [Option.filter_some, if_pos hrange]

theorem scalar?_toDigits (hn : n < wholeBound) :
    scalar? (Nat.toDigits 10 n) = some (.whole (n : Int)) := by
  have hword : ∀ {a : Char} {ds : List Char}, a.isDigit = false → Nat.toDigits 10 n ≠ a :: ds :=
    fun ha h => ne_of_mem_toDigits (n := n) (h ▸ List.mem_cons_self) ha rfl
  rw [scalar?, if_neg (hword (by decide)), if_neg (hword (by decide)), whole?_toDigits hn]

/-! ### Words -/

/-- A word is read up to the end of its line. -/
theorem readScalar_word (hword : ∀ c ∈ word, isWordChar c = true) (h : scalar? word = some v) :
    readScalar (word ++ '\n' :: rest) = some (v, '\n' :: rest) := by
  have htake : (word ++ '\n' :: rest).takeWhile isWordChar = word := by
    rw [List.takeWhile_append_of_pos hword, List.takeWhile_cons_of_neg (by decide), List.append_nil]
  have hdrop : (word ++ '\n' :: rest).dropWhile isWordChar = '\n' :: rest := by
    rw [List.dropWhile_append_of_pos hword, List.dropWhile_cons_of_neg (by decide)]
  rw [readScalar, htake, hdrop, h]
  rfl

/-- What begins with a character of a word begins with no bracket and no mark. -/
theorem readValue_word (room : Nat) (hc : isWordChar c = true) :
    readValue room (c :: cs) = readScalar (c :: cs) := by
  unfold readValue
  split
  · rename_i heq
    exact absurd heq (cons_ne_of_class hc (by decide))
  · rename_i heq
    exact absurd heq (cons_ne_of_class hc (by decide))
  · rename_i heq
    exact absurd heq (cons_ne_of_class hc (by decide))
  · rename_i heq
    exact absurd heq (cons_ne_of_class hc (by decide))
  · rfl

/-! ### Quoted texts -/

/-- What is written for a text has no end of line of two characters. -/
theorem not_mem_quoted (s : String) : '\r' ∉ quoted s := by
  intro hr
  have hmark : '\r' ∉ (Quoting.best s.toList).marks := by
    intro hr
    have heq := List.eq_of_mem_replicate hr
    rw [Quoting.mark] at heq
    split at heq
    · exact absurd heq (by decide)
    · exact absurd heq (by decide)
  rw [quoted, ← List.append_nil (Quoting.write _ _), Quoting.write_eq] at hr
  simp only [List.mem_append, List.not_mem_nil, or_false] at hr
  rcases hr with hr | hr | hr | hr
  · exact hmark hr
  · split at hr
    · exact absurd hr (by decide)
    · cases hr
  · exact ((Quoting.best_fits s.toList).ends hr).1 rfl
  · exact hmark hr

/-- A quoted text is read as a value where a line ends after it. -/
theorem readValue_quoted (room : Nat) (s : String) :
    readValue room (skipBlank (quoted s ++ '\n' :: rest)) = some (.text s, '\n' :: rest) := by
  have htext : readText (quoted s ++ '\n' :: rest) = some (.text s, '\n' :: rest) :=
    readText_quoted s (by simp) (by simp)
  obtain ⟨tail, htail⟩ := (Quoting.best s.toList).write_cons s.toList ('\n' :: rest)
  change quoted s ++ '\n' :: rest = _ at htail
  rw [htail] at htext ⊢
  cases hq : (Quoting.best s.toList).escapes with
  | true =>
    have hmark : (Quoting.best s.toList).mark = '"' := if_pos hq
    rw [hmark] at htext ⊢
    show readValue room ('"' :: tail) = _
    cases room with
    | zero => exact htext
    | succ room => exact htext
  | false =>
    have hmark : (Quoting.best s.toList).mark = '\'' := if_neg (Bool.eq_false_iff.mp hq)
    rw [hmark] at htext ⊢
    show readValue room ('\'' :: tail) = _
    cases room with
    | zero => exact htext
    | succ room => exact htext

/-! ### Entries -/

/-- An entry that is read as it was written: its name needs no quotes, and what is written is read
as the value if the line ends after it. -/
structure Legible (e : String × Scalar) : Prop where
  named : e.1.toList ≠ []
  bare : ∀ c ∈ e.1.toList, isBare c = true
  ends : '\r' ∉ e.2.written
  reads : ∀ rest, readValue depth (skipBlank (e.2.written ++ '\n' :: rest))
    = some (e.2.value, '\n' :: rest)

/-- The line of an entry as the reader of a document gives it. -/
def pair (e : String × Scalar) : Key × Value :=
  (⟨[], e.1⟩, e.2.value)

variable {e : String × Scalar} {es : List (String × Scalar)}

/-- A line begins with a character of its name. -/
theorem Legible.line_eq (h : Legible e) : ∃ c cs, isBare c = true ∧ line e = c :: cs := by
  obtain ⟨c, cs, hname⟩ := List.exists_cons_of_ne_nil h.named
  have hc : isBare c = true := h.bare c (hname ▸ List.mem_cons_self)
  refine ⟨c, cs ++ ' ' :: '=' :: ' ' :: e.2.written ++ ['\n'], hc, ?_⟩
  rw [line, hname]
  rfl

theorem skipBlank_of_bare (hc : isBare c = true) : skipBlank (c :: cs) = c :: cs := by
  have hblank : isBlank c = false := isBlank_of_class hc (by decide) (by decide)
  rw [skipBlank, List.dropWhile_cons_of_neg (by simp [hblank])]

/-- A bare name with a blank after it is one part of a key. -/
theorem Legible.readPart (h : Legible e) :
    Toml.readPart (e.1.toList ++ ' ' :: cs) = some (e.1, ' ' :: cs) := by
  have htake : (e.1.toList ++ ' ' :: cs).takeWhile isBare = e.1.toList := by
    rw [List.takeWhile_append_of_pos h.bare,
      List.takeWhile_cons_of_neg (by decide), List.append_nil]
  have hdrop : (e.1.toList ++ ' ' :: cs).dropWhile isBare = ' ' :: cs := by
    rw [List.dropWhile_append_of_pos h.bare,
      List.dropWhile_cons_of_neg (by decide)]
  obtain ⟨c, ds, hname⟩ := List.exists_cons_of_ne_nil h.named
  have hc : isBare c = true := h.bare c (hname ▸ List.mem_cons_self)
  unfold Toml.readPart
  split
  · rename_i tail heq
    rw [hname] at heq
    exact absurd heq (cons_ne_of_class hc (by decide))
  · rename_i tail heq
    rw [hname] at heq
    exact absurd heq (cons_ne_of_class hc (by decide))
  · rw [htake, hdrop, if_neg (by simp [hname]), String.ofList_toList]

/-- **A legible entry is read as a pair, up to the end of its line.** -/
theorem Legible.readPair (h : Legible e) :
    Toml.readPair (readValue depth) (line e ++ rest) = some (pair e, '\n' :: rest) := by
  obtain ⟨c, cs, hc, hline⟩ := h.line_eq
  have hwritten : line e ++ rest
      = e.1.toList ++ ' ' :: '=' :: ' ' :: (e.2.written ++ '\n' :: rest) := by
    rw [line]
    simp only [List.append_assoc, List.cons_append, List.nil_append]
  have hskip : skipBlank (line e ++ rest) = line e ++ rest := by
    rw [hline, List.cons_append, skipBlank_of_bare hc]
  have hkey : readKey (line e ++ rest)
      = some (⟨[], e.1⟩, '=' :: ' ' :: (e.2.written ++ '\n' :: rest)) := by
    show readParts (78 + 1) _ = _
    rw [readParts, hskip, hwritten, h.readPart]
    rfl
  rw [Toml.readPair, hkey]
  show (readValue depth (skipBlank (' ' :: (e.2.written ++ '\n' :: rest)))).bind _ = _
  rw [show skipBlank (' ' :: (e.2.written ++ '\n' :: rest))
    = skipBlank (e.2.written ++ '\n' :: rest) from rfl, h.reads]
  rfl

theorem Legible.readLine (h : Legible e) :
    Toml.readLine (line e ++ rest) = some (.pair (pair e).1 (pair e).2, rest) := by
  obtain ⟨c, cs, hc, hline⟩ := h.line_eq
  unfold Toml.readLine
  split
  · rename_i tail heq
    rw [hline] at heq
    exact absurd heq (cons_ne_of_class hc (by decide))
  · rw [h.readPair]
    rfl

/-- The lines of legible entries are read as pairs, given one turn more than there are lines. -/
theorem readLines_entries (h : ∀ e ∈ es, Legible e) : ∀ left, es.length < left →
    readLines left (es.flatMap line) = some (es.map fun e => .pair (pair e).1 (pair e).2) := by
  induction es with
  | nil =>
    intro left hleft
    obtain ⟨left, rfl⟩ := Nat.exists_eq_succ_of_ne_zero (Nat.ne_of_gt hleft)
    rfl
  | cons e es ih =>
    intro left hleft
    obtain ⟨left, rfl⟩ := Nat.exists_eq_succ_of_ne_zero (Nat.ne_of_gt (Nat.zero_lt_of_lt hleft))
    obtain ⟨he, hes⟩ := List.forall_mem_cons.mp h
    obtain ⟨c, cs, hc, hline⟩ := he.line_eq
    have hskip : skipBlank (line e ++ es.flatMap line) = c :: (cs ++ es.flatMap line) := by
      rw [hline, List.cons_append, skipBlank_of_bare hc]
    rw [List.flatMap_cons, readLines, hskip]
    split
    · contradiction
    · rename_i tail heq
      exact absurd heq (cons_ne_of_class hc (by decide))
    · rename_i tail heq
      exact absurd heq (cons_ne_of_class hc (by decide))
    · rw [← List.cons_append, ← hline, he.readLine]
      show (readLines left (es.flatMap line)).bind _ = _
      rw [ih hes left (Nat.lt_of_succ_lt_succ hleft)]
      rfl

/-! ### Documents -/

theorem plainLines_eq (h : '\r' ∉ cs) : plainLines cs = cs := by
  induction cs with
  | nil => rfl
  | cons c cs ih =>
    rw [List.mem_cons, not_or] at h
    rw [plainLines, ih h.2]
    rintro rest rfl -
    exact h.1 rfl

theorem sections_pairs (ps : List (Key × Value)) :
    sections (ps.map fun p => .pair p.1 p.2) = (ps, []) := by
  induction ps with
  | nil => rfl
  | cons p ps ih => rw [List.map_cons, sections, ih]

theorem Branch.put_of_fresh {b : Branch} {name : String} {d : Draft} (h : b.lookup name = none) :
    b.put name d = b ++ [(name, d)] := by
  induction b with
  | nil => rfl
  | cons x b ih =>
    obtain ⟨m, y⟩ := x
    rw [List.lookup_cons] at h
    split at h
    · cases h
    · rename_i hne
      have hm : m ≠ name := fun hm => by simp [hm] at hne
      rw [put, if_neg hm, ih h]
      rfl

/-- An entry of a new name comes last. -/
theorem Branch.add_of_fresh {b : Branch} {name : String} (h : b.lookup name = none) :
    b.add ⟨[], name⟩ v = some (b ++ [(name, .value v)]) := by
  rw [add, within, if_neg (by simp [h]), put_of_fresh h]

theorem Branch.addAll_entries {b : Branch} (hnames : (es.map Prod.fst).Nodup)
    (hfresh : ∀ e ∈ es, b.lookup e.1 = none) :
    Branch.addAll b (es.map pair) = some (b ++ es.map fun e => (e.1, .value e.2.value)) := by
  induction es generalizing b with
  | nil => exact congrArg some (List.append_nil b).symm
  | cons e es ih =>
    rw [List.map_cons, List.nodup_cons] at hnames
    obtain ⟨he, hes⟩ := List.forall_mem_cons.mp hfresh
    have hlater : ∀ x ∈ es, (b ++ [(e.1, Draft.value e.2.value)]).lookup x.1 = none := by
      intro x hx
      have hne : x.1 ≠ e.1 := fun h => hnames.1 (h ▸ List.mem_map_of_mem hx)
      rw [List.lookup_append, hes x hx, List.lookup_cons, beq_eq_false_iff_ne.mpr hne]
      rfl
    rw [List.map_cons, addAll, List.foldlM_cons]
    show (b.add ⟨[], e.1⟩ e.2.value).bind (fun b => addAll b (es.map pair)) = _
    rw [add_of_fresh he]
    show addAll _ (es.map pair) = _
    rw [ih hnames.2 hlater, List.append_assoc]
    rfl

theorem Branch.finish_values (ps : List (String × Value)) :
    Branch.finish (ps.map fun p => (p.1, .value p.2)) = ps := by
  induction ps with
  | nil => rfl
  | cons p ps ih => rw [List.map_cons, finish, ih]; rfl

/-- The table of the lines of entries with different names. -/
theorem Branch.ofLines_entries (hnames : (es.map Prod.fst).Nodup) :
    Branch.ofLines (es.map fun e => .pair (pair e).1 (pair e).2)
      = some (es.map fun e => (e.1, .value e.2.value)) := by
  have hpairs : (es.map fun e => Line.pair (pair e).1 (pair e).2)
      = (es.map pair).map fun p => Line.pair p.1 p.2 := by
    rw [List.map_map]
    rfl
  rw [hpairs, ofLines, sections_pairs]
  show (addAll [] (es.map pair)).bind _ = _
  rw [addAll_entries hnames fun _ _ => rfl]
  rfl

theorem Branch.finish_entries (es : List (String × Scalar)) :
    Branch.finish (es.map fun e => (e.1, .value e.2.value)) = es.map fun e => (e.1, e.2.value) := by
  rw [← finish_values (es.map fun e => (e.1, e.2.value)), List.map_map]
  rfl

/-- No document of entries begins with a mark. -/
theorem afterMark_entries (h : ∀ e ∈ es, Legible e) :
    afterMark (es.flatMap line) = es.flatMap line := by
  cases es with
  | nil => rfl
  | cons e es =>
    obtain ⟨c, cs, hc, hline⟩ := (h e List.mem_cons_self).line_eq
    rw [List.flatMap_cons, hline, List.cons_append]
    unfold afterMark
    split
    · rename_i tail heq
      exact absurd heq (cons_ne_of_class hc (by decide))
    · rfl

/-- No line of an entry ends with two characters. -/
theorem not_mem_entries (h : ∀ e ∈ es, Legible e) : '\r' ∉ es.flatMap line := by
  intro hr
  obtain ⟨e, he, hr⟩ := List.mem_flatMap.mp hr
  rw [line] at hr
  simp only [List.mem_append, List.mem_cons, List.not_mem_nil, or_false] at hr
  rcases hr with (hr | hr | hr | hr | hr) | hr
  · exact ne_of_class ((h e he).bare _ hr) (x := '\r') (by decide) rfl
  · exact absurd hr (by decide)
  · exact absurd hr (by decide)
  · exact absurd hr (by decide)
  · exact (h e he).ends hr
  · exact absurd hr (by decide)

theorem length_le_entries (h : ∀ e ∈ es, Legible e) : es.length ≤ (es.flatMap line).length := by
  rw [List.length_flatMap, ← List.length_map (f := fun e => (line e).length)]
  refine List.length_le_sum_of_one_le _ fun i hi => ?_
  obtain ⟨e, he, rfl⟩ := List.mem_map.mp hi
  obtain ⟨c, cs, -, hline⟩ := (h e he).line_eq
  rw [hline]
  exact Nat.le_add_left 1 _

/-- **A document of legible entries is read as its entries**, if each has a name of its own. -/
theorem read_document (h : ∀ e ∈ es, Legible e) (hnames : (es.map Prod.fst).Nodup) :
    read (String.ofList (es.flatMap line)) = some (es.map fun e => (e.1, e.2.value)) := by
  rw [read, String.toList_ofList, afterMark_entries h, plainLines_eq (not_mem_entries h)]
  show (readLines _ _).bind _ = _
  rw [readLines_entries h _ (Nat.lt_succ_of_le (length_le_entries h))]
  show (Branch.ofLines _).bind _ = _
  rw [Branch.ofLines_entries hnames]
  show some (Branch.finish _) = _
  rw [Branch.finish_entries]

/-! ### Values without parts -/

/-- A word is legible. -/
theorem legible_word {e : String × Scalar} (hnamed : e.1.toList ≠ [])
    (hbare : ∀ c ∈ e.1.toList, isBare c = true) (hword : e.2.written.all isWordChar = true)
    (h : scalar? e.2.written = some e.2.value) : Legible e where
  named := hnamed
  bare := hbare
  ends hr := absurd (List.all_eq_true.mp hword _ hr) (by decide)
  reads rest := by
    have hchars := List.all_eq_true.mp hword
    cases hwritten : e.2.written with
    | nil =>
      rw [hwritten] at h
      cases h
    | cons w ws =>
      rw [hwritten] at h hchars
      have hw : isWordChar w = true := hchars w List.mem_cons_self
      have hblank : isBlank w = false := isBlank_of_class hw (by decide) (by decide)
      show readValue depth (skipBlank (w :: (ws ++ '\n' :: rest))) = some (_, '\n' :: rest)
      rw [skipBlank, List.dropWhile_cons_of_neg (by simp [hblank]), readValue_word depth hw]
      exact readScalar_word hchars h

/-- **Every value without parts is legible under a bare name**, unless it is a number that is too
large. -/
theorem legible_of_fits {e : String × Scalar} (hname : isBareName e.1 = true)
    (hfits : e.2.fits = true) : Legible e := by
  obtain ⟨name, v⟩ := e
  rw [isBareName, Bool.and_eq_true, Bool.not_eq_true', List.isEmpty_eq_false_iff,
    List.all_eq_true] at hname
  cases v with
  | text s =>
    exact ⟨hname.1, hname.2, not_mem_quoted s, fun rest => readValue_quoted depth s⟩
  | flag b =>
    cases b with
    | true => exact legible_word hname.1 hname.2 rfl rfl
    | false => exact legible_word hname.1 hname.2 rfl rfl
  | whole n =>
    have hdigits : (toString n).toList = Nat.toDigits 10 n := Nat.toList_repr
    refine legible_word hname.1 hname.2 (List.all_eq_true.mpr fun c hc => ?_) ?_
    · have hmem : c ∈ Nat.toDigits 10 n := hdigits ▸ hc
      have hdigit := Nat.isDigit_of_mem_toDigits (by decide) (by decide) hmem
      simp [isWordChar, Char.isAlphanum, hdigit]
    · show scalar? (toString n).toList = some (.whole n)
      rw [hdigits]
      exact scalar?_toDigits (of_decide_eq_true hfits)

theorem lookup_map_value (es : List (String × Scalar)) (name : String) :
    (es.map fun e => (e.1, e.2.value)).lookup name = (es.lookup name).map Scalar.value := by
  induction es with
  | nil => rfl
  | cons e es ih =>
    rw [List.map_cons, List.lookup_cons, List.lookup_cons, ih]
    cases name == e.1 <;> rfl

/-- **What is written can be read.** -/
theorem Format.standard_faithful : Format.standard.Faithful where
  reads es hnames h := by
    have hall : (es.all fun e => isBareName e.1 && e.2.fits) = true :=
      List.all_eq_true.mpr fun e he => Bool.and_eq_true_iff.mpr (h e he)
    have hlegible : ∀ e ∈ es, Legible e := fun e he => legible_of_fits (h e he).1 (h e he).2
    exact ⟨_, _, if_pos hall, read_document hlegible hnames, lookup_map_value es⟩
  refuses es e he hfits := by
    refine if_neg fun hall => ?_
    have hboth := List.all_eq_true.mp hall e he
    rw [hfits, Bool.and_false] at hboth
    cases hboth

end Toml

/-! ### Settings -/

namespace Settings

variable {s : Settings}

theorem names_entries (s : Settings) : (s.entries.map Prod.fst).Nodup := by
  rw [entries]
  cases s.workers with
  | none => exact (by decide : ["lazy", "thread_name_prefix"].Nodup)
  | some n => exact (by decide : ["lazy", "worker_threads", "thread_name_prefix"].Nodup)

/-- Settings hold no value that is too large but a number of workers. -/
theorem entries_fit (h : ∀ n, s.workers = some n → n < Toml.wholeBound) :
    ∀ e ∈ s.entries, Toml.isBareName e.1 = true ∧ e.2.fits = true := by
  have hlazy : Toml.isBareName "lazy" = true := by decide
  have hworkers : Toml.isBareName "worker_threads" = true := by decide
  have hthread : Toml.isBareName "thread_name_prefix" = true := by decide
  intro e he
  rw [entries, List.mem_append, List.mem_cons, List.mem_singleton, List.mem_map] at he
  rcases he with (rfl | ⟨n, hn, rfl⟩) | rfl
  · exact ⟨hlazy, rfl⟩
  · exact ⟨hworkers, decide_eq_true (h n (Option.mem_toList.mp hn))⟩
  · exact ⟨hthread, rfl⟩

/-- Only what the names are looked up as counts. -/
theorem ofEntries?_congr {xs ys : List (String × Toml.Value)}
    (h : ∀ name, xs.lookup name = ys.lookup name) : ofEntries? xs = ofEntries? ys := by
  simp only [ofEntries?, setting?, h]

/-- Settings are read back from their entries. -/
theorem ofEntries?_entries (s : Settings) :
    ofEntries? (s.entries.map fun e => (e.1, e.2.value)) = some s := by
  obtain ⟨lazy, workers, threadPrefix⟩ := s
  cases workers with
  | none => rfl
  | some n => rfl

variable {f : Toml.Format}

/-- **Settings are read back from their document**, whatever the format is. -/
theorem written?_read (hf : f.Faithful) (h : ∀ n, s.workers = some n → n < Toml.wholeBound) :
    ∃ content, s.written? f = some content ∧ (f.read content).bind ofEntries? = some s := by
  obtain ⟨content, table, hwrite, hread, hlookup⟩ :=
    hf.reads s.entries s.names_entries (entries_fit h)
  refine ⟨content, hwrite, ?_⟩
  rw [hread, Option.bind_some, ← s.ofEntries?_entries]
  exact ofEntries?_congr fun name => (hlookup name).trans (Toml.lookup_map_value _ _).symm

/-- Only settings with too many workers have no document. -/
theorem written?_eq_none (hf : f.Faithful) :
    s.written? f = none ↔ ∃ n, s.workers = some n ∧ Toml.wholeBound ≤ n := by
  constructor
  · intro hnone
    by_contra hfew
    have hbound : ∀ n, s.workers = some n → n < Toml.wholeBound :=
      fun n hn => Nat.lt_of_not_le fun hlarge => hfew ⟨n, hn, hlarge⟩
    obtain ⟨content, hsome, -⟩ := written?_read hf hbound
    rw [hnone] at hsome
    cases hsome
  · rintro ⟨n, hn, hlarge⟩
    refine hf.refuses s.entries ("worker_threads", .whole n) ?_ ?_
    · rw [entries, hn]
      exact List.mem_cons_of_mem _ List.mem_cons_self
    · exact decide_eq_false (Nat.not_lt_of_le hlarge)

end Settings

namespace Slot

/-- A file can be put in the place of what is there. -/
def Takes (s : Slot) : Prop :=
  ∀ content, s.replace (text content) = .ok (text content)

theorem takes_iff (s : Slot) : s.Takes ↔ s ≠ directory := by
  cases s with
  | directory => exact iff_of_false (fun h => nomatch h "") (fun h => h rfl)
  | missing => exact iff_of_true (fun _ => rfl) nofun
  | text old => exact iff_of_true (fun _ => rfl) nofun
  | undecodable => exact iff_of_true (fun _ => rfl) nofun

/-- What lies there after an attempt to save settings. -/
def saved (s : Slot) (settings : Settings) (f : Toml.Format := .standard) : Slot :=
  (s.write settings f).2

/-- **What was saved is loaded.**  Whatever faithful format documents have, accepted settings that
have a written form are loaded, all of them and unchanged, from wherever they could be put, whatever
was there and whatever the thread prefix is.  Without a written form, which only too many workers
lack, the attempt to save them says so and leaves what was there.  Nothing but a directory keeps a
file from being put.  The standard format is faithful. -/
theorem load_save (s : Slot) (settings : Settings) (path : String) :
    Toml.Format.standard.Faithful ∧ ∀ f : Toml.Format, f.Faithful →
      (settings.validate = .ok settings → (∀ n, settings.workers = some n → n < Toml.wholeBound) →
          s.Takes →
          ∃ file, s.save settings f = .ok file ∧ s.saved settings f = file ∧
            file.load path f = .ok settings) ∧
        (settings.written? f = none →
          s.save settings f = .error (.invalidConfig "failed to serialize config") ∧
            s.saved settings f = s) ∧
        (settings.written? f = none ↔ ∃ n, settings.workers = some n ∧ Toml.wholeBound ≤ n) ∧
        (s.Takes ↔ s ≠ directory) := by
  refine ⟨Toml.Format.standard_faithful, fun f hf =>
    ⟨fun hvalid hbound htakes => ?_, fun hnone => ?_, Settings.written?_eq_none hf, s.takes_iff⟩⟩
  · -- what was there before is not looked at, so only the document has to be read back
    obtain ⟨content, hwritten, hread⟩ := Settings.written?_read hf hbound
    have hwrite : s.write settings f = (.ok (), text content) := by
      rw [write, hwritten]
      dsimp only
      rw [htakes content]
    have hload : (text content).load path f = settings.validate := by
      unfold load
      simp only [text?, hread]
    exact ⟨text content, by rw [save, hwrite], by rw [saved, hwrite], hload.trans hvalid⟩
  · -- the document is made before the file is touched
    have hwrite : s.write settings f
        = (.error (.invalidConfig "failed to serialize config"), s) := by
      rw [write, hnone]
    exact ⟨by rw [save, hwrite], by rw [saved, hwrite]⟩

/-- No quoting shows this thread prefix as it is; and one worker more is one too many. -/
theorem load_save_in_place_of_bytes :
    (∃ file, undecodable.save ⟨true, some 9223372036854775807, "\"\"\"\'\'\'\\\r\n\x01é\u00a0"⟩
        = .ok file ∧
      file.load "canopy.toml"
        = .ok ⟨true, some 9223372036854775807, "\"\"\"\'\'\'\\\r\n\x01é\u00a0"⟩) ∧
      undecodable.saved ⟨false, some 9223372036854775808, "suite"⟩ = undecodable := by
  constructor
  · obtain ⟨hstandard, hall⟩ := load_save undecodable
      ⟨true, some 9223372036854775807, "\"\"\"\'\'\'\\\r\n\x01é\u00a0"⟩ "canopy.toml"
    obtain ⟨file, hsave, -, hload⟩ := (hall .standard hstandard).1 (by rfl)
      (by rintro n ⟨⟩; decide) ((takes_iff _).mpr nofun)
    exact ⟨file, hsave, hload⟩
  · obtain ⟨hstandard, hall⟩ :=
      load_save undecodable ⟨false, some 9223372036854775808, "suite"⟩ "canopy.toml"
    obtain ⟨-, hnone, htoo, -⟩ := hall .standard hstandard
    exact (hnone (htoo.mpr ⟨_, rfl, by decide⟩)).2

example : ({ workers := some 2, threadPrefix := "a\"b\\" } : Settings).written?
    = some "lazy = false\nworker_threads = 2\nthread_name_prefix = \'a\"b\\\'\n" := by
  decide

end Slot

end TestTree

/-
Quoted texts are read back as they were written.

* `Quoting.Piece`, `Quoting.Spells` : what stands for one character, and for a text;
* `Quoting.Spells.body` : a spelling between marks is read as the text;
* `Quoting.spells_escape`, `spells_literal` : the two ways to write a text spell it;
* `readText_quoted` : **whatever the text, what is written for it is read as it**.

## Design notes

A mark does not end a text by itself: three in a row do, and up to two more before them belong to
the text.  So a spelling counts the bare marks directly before it, and never lets them become as
many as close the text.  Where bare marks are followed by the closing ones, the reader takes them
all together; `Spells.front` says that it does so only there.
-/
import TestTree.Toml.Phrase

namespace TestTree.Toml

namespace Quoting

variable {q : Quoting} {c : Char} {s w cs rest : List Char} {n k : Nat}

/-! ### Steps of the reader -/

theorem width_pos (q : Quoting) : 0 < q.width := by
  rw [width]
  split <;> decide

theorem mark_ne_backslash (q : Quoting) : q.mark ≠ '\\' := by
  rw [mark]
  split <;> decide

theorem mark_ne_newline (q : Quoting) : q.mark ≠ '\n' := by
  rw [mark]
  split <;> decide

theorem isPlain_mark (q : Quoting) : isPlain q.mark = true := by
  rw [mark]
  split <;> decide

/-- How many marks are at the front. -/
def front (q : Quoting) (cs : List Char) : Nat :=
  (cs.takeWhile (· = q.mark)).length

theorem front_mark (q : Quoting) (cs : List Char) : q.front (q.mark :: cs) = q.front cs + 1 := by
  rw [front, List.takeWhile_cons_of_pos (by simp)]
  rfl

theorem front_of_ne (h : c ≠ q.mark) : q.front (c :: cs) = 0 := by
  rw [front, List.takeWhile_cons_of_neg (by simpa using h)]
  rfl

theorem front_eq_zero (h : cs.head? ≠ some q.mark) : q.front cs = 0 := by
  cases cs with
  | nil => rfl
  | cons c cs => exact front_of_ne fun hc => h (congrArg some hc)

theorem front_replicate (q : Quoting) (cs : List Char) :
    ∀ k, q.front (List.replicate k q.mark ++ cs) = q.front cs + k
  | 0 => rfl
  | k + 1 => by
    rw [List.replicate_succ, List.cons_append, front_mark, front_replicate q cs k, Nat.add_assoc]

theorem close?_eq_none (h : q.front cs < q.width) : q.close? cs = none :=
  if_neg (Nat.not_le_of_lt h)

/-- Where nothing but `k` marks is left before the closing ones, these belong to the text. -/
theorem close?_marks (hk : k < q.width) (hrest : rest.head? ≠ some q.mark) :
    q.close? (List.replicate k q.mark ++ (q.marks ++ rest))
      = some (List.replicate k q.mark, rest) := by
  have hmarks : List.replicate k q.mark ++ (q.marks ++ rest)
      = List.replicate (k + q.width) q.mark ++ rest := by
    rw [marks, ← List.append_assoc, List.replicate_append_replicate]
  have hfront : q.front (List.replicate (k + q.width) q.mark ++ rest) = k + q.width := by
    rw [front_replicate, front_eq_zero hrest, Nat.zero_add]
  have hkept : min (k + q.width - q.width) (q.width - 1) = k := by omega
  rw [hmarks, close?]
  show (if q.width ≤ q.front _ then
      some (List.replicate (min (q.front _ - q.width) (q.width - 1)) _,
        List.drop (min (q.front _ - q.width) (q.width - 1) + q.width) _)
    else none) = _
  rw [hfront, if_pos (Nat.le_add_left _ _), hkept, List.drop_left' List.length_replicate]

theorem body_of_close {e : List Char × List Char} (h : q.close? cs = some e) :
    q.body .text cs = some e := by
  cases cs with
  | nil =>
    rw [close?_eq_none (by exact q.width_pos)] at h
    cases h
  | cons c cs => simp [body, h]

/-- A character that is no mark to close with. -/
theorem body_text (h : q.front (c :: cs) < q.width) : q.body .text (c :: cs)
    = if q.escapes && c = '\\' then q.body .escape cs
      else if isPlain c || (q.lines && c = '\n') then
        (q.body .text cs).map fun p => (c :: p.1, p.2)
      else none := by
  rw [body]
  · simp only [close?_eq_none h, Bool.false_and, Bool.false_eq_true, if_false]
    cases q.body .text cs <;> rfl
  all_goals nofun

/-! ### Spellings -/

/-- The characters `s`, which begin with no mark, are read as `c`. -/
structure Piece (q : Quoting) (s : List Char) (c : Char) : Prop where
  front : ∀ rest, q.front (s ++ rest) = 0
  reads : ∀ rest, q.body .text (s ++ rest) = (q.body .text rest).map fun p => (c :: p.1, p.2)

/-- The characters `w` spell a text, with `n` bare marks directly before them. -/
inductive Spells (q : Quoting) : (n : Nat) → (w text : List Char) → Prop
  | nil {n : Nat} : Spells q n [] []
  | mark {n : Nat} {w cs : List Char} (hn : n + 1 < q.width) (h : Spells q (n + 1) w cs) :
      Spells q n (q.mark :: w) (q.mark :: cs)
  | piece {n : Nat} {s w cs : List Char} {c : Char} (hs : q.Piece s c) (h : Spells q 0 w cs) :
      Spells q n (s ++ w) (c :: cs)

/-- Nothing but bare marks is left, or there are too few of them to close the text. -/
theorem Spells.front (h : q.Spells n w cs) (hn : n < q.width) :
    (∃ k, n + k < q.width ∧ w = List.replicate k q.mark ∧ cs = List.replicate k q.mark) ∨
      ∀ rest, n + q.front (w ++ rest) < q.width := by
  induction h with
  | nil => exact .inl ⟨0, hn, rfl, rfl⟩
  | @mark n w cs hm _ ih =>
    rcases ih hm with ⟨k, hk, rfl, rfl⟩ | hlt
    · exact .inl ⟨k + 1, by omega, List.replicate_succ.symm, List.replicate_succ.symm⟩
    · refine .inr fun rest => ?_
      have := hlt rest
      rw [List.cons_append, front_mark]
      omega
  | piece hs _ _ =>
    refine .inr fun rest => ?_
    rw [List.append_assoc, hs.front]
    exact hn

/-- **What spells a text between marks is read as the text.** -/
theorem Spells.body (h : q.Spells n w cs) (hn : n < q.width) (hrest : rest.head? ≠ some q.mark) :
    q.body .text (w ++ (q.marks ++ rest)) = some (cs, rest) := by
  induction h with
  | nil => exact body_of_close (close?_marks (k := 0) q.width_pos hrest)
  | @mark n w cs hm h ih =>
    rcases (Spells.mark hm h).front hn with ⟨k, hk, hw, hcs⟩ | hlt
    · rw [hw, hcs]
      exact body_of_close (close?_marks (by omega) hrest)
    · have hfront := hlt (q.marks ++ rest)
      rw [List.cons_append] at hfront ⊢
      rw [body_text (by omega), ih hm, isPlain_mark]
      simp [q.mark_ne_backslash]
  | piece hs _ ih => rw [List.append_assoc, hs.reads, ih q.width_pos]; rfl

/-! ### Characters -/

/-- A character that stands for itself. -/
theorem piece_plain (hc : c ≠ q.mark) (he : q.escapes = true → c ≠ '\\')
    (hp : isPlain c = true ∨ q.lines = true ∧ c = '\n') : q.Piece [c] c where
  front _ := front_of_ne hc
  reads rest := by
    have hfront : q.front (c :: rest) < q.width := by
      rw [front_of_ne hc]
      exact q.width_pos
    rw [List.singleton_append, body_text hfront, if_neg (by simpa using he),
      if_pos (by simpa using hp)]

theorem front_backslash (q : Quoting) (cs : List Char) : q.front ('\\' :: cs) = 0 :=
  front_of_ne q.mark_ne_backslash.symm

/-- What follows a backslash is read as a character. -/
theorem piece_escape (hq : q.escapes = true) (h : ∀ rest, q.body .escape (s ++ rest)
    = (q.body .text rest).map fun p => (c :: p.1, p.2)) : q.Piece ('\\' :: s) c where
  front rest := q.front_backslash _
  reads rest := by
    have hfront : q.front ('\\' :: (s ++ rest)) < q.width := by
      rw [front_backslash]
      exact q.width_pos
    rw [List.cons_append, body_text hfront, if_pos (by simp [hq]), h]

/-- A letter for a character. -/
theorem piece_letter (hq : q.escapes = true) {letter : Char} (h : escaped? letter = some c) :
    q.Piece ['\\', letter] c := by
  refine piece_escape hq fun rest => ?_
  have hletter : letter ≠ 'u' ∧ letter ≠ 'U' ∧ letter ≠ '\n' ∧ isBlank letter = false := by
    refine ⟨?_, ?_, ?_, ?_⟩
    · rintro rfl; cases h
    · rintro rfl; cases h
    · rintro rfl; cases h
    · rw [isBlank, Bool.or_eq_false_iff, decide_eq_false_iff_not, decide_eq_false_iff_not]
      constructor
      · rintro rfl; cases h
      · rintro rfl; cases h
  obtain ⟨hu, hU, hn, hb⟩ := hletter
  rw [List.singleton_append, body, if_neg hu, if_neg hU, if_neg (by simp [hn]),
    if_neg (by simp [hb]), h]
  cases q.body .text rest <;> rfl

/-- A digit of a code point that is not the last one. -/
theorem body_code {left value d : Nat} (h : digit? 16 c = some d) :
    q.body (.code (left + 2) value) (c :: cs) = q.body (.code (left + 1) (value * 16 + d)) cs := by
  rw [body, h]
  rfl

/-- The last digit of a code point. -/
theorem body_code_last {value d : Nat} {x : Char} (h : digit? 16 c = some d)
    (hx : charOf? (value * 16 + d) = some x) : q.body (.code 1 value) (c :: cs)
      = (q.body .text cs).map fun p => (x :: p.1, p.2) := by
  rw [body, h]
  simp only [Option.bind_eq_bind, Option.bind_some, Nat.le_refl, if_true, hx]
  cases q.body .text cs <;> rfl

theorem charOf?_toNat (c : Char) : charOf? c.toNat = some c := by
  rw [charOf?, if_pos (show c.toNat.isValidChar from c.valid), Char.ofNat_toNat]

/-- The hexadecimal digit of a number, in capitals. -/
theorem digit?_capital : ∀ d < 16,
    digit? 16 (Char.ofNat (if d < 10 then '0'.toNat + d else 'A'.toNat + d - 10)) = some d := by
  decide

/-- The code point of a character in four digits. -/
theorem piece_code (hq : q.escapes = true) (hc : c.toNat < 65536) :
    q.Piece ('\\' :: 'u' :: fourDigits c.toNat) c := by
  refine piece_escape hq fun rest => ?_
  have hdigit : ∀ m, digit? 16 (Char.ofNat (if m % 16 < 10 then '0'.toNat + m % 16
      else 'A'.toNat + m % 16 - 10)) = some (m % 16) := fun m =>
    digit?_capital _ (Nat.mod_lt _ (by decide))
  have hvalue : (((0 * 16 + c.toNat / 4096 % 16) * 16 + c.toNat / 256 % 16) * 16
      + c.toNat / 16 % 16) * 16 + c.toNat % 16 = c.toNat := by omega
  rw [List.cons_append, body, if_pos rfl]
  show q.body (.code 4 0) (_ :: _ :: _ :: _ :: rest) = _
  rw [body_code (hdigit _), body_code (hdigit _), body_code (hdigit _)]
  refine body_code_last (hdigit _) ?_
  rw [hvalue]
  exact charOf?_toNat c

theorem isPlain_of_not_isCode (h : isCode c = false) (hn : c ≠ '\n') : isPlain c = true := by
  simp only [isCode, Bool.or_eq_false_iff, Bool.and_eq_false_iff, decide_eq_false_iff_not] at h
  simp only [isPlain, Bool.or_eq_true, Bool.and_eq_true, decide_eq_true_eq]
  by_cases ht : c = '\t'
  · exact .inl ht
  · refine .inr ⟨?_, by simpa using h.2⟩
    simp [ht, hn] at h
    omega

/-- **A character is spelled by what is written for it.** -/
theorem piece_escapedChar (hq : q.escapes = true) (hc : c ≠ '"') :
    q.Piece (q.escapedChar c) c := by
  have hmark : c ≠ q.mark := by rwa [mark, if_pos hq]
  unfold escapedChar
  split
  · exact piece_letter hq rfl
  · exact piece_letter hq rfl
  · exact piece_letter hq rfl
  · exact piece_letter hq rfl
  · exact piece_letter hq rfl
  · split
    · exact piece_plain hmark (fun _ => by decide) (.inr ⟨‹_›, rfl⟩)
    · exact piece_letter hq rfl
  · rename_i hb ht hf hr hbackslash hn
    split
    · rename_i hcode
      refine piece_code hq ?_
      simp only [isCode, Bool.or_eq_true, Bool.and_eq_true, decide_eq_true_eq] at hcode
      omega
    · rename_i hcode
      exact piece_plain hmark (fun _ => hbackslash)
        (.inl (isPlain_of_not_isCode (Bool.eq_false_iff.mpr hcode) hn))

/-! ### Texts -/

/-- **A text is spelled by its escapes.** -/
theorem spells_escape (hq : q.escapes = true) (cs : List Char) :
    ∀ n, q.Spells n (q.escape n cs) cs := by
  have hmark : q.mark = '"' := if_pos hq
  induction cs with
  | nil => intro n; exact .nil
  | cons c cs ih =>
    intro n
    rw [escape]
    split
    · rename_i hc
      split
      · rename_i hn
        rw [hc, ← hmark]
        exact .mark hn (ih (n + 1))
      · rw [hc]
        exact .piece (piece_letter hq rfl) (ih 0)
    · rename_i hc
      exact .piece (piece_escapedChar hq hc) (ih 0)

theorem le_longestRun (m : Char) (cs : List Char) : ∀ n, n ≤ longestRun m n cs := by
  induction cs with
  | nil => intro n; exact Nat.le_refl n
  | cons c cs ih =>
    intro n
    rw [longestRun]
    split
    · exact Nat.le_of_succ_le (ih (n + 1))
    · exact Nat.le_max_left _ _

/-- **A text whose marks are few spells itself**, if it needs no escapes. -/
theorem spells_literal (hq : q.escapes = false) (cs : List Char)
    (hp : ∀ c ∈ cs, isPlain c = true ∨ q.lines = true ∧ c = '\n') :
    ∀ n, longestRun q.mark n cs < q.width → q.Spells n cs cs := by
  induction cs with
  | nil => intro n _; exact .nil
  | cons c cs ih =>
    intro n hrun
    obtain ⟨hc, hcs⟩ := List.forall_mem_cons.mp hp
    rw [longestRun] at hrun
    split at hrun
    · rename_i hmark
      have hn := Nat.lt_of_le_of_lt (le_longestRun q.mark cs (n + 1)) hrun
      rw [hmark]
      exact .mark hn (ih hcs (n + 1) hrun)
    · rename_i hmark
      have hpiece : q.Piece [c] c := piece_plain hmark (fun he => absurd he (by rw [hq]; decide)) hc
      exact .piece hpiece (ih hcs 0 (by omega))

/-- The way of quoting can be used for a text. -/
def Fits (q : Quoting) (cs : List Char) : Prop :=
  q.escapes = true ∨ q.shows cs = true

theorem best_fits (cs : List Char) : (best cs).Fits cs := by
  rw [best]
  generalize hf : List.find? (fun q : Quoting => q.shows cs) _ = found
  cases found with
  | none => exact .inl rfl
  | some q =>
    have hq := List.find?_some hf
    exact .inr hq

/-- What stands between the marks, an end of line at the beginning apart. -/
def content (q : Quoting) (cs : List Char) : List Char :=
  if q.escapes then q.escape 0 cs else cs

theorem Fits.spells (h : q.Fits cs) : q.Spells 0 (q.content cs) cs := by
  rw [content]
  split
  · exact spells_escape ‹_› cs 0
  · rename_i hq
    have hshows := h.resolve_left hq
    simp only [shows, Bool.and_eq_true, Bool.not_eq_true', decide_eq_true_eq] at hshows
    obtain ⟨⟨⟨hcode, hlines⟩, -⟩, hrun⟩ := hshows
    refine spells_literal (Bool.eq_false_iff.mpr hq) cs (fun c hc => ?_) 0 hrun
    by_cases hn : c = '\n'
    · refine .inr ⟨?_, hn⟩
      have hcontains : cs.contains '\n' = true := List.contains_iff_mem.mpr (hn ▸ hc)
      rw [hcontains] at hlines
      simpa using hlines
    · have hplain := Bool.eq_false_iff.mpr (List.any_eq_false.mp hcode c hc)
      exact .inl (isPlain_of_not_isCode hplain hn)

/-! ### Ends of lines -/

theorem capital_ne : ∀ d < 16,
    Char.ofNat (if d < 10 then '0'.toNat + d else 'A'.toNat + d - 10) ≠ '\r' ∧
      Char.ofNat (if d < 10 then '0'.toNat + d else 'A'.toNat + d - 10) ≠ '\n' := by
  decide

/-- No end of line is written for a character but for an end of line. -/
theorem ends_escapedChar {x : Char} (hx : x ∈ q.escapedChar c) :
    x ≠ '\r' ∧ (x = '\n' → c = '\n') := by
  have hletters : ∀ {a b : Char}, a ≠ '\r' → a ≠ '\n' → b ≠ '\r' → b ≠ '\n' → x ∈ [a, b] →
      x ≠ '\r' ∧ (x = '\n' → c = '\n') := by
    intro a b ha ha' hb hb' hx
    simp only [List.mem_cons, List.not_mem_nil, or_false] at hx
    rcases hx with rfl | rfl
    · exact ⟨ha, fun h => absurd h ha'⟩
    · exact ⟨hb, fun h => absurd h hb'⟩
  unfold escapedChar at hx
  split at hx
  · exact hletters (by decide) (by decide) (by decide) (by decide) hx
  · exact hletters (by decide) (by decide) (by decide) (by decide) hx
  · exact hletters (by decide) (by decide) (by decide) (by decide) hx
  · exact hletters (by decide) (by decide) (by decide) (by decide) hx
  · exact hletters (by decide) (by decide) (by decide) (by decide) hx
  · split at hx
    · rw [List.mem_singleton.mp hx]
      exact ⟨by decide, fun _ => rfl⟩
    · exact hletters (by decide) (by decide) (by decide) (by decide) hx
  · rename_i hb ht hf hr hbackslash hn
    split at hx
    · have hfour : x ≠ '\r' ∧ x ≠ '\n' := by
        simp only [fourDigits, List.map_cons, List.map_nil, List.mem_cons, List.not_mem_nil,
          or_false] at hx
        rcases hx with rfl | rfl | rfl | rfl | rfl | rfl
        · decide
        · decide
        · exact capital_ne _ (Nat.mod_lt _ (by decide))
        · exact capital_ne _ (Nat.mod_lt _ (by decide))
        · exact capital_ne _ (Nat.mod_lt _ (by decide))
        · exact capital_ne _ (Nat.mod_lt _ (by decide))
      exact ⟨hfour.1, fun h => absurd h hfour.2⟩
    · rw [List.mem_singleton.mp hx]
      exact ⟨hr, fun h => absurd h hn⟩

theorem ends_escape {x : Char} (cs : List Char) :
    ∀ n, x ∈ q.escape n cs → x ≠ '\r' ∧ (x = '\n' → x ∈ cs) := by
  induction cs with
  | nil => intro n hx; cases hx
  | cons c cs ih =>
    intro n hx
    have hrest : ∀ {m}, x ∈ q.escape m cs → x ≠ '\r' ∧ (x = '\n' → x ∈ c :: cs) := fun h =>
      (ih _ h).imp_right fun k hn => List.mem_cons_of_mem _ (k hn)
    rw [escape] at hx
    split at hx
    · split at hx
      · rcases List.mem_cons.mp hx with rfl | hx
        · exact ⟨by decide, fun h => absurd h (by decide)⟩
        · exact hrest hx
      · rcases List.mem_cons.mp hx with rfl | hx
        · exact ⟨by decide, fun h => absurd h (by decide)⟩
        · rcases List.mem_cons.mp hx with rfl | hx
          · exact ⟨by decide, fun h => absurd h (by decide)⟩
          · exact hrest hx
    · rcases List.mem_append.mp hx with hx | hx
      · exact (ends_escapedChar hx).imp_right fun k hn => by
          rw [hn, k hn]
          exact List.mem_cons_self
      · exact hrest hx

/-- A quoted text has no ends of lines but its own. -/
theorem Fits.ends (h : q.Fits cs) {x : Char} (hx : x ∈ q.content cs) :
    x ≠ '\r' ∧ (x = '\n' → x ∈ cs) := by
  rw [content] at hx
  split at hx
  · exact ends_escape cs 0 hx
  · rename_i hq
    have hshows := h.resolve_left hq
    simp only [shows, Bool.and_eq_true, Bool.not_eq_true'] at hshows
    obtain ⟨⟨⟨hcode, -⟩, -⟩, -⟩ := hshows
    refine ⟨?_, fun _ => hx⟩
    rintro rfl
    exact List.any_eq_false.mp hcode _ hx (by decide)

/-! ### Reading what was written -/

/-- What is written begins on a line of its own if it holds an end of line. -/
theorem write_eq (q : Quoting) (cs rest : List Char) : q.write cs ++ rest
    = q.marks ++ ((if q.lines && cs.contains '\n' then ['\n'] else [])
      ++ (q.content cs ++ (q.marks ++ rest))) := by
  rw [write, content]
  simp only [List.append_assoc]

/-- What is written begins with a mark. -/
theorem write_cons (q : Quoting) (cs rest : List Char) :
    ∃ tail, q.write cs ++ rest = q.mark :: tail := by
  obtain ⟨m, hm⟩ := Nat.exists_eq_add_of_lt q.width_pos
  rw [write_eq, marks, hm, Nat.zero_add, List.replicate_succ]
  exact ⟨_, rfl⟩

theorem afterOpening_newline (hl : q.lines = true) (cs : List Char) :
    q.afterOpening (q.marks ++ '\n' :: cs) = cs := by
  rw [afterOpening, marks, List.drop_left' List.length_replicate, hl]
  rfl

theorem afterOpening_of_ne (h : q.lines = true → cs.head? ≠ some '\n') :
    q.afterOpening (q.marks ++ cs) = cs := by
  rw [afterOpening, marks, List.drop_left' List.length_replicate]
  split
  · rename_i hl
    exact absurd rfl (h hl)
  · rfl

/-- Neither a text on one line nor its marks begin with an end of line. -/
theorem Fits.head?_ne (h : q.Fits cs) (hn : '\n' ∉ cs) (rest : List Char) :
    (q.content cs ++ (q.marks ++ rest)).head? ≠ some '\n' := by
  cases hc : q.content cs with
  | nil =>
    obtain ⟨m, hm⟩ := Nat.exists_eq_add_of_lt q.width_pos
    rw [marks, hm, Nat.zero_add, List.replicate_succ]
    intro heq
    exact q.mark_ne_newline (Option.some.inj heq)
  | cons x xs =>
    intro heq
    have hx : x = '\n' := Option.some.inj heq
    have hmem : x ∈ q.content cs := hc ▸ List.mem_cons_self
    exact hn (hx ▸ (h.ends hmem).2 hx)

/-- The end of line that is not part of the text is skipped, and no other. -/
theorem Fits.afterOpening_write (h : q.Fits cs) :
    q.afterOpening (q.write cs ++ rest) = q.content cs ++ (q.marks ++ rest) := by
  rw [write_eq]
  cases hl : q.lines with
  | false =>
    refine afterOpening_of_ne fun k => ?_
    rw [hl] at k
    cases k
  | true =>
    rw [Bool.true_and]
    split
    · exact afterOpening_newline hl _
    · rename_i hn
      have hone : '\n' ∉ cs := fun hm => hn (List.contains_iff_mem.mpr hm)
      exact afterOpening_of_ne fun _ => h.head?_ne hone rest

/-- **What is written for a text is read as it.** -/
theorem Fits.read_write (h : q.Fits cs) (hrest : rest.head? ≠ some q.mark) :
    q.read (q.write cs ++ rest) = some (String.ofList cs, rest) := by
  rw [read, h.afterOpening_write, h.spells.body q.width_pos hrest]
  rfl

/-- As many marks are at the front as open the text, or a second one that closes it. -/
theorem Fits.front_write (h : q.Fits cs) (hrest : rest.head? ≠ some q.mark) :
    decide (3 ≤ q.front (q.write cs ++ rest)) = q.lines := by
  rw [write_eq, marks, front_replicate]
  cases hl : q.lines with
  | true =>
    rw [width, hl]
    exact decide_eq_true (Nat.le_add_left 3 _)
  | false =>
    have hwidth : q.width = 1 := by rw [width, hl]; rfl
    have hspells := h.spells
    rw [hwidth, Bool.false_and, if_neg Bool.false_ne_true, List.nil_append]
    refine decide_eq_false (Nat.not_le_of_lt ?_)
    rcases hspells.front q.width_pos with ⟨k, hk, hw, -⟩ | hlt
    · obtain rfl : k = 0 := by omega
      rw [hw]
      have hfront := q.front_replicate rest 1
      rw [front_eq_zero hrest] at hfront
      show q.front (List.replicate 1 q.mark ++ rest) + 1 < 3
      omega
    · have := hlt (List.replicate 1 q.mark ++ rest)
      omega

/-- The marks at the front tell the way of quoting. -/
theorem Fits.readText (h : q.Fits cs) (hrest : rest.head? ≠ some q.mark) :
    Toml.readText (q.write cs ++ rest) = some (.text (String.ofList cs), rest) := by
  have hhead : (q.write cs ++ rest).head? = some q.mark := by
    obtain ⟨tail, htail⟩ := q.write_cons cs rest
    rw [htail]
    rfl
  have hmark : decide (q.mark = '"') = q.escapes := by
    rw [mark]
    cases q.escapes <;> rfl
  rw [Toml.readText, hhead]
  show (read ⟨decide (q.mark = '"'), decide (3 ≤ q.front _)⟩ _ >>= fun p =>
    some (Value.text p.1, p.2)) = _
  rw [hmark, h.front_write hrest, h.read_write hrest]
  rfl

end Quoting

/-- **Every text is read as it was written**, whatever quoting is the plainest for it. -/
theorem readText_quoted (s : String) {rest : List Char} (hdouble : rest.head? ≠ some '"')
    (hsingle : rest.head? ≠ some '\'') : readText (quoted s ++ rest) = some (.text s, rest) := by
  have hrest : rest.head? ≠ some (Quoting.best s.toList).mark := by
    rw [Quoting.mark]
    split
    · exact hdouble
    · exact hsingle
  rw [quoted, (Quoting.best_fits s.toList).readText hrest, String.ofList_toList]

end TestTree.Toml

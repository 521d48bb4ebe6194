import Mathlib.Data.List.TakeWhile
import SatLab.Text.Blank
import SatLab.Text.Numeral
/-!
What the division of text undoes. A text is divided into words and into lines in exactly one way,
and both are described here by the texts that have a given division. The first word and the rest
of a line survive the trimming of its blanks.
-/

set_option autoImplicit false
set_option relaxedAutoImplicit false

namespace SatLab.Text

def IsWord (w : List Char) : Prop := w ≠ [] ∧ ∀ c ∈ w, isBlank c = false

/-- Texts made of the given words. A word is followed by a blank or by nothing, and further blanks
may stand anywhere around it. -/
inductive Spaced : List (List Char) → List Char → Prop
  | nil : Spaced [] []
  | blank {ws : List (List Char)} {c : Char} {s : List Char} (gap : isBlank c = true)
      (rest : Spaced ws s) : Spaced ws (c :: s)
  | word {w : List Char} {ws : List (List Char)} {s : List Char} (isWord : IsWord w)
      (ends : ∀ c ∈ s.head?, isBlank c = true) (rest : Spaced ws s) : Spaced (w :: ws) (w ++ s)

/-- Texts made of the given lines. Each line is ended by a line feed, which the last one may lack
unless it is empty. -/
inductive Lined : List (List Char) → List Char → Prop
  | nil : Lined [] []
  | last {l : List Char} (some : l ≠ []) (unbroken : '\n' ∉ l) : Lined [l] l
  | line {l : List Char} {ls : List (List Char)} {s : List Char} (unbroken : '\n' ∉ l)
      (rest : Lined ls s) : Lined (l :: ls) (l ++ '\n' :: s)

section Words

variable {c : Char} {gap s w : List Char} {ws : List (List Char)}

private theorem exists_words_cons (solid : isBlank c = false) (s : List Char) :
    ∃ w ws, words (c :: s) = (c :: w) :: ws := by
  rw [words.eq_def]
  simp only [solid, Bool.false_eq_true, if_false]
  split
  · exact ⟨_, _, rfl⟩
  · split
    · exact ⟨_, _, rfl⟩
    · split <;> exact ⟨_, _, rfl⟩

private theorem words_append (isWord : IsWord w) (ends : ∀ c ∈ s.head?, isBlank c = true) :
    words (w ++ s) = w :: words s := by
  obtain ⟨some, solid⟩ := isWord
  induction w with
  | nil => exact absurd rfl some
  | cons c w ih =>
    have first : isBlank c = false := solid c List.mem_cons_self
    cases w with
    | nil =>
      cases s with
      | nil => simp [words, first]
      | cons d s =>
        have blank : isBlank d = true := ends d rfl
        simp [words, first, blank]
    | cons d w =>
      have second : isBlank d = false := solid d (by simp)
      have rest : words (d :: w ++ s) = (d :: w) :: words s :=
        ih (List.cons_ne_nil d w) fun x member => solid x (List.mem_cons_of_mem c member)
      rw [List.cons_append] at rest
      rw [List.cons_append, List.cons_append, words.eq_def]
      simp only [first, second, rest, Bool.false_eq_true, if_false]

theorem Spaced.words_eq (spaced : Spaced ws s) : words s = ws := by
  induction spaced with
  | nil => rfl
  | blank gap rest ih =>
    rw [words.eq_def]
    simpa only [gap, if_true] using ih
  | word isWord ends rest ih => rw [words_append isWord ends, ih]

private theorem Spaced.cons {d : Char} (solid : isBlank c = false) (follows : isBlank d = false)
    (spaced : Spaced (w :: ws) (d :: s)) : Spaced ((c :: w) :: ws) (c :: d :: s) := by
  generalize text : d :: s = t at spaced
  cases spaced with
  | blank gap rest =>
    cases text
    simp [follows] at gap
  | word isWord ends rest =>
    refine Spaced.word (w := c :: w) ⟨List.cons_ne_nil c w, ?_⟩ ends rest
    exact List.forall_mem_cons.mpr ⟨solid, isWord.2⟩

private theorem spaced_words (s : List Char) : Spaced (words s) s := by
  fun_induction words s with
  | case1 => exact .nil
  | case2 c s gap ih => exact .blank gap ih
  | case3 c solid ih =>
    exact Spaced.word (w := [c]) ⟨by simp, by simpa using solid⟩ (by simp) .nil
  | case4 c solid d s gap ih =>
    exact Spaced.word (w := [c]) ⟨by simp, by simpa using solid⟩ (by simpa using gap) ih
  | case5 c solid d s follows none ih =>
    obtain ⟨w, ws, some⟩ := exists_words_cons (Bool.eq_false_iff.mpr follows) s
    simp [some] at none
  | case6 c solid d s follows w ws divided ih =>
    rw [divided] at ih ⊢
    exact ih.cons (Bool.eq_false_iff.mpr solid) (Bool.eq_false_iff.mpr follows)

theorem words_eq_iff : words s = ws ↔ Spaced ws s := by
  constructor
  · rintro rfl
    exact spaced_words s
  · exact Spaced.words_eq

theorem Spaced.word_blank (isWord : IsWord w) (gap : isBlank c = true) (rest : Spaced ws s) :
    Spaced (w :: ws) (w ++ c :: s) := by
  refine .word isWord ?_ (.blank gap rest)
  intro d head
  cases head
  exact gap

private theorem Spaced.blanks_append (blanks : ∀ c ∈ gap, isBlank c = true) (spaced : Spaced ws s) :
    Spaced ws (gap ++ s) := by
  induction gap with
  | nil => exact spaced
  | cons c gap ih =>
    obtain ⟨first, rest⟩ := List.forall_mem_cons.mp blanks
    exact .blank first (ih rest)

private theorem Spaced.append_blanks (blanks : ∀ c ∈ gap, isBlank c = true) (spaced : Spaced ws s) :
    Spaced ws (s ++ gap) := by
  induction spaced with
  | nil => simpa using Spaced.nil.blanks_append blanks
  | blank first rest ih => exact .blank first ih
  | @word w ws s isWord ends rest ih =>
    rw [List.append_assoc]
    refine .word isWord ?_ ih
    intro c head
    cases s with
    | nil => exact blanks c (List.mem_of_mem_head? head)
    | cons d s => exact ends c head

theorem exists_trim (s : List Char) : ∃ gap gap', (∀ c ∈ gap, isBlank c = true) ∧
    (∀ c ∈ gap', isBlank c = true) ∧ s = gap ++ (trim s ++ gap') := by
  refine ⟨s.takeWhile isBlank, ((s.dropWhile isBlank).reverse.takeWhile isBlank).reverse,
    ?_, ?_, ?_⟩
  · exact fun c member => List.mem_takeWhile_imp member
  · exact fun c member => List.mem_takeWhile_imp (List.mem_reverse.mp member)
  · rw [trim, ← List.reverse_append, List.takeWhile_append_dropWhile, List.reverse_reverse,
      List.takeWhile_append_dropWhile]

theorem words_trim (s : List Char) : words (trim s) = words s := by
  obtain ⟨gap, gap', before, after, text⟩ := exists_trim s
  have whole := ((spaced_words (trim s)).append_blanks after).blanks_append before
  rw [← text] at whole
  exact whole.words_eq.symm

private theorem not_isBlank_of_trim {t : List Char} (trimmed : trim s = c :: t) :
    isBlank c = false := by
  have whole : (s.dropWhile isBlank).head? = some c := by
    have parts := List.takeWhile_append_dropWhile (p := isBlank)
      (l := (s.dropWhile isBlank).reverse)
    rw [← List.reverse_inj, List.reverse_append, List.reverse_reverse] at parts
    rw [← parts]
    rw [trim] at trimmed
    rw [trimmed]
    rfl
  have stopped := List.head?_dropWhile_not isBlank s
  rw [whole] at stopped
  simpa using stopped

theorem trim_of_words_nil (none : words s = []) : trim s = [] := by
  cases trimmed : trim s with
  | nil => rfl
  | cons c t =>
    obtain ⟨w, ws, some⟩ := exists_words_cons (not_isBlank_of_trim trimmed) t
    rw [← trimmed, words_trim, none] at some
    cases some

theorem trim_of_words_cons (divided : words s = (c :: w) :: ws) : ∃ t, trim s = c :: t := by
  cases trimmed : trim s with
  | nil =>
    rw [← words_trim, trimmed] at divided
    cases divided
  | cons d t =>
    obtain ⟨w', ws', same⟩ := exists_words_cons (not_isBlank_of_trim trimmed) t
    rw [← trimmed, words_trim, divided] at same
    cases same
    exact ⟨t, rfl⟩

theorem trim_of_first (blanks : ∀ c ∈ gap, isBlank c = true) (solid : isBlank c = false) :
    ∃ t, trim (gap ++ c :: s) = c :: t := by
  obtain ⟨w, ws, some⟩ := exists_words_cons solid s
  exact trim_of_words_cons ((words_eq_iff.mp some).blanks_append blanks).words_eq

theorem words_of_singleton_cons (divided : words (c :: s) = [c] :: ws) : words s = ws := by
  generalize text : c :: s = t at divided
  have spaced := words_eq_iff.mp divided
  cases spaced with
  | blank gap rest =>
    cases text
    have solid := (not_isBlank_of_mem_words (divided ▸ List.mem_cons_self)).2 c (by simp)
    simp [solid] at gap
  | word isWord ends rest =>
    cases text
    exact rest.words_eq

end Words

section Lines

variable {l s : List Char} {ls : List (List Char)}

private theorem lines_of_unbroken (some : l ≠ []) (unbroken : '\n' ∉ l) : lines l = [l] := by
  induction l with
  | nil => exact absurd rfl some
  | cons c l ih =>
    obtain ⟨first, rest⟩ := not_or.mp (List.mem_cons.not.mp unbroken)
    rw [lines.eq_3 c l (Ne.symm first)]
    cases l with
    | nil => rfl
    | cons d l => rw [ih (List.cons_ne_nil d l) rest]

private theorem lines_append (unbroken : '\n' ∉ l) (s : List Char) :
    lines (l ++ '\n' :: s) = l :: lines s := by
  induction l with
  | nil => rfl
  | cons c l ih =>
    obtain ⟨first, rest⟩ := not_or.mp (List.mem_cons.not.mp unbroken)
    rw [List.cons_append, lines.eq_3 c _ (Ne.symm first), ih rest]

theorem Lined.lines_eq (lined : Lined ls s) : lines s = ls := by
  induction lined with
  | nil => rfl
  | last some unbroken => exact lines_of_unbroken some unbroken
  | line unbroken rest ih => rw [lines_append unbroken, ih]

private theorem Lined.cons {c : Char} (kept : c ≠ '\n') (lined : Lined (l :: ls) s) :
    Lined ((c :: l) :: ls) (c :: s) := by
  cases lined with
  | last some unbroken =>
    refine .last (List.cons_ne_nil c l) ?_
    simpa using ⟨Ne.symm kept, unbroken⟩
  | line unbroken rest =>
    refine Lined.line (l := c :: l) ?_ rest
    simpa using ⟨Ne.symm kept, unbroken⟩

private theorem lined_lines (s : List Char) : Lined (lines s) s := by
  fun_induction lines s with
  | case1 => exact .nil
  | case2 s ih => exact Lined.line (l := []) List.not_mem_nil ih
  | case3 c s kept none ih =>
    rw [none] at ih
    cases ih
    exact .last (by simp) (by simpa using Ne.symm kept)
  | case4 c s kept l ls divided ih =>
    rw [divided] at ih
    exact ih.cons kept

theorem lines_eq_iff : lines s = ls ↔ Lined ls s := by
  constructor
  · rintro rfl
    exact lined_lines s
  · exact Lined.lines_eq

end Lines

section Numerals

variable {c : Char} {i : Int}

private theorem solid_of_digit (digit : (digit? c).isSome) :
    isBlank c = false ∧ c ≠ 'c' ∧ c ≠ '%' ∧ c ≠ 'p' := by
  have range : 48 ≤ c.toNat ∧ c.toNat ≤ 57 := by
    rw [digit?] at digit
    split at digit
    · next inside => simpa using inside
    · cases digit
  refine ⟨?_, ?_, ?_, ?_⟩
  · simp only [isBlank, blankRanges, List.any_cons, List.any_nil, Bool.or_false,
      Bool.or_eq_false_iff, Bool.and_eq_false_iff, decide_eq_false_iff_not]
    omega
  all_goals
    rintro rfl
    simp at range

theorem solid_of_mem_signedDigits (member : c ∈ signedDigits i) :
    isBlank c = false ∧ c ≠ 'c' ∧ c ≠ '%' ∧ c ≠ 'p' := by
  rw [signedDigits] at member
  split at member
  · rcases List.mem_cons.mp member with rfl | digit
    · decide
    · exact solid_of_digit (isSome_digit?_of_mem_digits digit)
  · exact solid_of_digit (isSome_digit?_of_mem_digits member)

theorem isWord_signedDigits (i : Int) : IsWord (signedDigits i) := by
  refine ⟨?_, fun c member => (solid_of_mem_signedDigits member).1⟩
  rw [signedDigits]
  split
  · simp
  · exact digits_ne_nil _

theorem isWord_digits (n : Nat) : IsWord (digits n) :=
  ⟨digits_ne_nil n, fun _ member => (solid_of_digit (isSome_digit?_of_mem_digits member)).1⟩

end Numerals

end SatLab.Text

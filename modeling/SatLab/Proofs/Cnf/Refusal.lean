import Mathlib.Data.List.Induction
import SatLab.Proofs.Cnf.Reading
import SatLab.Proofs.Text.Division
/-!
Where the reader of texts gives up. A line is refused as soon as it is read, whatever stands behind
it, and the error of the text is that of its first refused line. Only with all lines read is it
asked whether there was a problem line and whether the literals are in range.
-/

set_option autoImplicit false
set_option relaxedAutoImplicit false

namespace SatLab.Dimacs

open SatLab.Text

/-- The errors that reading the line with number `k` can give. -/
inductive AtLine (k : Nat) : Error → Prop
  | malformed (flaw : Flaw) : AtLine k (.malformed k flaw)
  | zeroLiteral : AtLine k .zeroLiteral

/-- An error of a line, and not of the text as a whole. -/
def OfLine (e : Error) : Prop := ∃ k, 1 ≤ k ∧ AtLine k e

/-- A problem line has a `p` as its first character that is not blank. -/
def Problem (l : List Char) : Prop :=
  ∃ gap s, (∀ c ∈ gap, isBlank c = true) ∧ l = gap ++ 'p' :: s

def readLines (ls : List (List Char)) : Except Error Progress :=
  (ls.zipIdx 1).foldlM Progress.line {}

/-- The line with number `k` is refused: the lines in front of it are read, and it is not. -/
inductive Refused (ls : List (List Char)) (e : Error) : Nat → Prop
  | intro (front : List (List Char)) (l : List Char) (back : List (List Char)) (p : Progress)
      (split : ls = front ++ l :: back) (read : readLines front = .ok p)
      (refused : p.line (l, front.length + 1) = .error e) : Refused ls e (front.length + 1)

section Line

variable {p p' : Progress} {k : Nat} {l word text fields : List Char} {e : Error}

private theorem problem_iff : Problem l ↔ ∃ s, trim l = 'p' :: s := by
  constructor
  · rintro ⟨gap, s, blanks, rfl⟩
    exact trim_of_first blanks (by decide)
  · rintro ⟨s, trimmed⟩
    obtain ⟨gap, gap', before, -, whole⟩ := exists_trim l
    rw [trimmed] at whole
    exact ⟨gap, s ++ gap', before, whole⟩

private theorem atLine_of_token (failed : p.token k word = .error e) : AtLine k e := by
  unfold Progress.token at failed
  split at failed
  · cases failed
    exact .malformed _
  · split at failed
    · cases failed
    · split at failed
      · cases failed
        exact .zeroLiteral
      · cases failed

private theorem atLine_of_countField (failed : countField k word = .error e) : AtLine k e := by
  unfold countField at failed
  split at failed
  · cases failed
  · cases failed
    exact .malformed _

private theorem atLine_of_problem (failed : p.problem k text fields = .error e) : AtLine k e := by
  unfold Progress.problem at failed
  split at failed
  · rename_i kind vars clauses _
    split at failed
    · cases failed
      exact .malformed _
    · cases first : countField k vars with
      | error e' =>
        rw [first] at failed
        cases failed
        exact atLine_of_countField first
      | ok n =>
        cases second : countField k clauses with
        | error e' =>
          rw [first, second] at failed
          cases failed
          exact atLine_of_countField second
        | ok m =>
          rw [first, second] at failed
          cases failed
  · cases failed
    exact .malformed _

private theorem atLine_of_line (failed : p.line (l, k) = .error e) : AtLine k e := by
  simp only [Progress.line] at failed
  split at failed
  · cases failed
  · cases failed
  · cases failed
  · exact atLine_of_problem failed
  · split at failed
    · cases failed
      exact .malformed _
    · exact error_of_foldlM atLine_of_token failed

private theorem numVars_of_token (read : p.token k word = .ok p') : p'.numVars = p.numVars := by
  unfold Progress.token at read
  split at read
  · cases read
  · split at read
    · cases read
      rfl
    · split at read
      · cases read
      · cases read
        rfl

private theorem numVars_of_line (read : p.line (l, k) = .ok p') :
    p'.numVars.isSome ↔ p.numVars.isSome ∨ Problem l := by
  rw [problem_iff]
  simp only [Progress.line] at read
  split at read
  · next trimmed =>
    cases read
    simp [trimmed]
  · next trimmed =>
    cases read
    simp [trimmed]
  · next trimmed =>
    cases read
    simp [trimmed]
  · next fields trimmed =>
    obtain ⟨n, rfl⟩ := numVars_of_problem read
    simp [trimmed]
  · next other =>
    split at read
    · cases read
    · next known =>
      have same : (fun q : Progress => q.numVars = p.numVars) p' :=
        foldlM_keeps (fun kept taken => (numVars_of_token taken).trans kept) rfl read
      have known' : p.numVars.isSome := by
        simpa [Option.isSome_iff_ne_none] using known
      simp [same, known']

end Line

section Lines

variable {ls ls' : List (List Char)} {p : Progress} {e e' : Error} {i k : Nat}

private theorem readLines_append :
    readLines (ls ++ ls') =
      readLines ls >>= (ls'.zipIdx (ls.length + 1)).foldlM Progress.line := by
  rw [readLines, List.zipIdx_append, List.foldlM_append, Nat.add_comm]
  rfl

private theorem readLines_concat {l : List Char} :
    readLines (ls ++ [l]) = readLines ls >>= fun p => p.line (l, ls.length + 1) := by
  rw [readLines_append]
  cases readLines ls with
  | error e => rfl
  | ok p => exact bind_pure (p.line (l, ls.length + 1))

private theorem exists_readLines_take (read : readLines ls = .ok p) (i : Nat) :
    ∃ q, readLines (ls.take i) = .ok q := by
  rw [← List.take_append_drop i ls, readLines_append] at read
  cases front : readLines (ls.take i) with
  | error e =>
    rw [front] at read
    cases read
  | ok q => exact ⟨q, rfl⟩

theorem Refused.mono (refused : Refused ls e k) (ls' : List (List Char)) :
    Refused (ls ++ ls') e k := by
  obtain ⟨front, l, back, p, rfl, read, failed⟩ := refused
  exact .intro front l (back ++ ls') p (by simp) read failed

theorem Refused.take (refused : Refused ls e k) : Refused (ls.take k) e k := by
  obtain ⟨front, l, back, p, rfl, read, failed⟩ := refused
  refine .intro front l [] p ?_ read failed
  rw [List.take_append, List.take_of_length_le (Nat.le_succ _), Nat.add_sub_cancel_left]
  rfl

private theorem Refused.readLines_eq (refused : Refused ls e k) : readLines ls = .error e := by
  obtain ⟨front, l, back, p, rfl, read, failed⟩ := refused
  rw [readLines_append, read, ok_bind, List.zipIdx_cons, List.foldlM_cons, failed]
  rfl

theorem Refused.before (refused : Refused ls e k) (earlier : i < k) :
    ∃ p, readLines (ls.take i) = .ok p := by
  obtain ⟨front, l, back, p, rfl, read, -⟩ := refused
  have inside : i ≤ front.length := Nat.lt_succ_iff.mp earlier
  rw [List.take_append_of_le_length inside]
  exact exists_readLines_take read i

private theorem readLines_eq_error_iff : readLines ls = .error e ↔ ∃ k, Refused ls e k := by
  constructor
  · intro failed
    induction ls using List.reverseRecOn with
    | nil => cases failed
    | append_singleton front l ih =>
      -- Either a line in front is refused already, or the last one is.
      rw [readLines_concat] at failed
      cases read : readLines front with
      | error e' =>
        rw [read] at failed
        cases failed
        obtain ⟨k, refused⟩ := ih read
        exact ⟨k, refused.mono [l]⟩
      | ok p =>
        rw [read] at failed
        exact ⟨_, .intro front l [] p rfl read failed⟩
  · rintro ⟨k, refused⟩
    exact refused.readLines_eq

private theorem Refused.atLine (refused : Refused ls e k) : 1 ≤ k ∧ k ≤ ls.length ∧ AtLine k e := by
  obtain ⟨front, l, back, p, rfl, -, failed⟩ := refused
  refine ⟨Nat.le_add_left 1 front.length, ?_, atLine_of_line failed⟩
  rw [List.length_append, List.length_cons]
  omega

private theorem numVars_of_readLines (read : readLines ls = .ok p) :
    p.numVars.isSome ↔ ∃ l ∈ ls, Problem l := by
  induction ls using List.reverseRecOn generalizing p with
  | nil =>
    cases read
    simp
  | append_singleton front l ih =>
    rw [readLines_concat] at read
    cases before : readLines front with
    | error e =>
      rw [before] at read
      cases read
    | ok q =>
      rw [before] at read
      rw [numVars_of_line read, ih before]
      simp [or_and_right, exists_or]

end Lines

section Parse

variable {ls : List (List Char)} {p : Progress} {e : Error} {k : Nat} {flaw : Flaw}

private theorem finish_eq_error (failed : p.finish = .error e) :
    (p.numVars = none ∧ e = .malformed 0 .noProblemLine) ∨
      p.numVars.isSome ∧ ∃ var n, e = .variableOutOfRange var n := by
  unfold Progress.finish at failed
  split at failed
  · next none =>
    cases failed
    exact .inl ⟨none, rfl⟩
  · next n known =>
    unfold Formula.ofClauses at failed
    split at failed
    · cases failed
      exact .inr ⟨by simp [known], _, _, rfl⟩
    · cases failed

private theorem finish_ne_ofLine (ofLine : OfLine e) : p.finish ≠ .error e := by
  obtain ⟨k, positive, atLine⟩ := ofLine
  intro failed
  rcases finish_eq_error failed with ⟨-, rfl⟩ | ⟨-, var, n, rfl⟩
  · cases atLine
    omega
  · cases atLine

private theorem parseLines_eq : parseLines ls = readLines ls >>= Progress.finish := rfl

private theorem parseLines_eq_error_iff (ofLine : OfLine e) :
    parseLines ls = .error e ↔ ∃ k, Refused ls e k := by
  rw [← readLines_eq_error_iff, parseLines_eq]
  cases readLines ls with
  | error e' => rw [error_bind, Except.error.injEq, Except.error.injEq]
  | ok p => simpa using finish_ne_ofLine ofLine

private theorem Refused.parseLines_eq (refused : Refused ls e k) : parseLines ls = .error e := by
  obtain ⟨positive, -, atLine⟩ := refused.atLine
  exact (parseLines_eq_error_iff ⟨k, positive, atLine⟩).mpr ⟨k, refused⟩

private theorem parseLines_eq_error_zero_iff :
    parseLines ls = .error (.malformed 0 flaw) ↔
      flaw = .noProblemLine ∧ (∀ k e, ¬ Refused ls e k) ∧ ∀ l ∈ ls, ¬ Problem l := by
  rw [parseLines_eq]
  cases read : readLines ls with
  | error e =>
    obtain ⟨k, refused⟩ := readLines_eq_error_iff.mp read
    constructor
    · intro failed
      cases failed
      obtain ⟨positive, -, atLine⟩ := refused.atLine
      cases atLine
      omega
    · rintro ⟨-, none, -⟩
      exact absurd refused (none k e)
  | ok p =>
    have none : ∀ k e, ¬ Refused ls e k := by
      intro k e refused
      cases read.symm.trans refused.readLines_eq
    have known := numVars_of_readLines read
    constructor
    · intro failed
      rcases finish_eq_error failed with ⟨unknown, same⟩ | ⟨-, var, n, other⟩
      · cases same
        refine ⟨rfl, none, fun l member problem => ?_⟩
        have found := known.mpr ⟨l, member, problem⟩
        simp [unknown] at found
      · cases other
    · rintro ⟨rfl, -, free⟩
      have unknown : p.numVars = Option.none := by
        rw [← Option.not_isSome_iff_eq_none, known]
        rintro ⟨l, member, problem⟩
        exact free l member problem
      rw [ok_bind, Progress.finish, unknown]

end Parse

/-- The errors of texts with the given lines. That of a line stays the same whatever lines are
added; it carries the number of a line up to which the text already fails with it, and with fewer
lines the text has no error of a line. The error of line 0 says that no line is refused and none is
a problem line. The literals of a formula that is read name its variables. -/
theorem parse_error_stable (ls : List (List Char)) :
    (∀ text, Lined ls text.toList → parse text = parseLines ls) ∧
    (∀ e, OfLine e → parseLines ls = .error e →
      (∀ ls', parseLines (ls ++ ls') = .error e) ∧
      ∃ k, 1 ≤ k ∧ k ≤ ls.length ∧ AtLine k e ∧ parseLines (ls.take k) = .error e ∧
        ∀ i < k, ∀ e', OfLine e' → parseLines (ls.take i) ≠ .error e') ∧
    (∀ flaw, parseLines ls = .error (.malformed 0 flaw) ↔
      flaw = .noProblemLine ∧ (∀ k e, ¬ Refused ls e k) ∧ ∀ l ∈ ls, ¬ Problem l) ∧
    ∀ f, parseLines ls = .ok f →
      ∀ c ∈ f.clauses, ∀ l ∈ c.literals, l.value ≠ 0 ∧ 1 ≤ l.var ∧ l.var ≤ f.numVars := by
  refine ⟨fun text lined => ?_, fun e ofLine failed => ?_, fun flaw => ?_,
    fun f read c member l occurs => ?_⟩
  · rw [parse, lined.lines_eq]
  · obtain ⟨k, refused⟩ := (parseLines_eq_error_iff ofLine).mp failed
    obtain ⟨positive, inside, atLine⟩ := refused.atLine
    refine ⟨fun ls' => (refused.mono ls').parseLines_eq, k, positive, inside, atLine,
      refused.take.parseLines_eq, fun i earlier e' ofLine' failed' => ?_⟩
    obtain ⟨p, read⟩ := refused.before earlier
    obtain ⟨j, refused'⟩ := (parseLines_eq_error_iff ofLine').mp failed'
    cases read.symm.trans refused'.readLines_eq
  · exact parseLines_eq_error_zero_iff
  · obtain ⟨valid, bound⟩ := wellFormed_of_parseLines read c member l occurs
    exact ⟨valid.1, valid.var_pos, bound⟩

/-- A misspelt literal in the fourth line, behind lines that are passed over, and a misspelt problem
line behind it. -/
def misspelt : List (List Char) :=
  ["c two".toList, "p cnf +2 9".toList, "% -".toList, " 1 -2 0 2o".toList, "p dnf".toList]

def misspeltText : String := "c two\np cnf +2 9\n% -\n 1 -2 0 2o\np dnf"

/-- The error of the fourth line is that of the text, with any lines behind it, and of its first
four lines, while its first three lines have no error of a line. -/
theorem misspelt_refused :
    Lined misspelt misspeltText.toList ∧ OfLine (.malformed 4 (.badInteger "2o")) ∧
    parse misspeltText = .error (.malformed 4 (.badInteger "2o")) ∧
    (∀ ls, parseLines (misspelt ++ ls) = .error (.malformed 4 (.badInteger "2o"))) ∧
    parseLines (misspelt.take 4) = .error (.malformed 4 (.badInteger "2o")) ∧
    ∀ e, OfLine e → parseLines (misspelt.take 3) ≠ .error e := by
  have lined : Lined misspelt misspeltText.toList := lines_eq_iff.mp rfl
  have ofLine : OfLine (.malformed 4 (.badInteger "2o")) := ⟨4, by decide, .malformed _⟩
  have failed : parseLines misspelt = .error (.malformed 4 (.badInteger "2o")) := rfl
  obtain ⟨divided, stable, -, -⟩ := parse_error_stable misspelt
  obtain ⟨later, k, -, -, atLine, enough, before⟩ := stable _ ofLine failed
  cases atLine
  exact ⟨lined, ofLine, (divided _ lined).trans failed, later, enough, before 3 (by decide)⟩

end SatLab.Dimacs

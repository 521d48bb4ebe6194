import SatLab.Proofs.Cnf.Layout
/-!
The end marker of benchmark files: a line that starts with a percent sign, and a line with a single
0 behind it. The first of them is passed over, but the 0 closes a clause, as every 0 does. Behind a
formula whose clauses are all closed this is an empty clause, which nothing makes true.
-/

set_option autoImplicit false
set_option relaxedAutoImplicit false

namespace SatLab.Dimacs

open SatLab.Text

/-- A line with a percent sign as its first character that is not blank. -/
def Percent (l : List Char) : Prop :=
  ∃ gap s, (∀ c ∈ gap, isBlank c = true) ∧ l = gap ++ '%' :: s

/-- Texts of an end marker, with nothing but comments and blank lines behind it. -/
inductive EndMarker (text : String) : Prop
  | intro (percent zero : List Char) (behind : List (List Char))
      (lined : Lined (percent :: zero :: behind) text.toList) (marked : Percent percent)
      (single : Spaced [['0']] zero) (rest : Lays [] behind)

section Append

variable {f : Formula} {p : Progress} {ls : List (List Char)} {text : String} {k : Nat}

private theorem line_of_percent {s : List Char} (marked : Percent s) : p.line (s, k) = .ok p := by
  obtain ⟨gap, rest, blanks, rfl⟩ := marked
  obtain ⟨t, trimmed⟩ := trim_of_first (s := rest) blanks (c := '%') (by decide)
  simp [Progress.line, trimmed]

private theorem parse_render_append (wellFormed : f.WellFormed) (vars : f.numVars < wordBound)
    (few : f.size < wordBound) (lined : Lined ls text.toList) : parse (render f ++ text) =
      (ls.zipIdx (f.size + 2)).foldlM Progress.line ⟨some f.numVars, f.clauses.reverse, []⟩ >>=
        Progress.finish := by
  have valid : ∀ t ∈ closedTokens f.clauses, t.Valid :=
    (encodes_closedTokens f.clauses).valid fun c member l occurs => (wellFormed c member l occurs).1
  have clauses : ((f.clauses.map clauseLine).zipIdx 2).foldlM Progress.line
      ⟨some f.numVars, [], []⟩ = .ok ⟨some f.numVars, f.clauses.reverse, []⟩ := by
    rw [(lays_clauseLines f.clauses).read valid (.inl rfl), take_closedTokens rfl, List.append_nil]
  have behind : 2 + (f.clauses.map clauseLine).length = f.size + 2 := by
    rw [List.length_map, Formula.size, Nat.add_comm]
  have divided : lines (render f ++ text).toList =
      problemLine f.numVars f.size :: (f.clauses.map clauseLine ++ ls) := by
    rw [String.toList_append, render, String.toList_ofList]
    exact (lined_chars f lined).lines_eq
  rw [parse, divided, parseLines, List.zipIdx_cons, List.foldlM_cons,
    line_of_problem (spaced_problemLine f.numVars f.size) vars few, ok_bind, List.zipIdx_append,
    List.foldlM_append, clauses, ok_bind, behind]

private theorem finish_of_inRange {n : Nat} {cs : List Clause}
    (inRange : ∀ c ∈ cs, ∀ l ∈ c.literals, l.var ≤ n) :
    Progress.finish ⟨some n, cs.reverse, []⟩ = .ok ⟨n, cs⟩ := by
  have clauses : Progress.clauses ⟨some n, cs.reverse, []⟩ = cs := by simp [Progress.clauses]
  rw [Progress.finish]
  dsimp only
  rw [clauses]
  exact Formula.ofClauses_eq_ok_iff.mpr ⟨inRange, rfl⟩

private theorem parse_endMarker (wellFormed : f.WellFormed) (vars : f.numVars < wordBound)
    (few : f.size < wordBound) (marker : EndMarker text) :
    parse (render f ++ text) = .ok ⟨f.numVars, f.clauses ++ [⟨[]⟩]⟩ := by
  obtain ⟨percent, zero, behind, lined, marked, single, rest⟩ := marker
  have read : Lays [.close] (zero :: behind) := .tokens [.close] single rest
  have inRange : ∀ c ∈ f.clauses ++ [⟨[]⟩], ∀ l ∈ c.literals, l.var ≤ f.numVars := by
    intro c member l occurs
    rcases List.mem_append.mp member with member | last
    · exact (wellFormed c member l occurs).2
    · obtain rfl := List.mem_singleton.mp last
      simp at occurs
  rw [parse_render_append wellFormed vars few lined, List.zipIdx_cons, List.foldlM_cons,
    line_of_percent marked, ok_bind, read.read (by simp [Token.Valid]) (.inl rfl), ok_bind]
  simpa [Progress.take] using finish_of_inRange inRange

end Append

/-- Behind a written formula, a percent line alone changes nothing. With the 0 behind it an empty
clause is read after the clauses of the formula, so what is read is another formula, without a
model. -/
theorem endMarker_spoils {f : Formula} (wellFormed : f.WellFormed) (vars : f.numVars < wordBound)
    (few : f.size < wordBound) :
    (∀ text line, Lined [line] text.toList → Percent line → parse (render f ++ text) = .ok f) ∧
    ∀ text, EndMarker text → ∃ g, parse (render f ++ text) = .ok g ∧
      g.numVars = f.numVars ∧ g.clauses = f.clauses ++ [⟨[]⟩] ∧ g ≠ f ∧ ¬ g.Satisfiable := by
  constructor
  · intro text line lined marked
    rw [parse_render_append wellFormed vars few lined, List.zipIdx_cons, List.foldlM_cons,
      line_of_percent marked, ok_bind]
    exact finish_of_inRange fun c member l occurs => (wellFormed c member l occurs).2
  · intro text marker
    refine ⟨_, parse_endMarker wellFormed vars few marker, rfl, rfl, ?_, ?_⟩
    · intro same
      simpa using congrArg Formula.clauses same
    · rintro ⟨a, -, satisfied⟩
      obtain ⟨l, occurs, -⟩ := satisfied ⟨[]⟩ (by simp)
      simp at occurs

/-- A satisfiable formula of two clauses. -/
def marked : Formula := ⟨3, [⟨[⟨1⟩, ⟨-2⟩, ⟨3⟩]⟩, ⟨[⟨-1⟩, ⟨2⟩]⟩]⟩

private theorem endMarker_plain : EndMarker "%\n0\n" :=
  .intro ['%'] ['0'] [] (lines_eq_iff.mp rfl) ⟨[], [], by simp, rfl⟩ (words_eq_iff.mp rfl) .nil

/-- The end marker turns a satisfiable formula into one without a model. -/
theorem marked_spoiled : marked.Satisfiable ∧ parse (render marked ++ "%\n") = .ok marked ∧
    ∃ g, parse (render marked ++ "%\n0\n") = .ok g ∧ g ≠ marked ∧ ¬ g.Satisfiable := by
  have wellFormed : marked.WellFormed := by decide
  have model : marked.IsModel ⟨#[true, true, true]⟩ := by decide
  obtain ⟨kept, spoiled⟩ := endMarker_spoils wellFormed (by decide) (by decide)
  obtain ⟨g, read, -, -, other, none⟩ := spoiled _ endMarker_plain
  refine ⟨⟨_, model⟩, ?_, g, read, other, none⟩
  exact kept "%\n" ['%'] (lines_eq_iff.mp rfl) ⟨[], [], by simp, rfl⟩

end SatLab.Dimacs

import SatLab.Cnf.Dimacs
import SatLab.Proofs.Control.Task
import SatLab.Proofs.Text.Division
/-!
The texts of a formula. A text lays out the tokens of the clauses over lines in any way, with
comments and blank lines in between, and reading it gives the formula back.
-/

set_option autoImplicit false
set_option relaxedAutoImplicit false

namespace SatLab.Dimacs

open SatLab.Text

/-- What the words of clause lines stand for. -/
inductive Token
  | literal (l : Literal)
  | close

def Token.chars : Token → List Char
  | .literal l => l.digits
  | .close => ['0']

/-- The tokens of a list of clauses. Each clause is closed, but the last one need not be closed
unless it is empty. -/
inductive Encodes : List Clause → List Token → Prop
  | nil : Encodes [] []
  | last {c : Clause} (some : c.literals ≠ []) : Encodes [c] (c.literals.map .literal)
  | clause {c : Clause} {cs : List Clause} {ts : List Token} (rest : Encodes cs ts) :
      Encodes (c :: cs) (c.literals.map .literal ++ .close :: ts)

/-- A comment has a `c` as its first character that is not blank. -/
def Comment (l : List Char) : Prop :=
  ∃ gap s, (∀ c ∈ gap, isBlank c = true) ∧ l = gap ++ 'c' :: s

/-- Lines that hold the given tokens between comments. A line may hold any number of tokens, and a
blank line holds none. -/
inductive Lays : List Token → List (List Char) → Prop
  | nil : Lays [] []
  | comment {ts : List Token} {l : List Char} {ls : List (List Char)} (comment : Comment l)
      (rest : Lays ts ls) : Lays ts (l :: ls)
  | tokens (ts : List Token) {ts' : List Token} {l : List Char} {ls : List (List Char)}
      (spaced : Spaced (ts.map Token.chars) l) (rest : Lays ts' ls) : Lays (ts ++ ts') (l :: ls)

/-- The texts of a formula: a problem line with any number of clauses that fits a word, behind it
the tokens of the clauses, and comments and blank lines anywhere. -/
inductive Layout (f : Formula) (text : String) : Prop
  | intro (front body : List (List Char)) (problem : List Char) (count : Nat) (ts : List Token)
      (lined : Lined (front ++ problem :: body) text.toList) (before : Lays [] front)
      (header : Spaced [['p'], "cnf".toList, digits f.numVars, digits count] problem)
      (bounded : count < wordBound) (encodes : Encodes f.clauses ts) (after : Lays ts body)

section Line

variable {p : Progress} {s : List Char} {k : Nat}

private theorem line_of_blank (spaced : Spaced [] s) : p.line (s, k) = .ok p := by
  simp [Progress.line, trim_of_words_nil spaced.words_eq]

private theorem line_of_comment (comment : Comment s) : p.line (s, k) = .ok p := by
  obtain ⟨gap, rest, blanks, rfl⟩ := comment
  obtain ⟨t, trimmed⟩ := trim_of_first (s := rest) blanks (c := 'c') (by decide)
  simp [Progress.line, trimmed]

theorem line_of_problem {n count : Nat}
    (spaced : Spaced [['p'], "cnf".toList, digits n, digits count] s)
    (vars : n < wordBound) (bounded : count < wordBound) :
    p.line (s, k) = .ok { p with numVars := some n } := by
  obtain ⟨t, trimmed⟩ := trim_of_words_cons spaced.words_eq
  have fields : words t = ["cnf".toList, digits n, digits count] := by
    apply words_of_singleton_cons (c := 'p')
    rw [← trimmed, words_trim]
    exact spaced.words_eq
  simp [Progress.line, trimmed, Progress.problem, fields, countField, count?_digits vars,
    count?_digits bounded]

/-- What a token makes of the clauses read so far. -/
def Progress.take (p : Progress) : Token → Progress
  | .literal l => { p with pending := l :: p.pending }
  | .close => { p with done := ⟨p.pending.reverse⟩ :: p.done, pending := [] }

def Token.Valid : Token → Prop
  | .literal l => l.Valid
  | .close => True

private theorem token_of_valid {t : Token} (valid : t.Valid) :
    p.token k t.chars = .ok (p.take t) := by
  cases t with
  | close => rfl
  | literal l =>
    obtain ⟨nonzero, bound⟩ := valid
    simp only [Literal.var, maxVar] at bound
    have read : integer? l.digits = some l.value :=
      integer?_signedDigits (by omega) (by omega)
    have kept : Literal.ofSigned? l.value = some l :=
      Literal.ofSigned?_eq_some_iff.mpr ⟨⟨nonzero, by omega⟩, rfl⟩
    simp [Token.chars, Progress.token, read, kept, nonzero, Progress.take]

private theorem tokens_of_valid {ts : List Token} (valid : ∀ t ∈ ts, t.Valid) :
    (ts.map Token.chars).foldlM (Progress.token k) p = .ok (ts.foldl Progress.take p) := by
  induction ts generalizing p with
  | nil => rfl
  | cons t ts ih =>
    obtain ⟨first, rest⟩ := List.forall_mem_cons.mp valid
    rw [List.map_cons, List.foldlM_cons, token_of_valid first, ok_bind, ih rest, List.foldl_cons]

private theorem Token.exists_chars (t : Token) :
    ∃ c w, t.chars = c :: w ∧ c ≠ 'c' ∧ c ≠ '%' ∧ c ≠ 'p' := by
  cases t with
  | close => exact ⟨'0', [], rfl, by decide⟩
  | literal l =>
    cases word : l.digits with
    | nil => exact absurd word (isWord_signedDigits l.value).1
    | cons c w =>
      have member : c ∈ signedDigits l.value := by
        rw [← Literal.digits, word]
        exact List.mem_cons_self
      exact ⟨c, w, word, (solid_of_mem_signedDigits member).2⟩

private theorem line_of_tokens {ts : List Token} (spaced : Spaced (ts.map Token.chars) s)
    (valid : ∀ t ∈ ts, t.Valid) (ready : p.numVars.isSome ∨ ts = []) :
    p.line (s, k) = .ok (ts.foldl Progress.take p) := by
  cases ts with
  | nil => exact line_of_blank spaced
  | cons t ts =>
    obtain ⟨c, w, word, comment, percent, problem⟩ := t.exists_chars
    have divided := spaced.words_eq
    have divided' := divided
    rw [List.map_cons, word] at divided'
    obtain ⟨rest, trimmed⟩ := trim_of_words_cons divided'
    have known : p.numVars.isNone = false := by
      rcases ready with some | none
      · simpa [Option.isNone_eq_false_iff] using some
      · cases none
    have taken := tokens_of_valid (p := p) (k := k) valid
    rw [← divided, ← words_trim, trimmed] at taken
    simpa [Progress.line, trimmed, comment, percent, problem, known] using taken

end Line

section Body

variable {p : Progress} {ts : List Token} {ls : List (List Char)} {cs : List Clause}

private theorem numVars_take (p : Progress) (ts : List Token) :
    (ts.foldl Progress.take p).numVars = p.numVars := by
  induction ts generalizing p with
  | nil => rfl
  | cons t ts ih =>
    rw [List.foldl_cons, ih]
    cases t <;> rfl

/-- Lines are read as the tokens that they hold. Only lines without tokens can be read before the
problem line. -/
theorem Lays.read (lays : Lays ts ls) (valid : ∀ t ∈ ts, t.Valid)
    (ready : p.numVars.isSome ∨ ts = []) (k : Nat) :
    (ls.zipIdx k).foldlM Progress.line p = .ok (ts.foldl Progress.take p) := by
  induction lays generalizing p k with
  | nil => rfl
  | comment comment rest ih =>
    rw [List.zipIdx_cons, List.foldlM_cons, line_of_comment comment, ok_bind]
    exact ih valid ready (k + 1)
  | @tokens ts ts' _ _ spaced rest ih =>
    obtain ⟨here, later⟩ := List.forall_mem_append.mp valid
    have ready' : p.numVars.isSome ∨ ts = [] := ready.imp_right fun none =>
      (List.append_eq_nil_iff.mp none).1
    rw [List.zipIdx_cons, List.foldlM_cons, line_of_tokens spaced here ready', ok_bind,
      List.foldl_append]
    refine ih later ?_ (k + 1)
    rw [numVars_take]
    exact ready.imp_right fun none => (List.append_eq_nil_iff.mp none).2

private theorem take_literals (p : Progress) (ls : List Literal) :
    (ls.map Token.literal).foldl Progress.take p =
      { p with pending := ls.reverse ++ p.pending } := by
  induction ls generalizing p with
  | nil => rfl
  | cons l ls ih =>
    rw [List.map_cons, List.foldl_cons, ih]
    simp [Progress.take]

private theorem Encodes.clauses_take (encodes : Encodes cs ts) (between : p.pending = []) :
    (ts.foldl Progress.take p).clauses = p.done.reverse ++ cs := by
  induction encodes generalizing p with
  | nil => simp [Progress.clauses, between]
  | last some => simp [take_literals, Progress.clauses, between, some]
  | @clause c cs ts rest ih =>
    rw [List.foldl_append, List.foldl_cons, take_literals, ih rfl]
    simp [Progress.take, between]

def closedTokens (cs : List Clause) : List Token :=
  cs.flatMap fun c => c.literals.map .literal ++ [.close]

theorem encodes_closedTokens (cs : List Clause) : Encodes cs (closedTokens cs) := by
  induction cs with
  | nil => exact .nil
  | cons c cs ih =>
    rw [closedTokens, List.flatMap_cons, List.append_assoc]
    exact ih.clause

theorem take_closedTokens (between : p.pending = []) :
    (closedTokens cs).foldl Progress.take p = { p with done := cs.reverse ++ p.done } := by
  induction cs generalizing p with
  | nil => rfl
  | cons c cs ih =>
    rw [closedTokens, List.flatMap_cons, List.append_assoc, List.foldl_append, take_literals,
      List.singleton_append, List.foldl_cons]
    refine (ih rfl).trans ?_
    simp [Progress.take, between]

private theorem valid_literals {ls : List Literal} (valid : ∀ l ∈ ls, l.Valid) :
    ∀ t ∈ ls.map Token.literal, t.Valid := by
  intro t member
  obtain ⟨l, occurs, rfl⟩ := List.mem_map.mp member
  exact valid l occurs

theorem Encodes.valid (encodes : Encodes cs ts) (valid : ∀ c ∈ cs, ∀ l ∈ c.literals, l.Valid) :
    ∀ t ∈ ts, t.Valid := by
  induction encodes with
  | nil => exact List.forall_mem_nil Token.Valid
  | last some => exact valid_literals (valid _ List.mem_cons_self)
  | clause rest ih =>
    obtain ⟨here, later⟩ := List.forall_mem_cons.mp valid
    rw [List.forall_mem_append, List.forall_mem_cons]
    exact ⟨valid_literals here, trivial, ih later⟩

end Body

section Parse

variable {f : Formula}

private theorem Layout.parse_eq {text : String} (wellFormed : f.WellFormed)
    (vars : f.numVars < wordBound) (layout : Layout f text) : parse text = .ok f := by
  obtain ⟨front, body, problem, count, ts, lined, before, header, bounded, encodes, after⟩ := layout
  have valid : ∀ t ∈ ts, t.Valid :=
    encodes.valid fun c member l occurs => (wellFormed c member l occurs).1
  have clauses : (ts.foldl Progress.take { numVars := some f.numVars }).clauses = f.clauses :=
    encodes.clauses_take rfl
  have inRange : ∀ c ∈ f.clauses, ∀ l ∈ c.literals, l.var ≤ f.numVars :=
    fun c member l occurs => (wellFormed c member l occurs).2
  have whole : Formula.ofClauses f.numVars f.clauses = .ok f :=
    Formula.ofClauses_eq_ok_iff.mpr ⟨inRange, rfl⟩
  rw [parse, lined.lines_eq, parseLines, List.zipIdx_append, List.foldlM_append,
    before.read (by simp) (.inr rfl), ok_bind, List.zipIdx_cons, List.foldlM_cons, List.foldl_nil,
    line_of_problem header vars bounded, ok_bind, after.read valid (.inl rfl), ok_bind,
    Progress.finish, numVars_take]
  dsimp only
  rw [clauses, whole]

end Parse

section Render

variable {c : Clause}

def clauseLine (c : Clause) : List Char :=
  (c.literals.flatMap fun l => l.digits ++ [' ']) ++ ['0']

private theorem newline_not_mem_word {w : List Char} (isWord : IsWord w) : '\n' ∉ w := by
  intro member
  have solid := isWord.2 '\n' member
  rw [isBlank_newline] at solid
  cases solid

private theorem newline_not_mem_clauseLine (c : Clause) : '\n' ∉ clauseLine c := by
  have words : ∀ l ∈ c.literals, '\n' ∉ l.digits :=
    fun l _ => newline_not_mem_word (isWord_signedDigits l.value)
  simpa [clauseLine] using words

private theorem spaced_clauseLine (c : Clause) :
    Spaced ((c.literals.map Token.literal ++ [Token.close]).map Token.chars) (clauseLine c) := by
  rw [clauseLine]
  induction c.literals with
  | nil => exact Spaced.word (w := ['0']) ⟨by simp, by simp [isBlank, blankRanges]⟩ (by simp) .nil
  | cons l ls ih =>
    rw [List.flatMap_cons, List.append_assoc, List.append_assoc]
    exact .word_blank (isWord_signedDigits l.value) (by decide) ih

private theorem lined_clauses (cs : List Clause) {ls : List (List Char)} {s : List Char}
    (behind : Lined ls s) : Lined (cs.map clauseLine ++ ls) (cs.flatMap clauseText ++ s) := by
  induction cs with
  | nil => exact behind
  | cons c cs ih =>
    have split : (c :: cs).flatMap clauseText ++ s =
        clauseLine c ++ '\n' :: (cs.flatMap clauseText ++ s) := by
      simp [clauseText, clauseLine]
    rw [split]
    exact .line (newline_not_mem_clauseLine c) ih

theorem lays_clauseLines (cs : List Clause) : Lays (closedTokens cs) (cs.map clauseLine) := by
  induction cs with
  | nil => exact .nil
  | cons c cs ih => exact .tokens _ (spaced_clauseLine c) ih

/-- The problem line of a written formula without its line feed. -/
def problemLine (n count : Nat) : List Char :=
  "p cnf ".toList ++ digits n ++ ' ' :: digits count

private theorem newline_not_mem_problemLine (n count : Nat) : '\n' ∉ problemLine n count := by
  have vars := newline_not_mem_word (isWord_digits n)
  have size := newline_not_mem_word (isWord_digits count)
  show '\n' ∉ "p cnf ".toList ++ digits n ++ ' ' :: digits count
  simp [vars, size]

theorem spaced_problemLine (n count : Nat) :
    Spaced [['p'], "cnf".toList, digits n, digits count] (problemLine n count) := by
  have size : Spaced [digits count] (digits count ++ []) :=
    .word (isWord_digits count) (by simp) .nil
  have vars : Spaced [digits n, digits count] (digits n ++ ' ' :: digits count) :=
    .word_blank (isWord_digits n) (by decide) (by simpa using size)
  have kind : Spaced ["cnf".toList, digits n, digits count]
      ("cnf".toList ++ ' ' :: (digits n ++ ' ' :: digits count)) :=
    .word_blank ⟨by simp, by simp [isBlank, blankRanges]⟩ (by decide) vars
  have whole : Spaced [['p'], "cnf".toList, digits n, digits count]
      (['p'] ++ ' ' :: ("cnf".toList ++ ' ' :: (digits n ++ ' ' :: digits count))) :=
    .word_blank ⟨by simp, by simp [isBlank, blankRanges]⟩ (by decide) kind
  show Spaced _ ("p cnf ".toList ++ digits n ++ ' ' :: digits count)
  simpa using whole

/-- A written formula has its problem line first, then a line for each clause, and then the lines
of what stands behind it. -/
theorem lined_chars (f : Formula) {ls : List (List Char)} {s : List Char} (behind : Lined ls s) :
    Lined (problemLine f.numVars f.size :: (f.clauses.map clauseLine ++ ls)) (chars f ++ s) := by
  have split : chars f ++ s =
      problemLine f.numVars f.size ++ '\n' :: (f.clauses.flatMap clauseText ++ s) :=
    List.append_assoc (problemLine f.numVars f.size) ('\n' :: f.clauses.flatMap clauseText) s
  rw [split]
  exact .line (newline_not_mem_problemLine f.numVars f.size) (lined_clauses f.clauses behind)

private theorem layout_render {f : Formula} (few : f.size < wordBound) : Layout f (render f) := by
  have lined := lined_chars f .nil
  rw [List.append_nil, List.append_nil, ← String.toList_ofList (l := chars f)] at lined
  exact .intro [] _ _ f.size _ lined .nil (spaced_problemLine f.numVars f.size) few
    (encodes_closedTokens f.clauses) (lays_clauseLines f.clauses)

end Render

/-- Reading any text of a well-formed formula gives the formula, and a formula is written as one of
its texts. The counts of variables and clauses have to fit a word. -/
theorem parse_of_layout {f : Formula} (wellFormed : f.WellFormed) (vars : f.numVars < wordBound) :
    (f.size < wordBound → parse (render f) = .ok f) ∧
      ∀ text, Layout f text → parse text = .ok f := by
  constructor
  · intro few
    exact (layout_render few).parse_eq wellFormed vars
  · intro text layout
    exact layout.parse_eq wellFormed vars

/-- An empty clause between two others, the last one with the extreme literals. -/
def scattered : Formula :=
  ⟨2147483647, [⟨[⟨1⟩, ⟨-2⟩]⟩, ⟨[]⟩, ⟨[⟨-2147483647⟩, ⟨2147483647⟩]⟩]⟩

def scatteredText : String :=
  "c front\n\n  p cnf 2147483647  9\r\n1\n c middle 0\n\t-2 0 0 -2147483647\r\n \n 2147483647"

private theorem scattered_layout : Layout scattered scatteredText := by
  refine .intro ["c front".toList, []]
    ["1".toList, " c middle 0".toList, "\t-2 0 0 -2147483647\r".toList, " ".toList,
      " 2147483647".toList]
    "  p cnf 2147483647  9\r".toList 9 _ (lines_eq_iff.mp (by decide +kernel)) ?_
    (words_eq_iff.mp (by decide +kernel)) (by decide) (.clause (.clause (.last (by decide)))) ?_
  · exact .comment ⟨[], _, by simp, rfl⟩ (.tokens [] (words_eq_iff.mp rfl) .nil)
  · refine .tokens [.literal ⟨1⟩] (words_eq_iff.mp (by decide +kernel)) ?_
    refine .comment ⟨[' '], _, by simp [isBlank, blankRanges], rfl⟩ ?_
    refine .tokens [.literal ⟨-2⟩, .close, .close, .literal ⟨-2147483647⟩]
      (words_eq_iff.mp (by decide +kernel)) ?_
    refine .tokens [] (words_eq_iff.mp (by decide +kernel)) ?_
    exact .tokens [.literal ⟨2147483647⟩] (words_eq_iff.mp (by decide +kernel)) .nil

/-- A text with a wrong count, a clause over two lines with a comment inside, and no 0 at the
end. -/
theorem scattered_parsed : scattered.WellFormed ∧ Layout scattered scatteredText ∧
    parse scatteredText = .ok scattered ∧ parse (render scattered) = .ok scattered := by
  have wellFormed : scattered.WellFormed := by decide
  obtain ⟨rendered, laidOut⟩ := parse_of_layout wellFormed (by decide)
  exact ⟨wellFormed, scattered_layout, laidOut _ scattered_layout, rendered (by decide)⟩

end SatLab.Dimacs

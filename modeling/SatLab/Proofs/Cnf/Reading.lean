import SatLab.Cnf.Dimacs
import SatLab.Proofs.Control.Task
/-!
Formulas that are read. The reader of texts checks every literal, so that what it hands out is well
formed. The reader of records takes what it finds: it gives back what was written, and nothing keeps
other records out.
-/

set_option autoImplicit false
set_option relaxedAutoImplicit false

namespace SatLab

/-- A literal that was taken from a signed 32-bit number. -/
def Literal.Given (l : Literal) : Prop :=
  ∃ v : Int, -0x80000000 ≤ v ∧ v < 0x80000000 ∧ Literal.ofSigned? v = some l

theorem Literal.Given.valid {l : Literal} (given : l.Given) : l.Valid := by
  obtain ⟨v, low, high, taken⟩ := given
  obtain ⟨⟨nonzero, least⟩, rfl⟩ := Literal.ofSigned?_eq_some_iff.mp taken
  refine ⟨nonzero, ?_⟩
  show v.natAbs ≤ 0x80000000 - 1
  omega

private theorem Text.range_of_integer? {s : List Char} {i : Int} (read : integer? s = some i) :
    -0x80000000 ≤ i ∧ i < 0x80000000 := by
  unfold integer? at read
  split at read <;>
  · simp only [Option.map_eq_some_iff, Option.filter_eq_some_iff, decide_eq_true_eq] at read
    obtain ⟨n, ⟨-, bound⟩, rfl⟩ := read
    omega

namespace Dimacs

open SatLab.Text

structure Progress.Sound (p : Progress) : Prop where
  pending : ∀ l ∈ p.pending, l.Valid
  done : ∀ c ∈ p.done, ∀ l ∈ c.literals, l.Valid

section Sound

variable {p p' : Progress}

theorem Progress.Sound.close (sound : p.Sound) :
    ∀ c ∈ (⟨p.pending.reverse⟩ : Clause) :: p.done, ∀ l ∈ c.literals, l.Valid := by
  intro c member l occurs
  rcases List.mem_cons.mp member with rfl | earlier
  · exact sound.pending l (List.mem_reverse.mp occurs)
  · exact sound.done c earlier l occurs

theorem Progress.Sound.token {line : Nat} {word : List Char} (sound : p.Sound)
    (read : p.token line word = .ok p') : p'.Sound := by
  unfold Progress.token at read
  split at read
  · cases read
  · rename_i value number
    split at read
    · cases read
      exact ⟨nofun, sound.close⟩
    · split at read
      · cases read
      · rename_i l taken
        cases read
        obtain ⟨low, high⟩ := range_of_integer? number
        have given : l.Given := ⟨value, low, high, taken⟩
        exact ⟨List.forall_mem_cons.mpr ⟨given.valid, sound.pending⟩, sound.done⟩

theorem numVars_of_problem {line : Nat} {text fields : List Char}
    (read : p.problem line text fields = .ok p') : ∃ n, p' = { p with numVars := some n } := by
  unfold Progress.problem at read
  split at read
  · rename_i kind vars clauses _
    split at read
    · cases read
    · cases first : countField line vars with
      | error e =>
        rw [first] at read
        cases read
      | ok n =>
        cases second : countField line clauses with
        | error e =>
          rw [first, second] at read
          cases read
        | ok m =>
          rw [first, second] at read
          cases read
          exact ⟨n, rfl⟩
  · cases read

theorem Progress.Sound.line {numbered : List Char × Nat} (sound : p.Sound)
    (read : p.line numbered = .ok p') : p'.Sound := by
  simp only [Progress.line] at read
  split at read
  · cases read
    exact sound
  · cases read
    exact sound
  · cases read
    exact sound
  · obtain ⟨n, rfl⟩ := numVars_of_problem read
    exact ⟨sound.pending, sound.done⟩
  · split at read
    · cases read
    · exact foldlM_keeps Progress.Sound.token sound read

theorem Progress.Sound.clauses (sound : p.Sound) :
    ∀ c ∈ p.clauses, ∀ l ∈ c.literals, l.Valid := by
  intro c member
  unfold Progress.clauses at member
  rw [List.mem_reverse] at member
  split at member
  · exact sound.done c member
  · exact sound.close c member

end Sound

theorem wellFormed_of_parseLines {ls : List (List Char)} {f : Formula}
    (read : parseLines ls = .ok f) : f.WellFormed := by
  unfold parseLines at read
  cases folded : (ls.zipIdx 1).foldlM Progress.line {} with
  | error e =>
    rw [folded] at read
    cases read
  | ok p =>
    rw [folded, ok_bind, Progress.finish] at read
    split at read
    · cases read
    · obtain ⟨inside, rfl⟩ := Formula.ofClauses_eq_ok_iff.mp read
      have blank : Progress.Sound {} := ⟨List.forall_mem_nil _, List.forall_mem_nil _⟩
      have sound : p.Sound := foldlM_keeps Progress.Sound.line blank folded
      exact fun c member l occurs => ⟨sound.clauses c member l occurs, inside c member l occurs⟩

theorem wellFormed_of_parse {text : String} {f : Formula} (read : parse text = .ok f) :
    f.WellFormed :=
  wellFormed_of_parseLines read

end Dimacs

namespace Json

variable {S α β : Type} [Codec α] [Codec β]

private theorem decode_encode_list {xs : List α}
    (each : ∀ x ∈ xs, (Json.decode (Json.encode x) : Option α) = some x) :
    (Json.decode (Json.encode xs) : Option (List α)) = some xs := by
  show (xs.map Json.encode).mapM (Json.decode : Json → Option α) = some xs
  induction xs with
  | nil => rfl
  | cons x xs ih =>
    have rest := ih fun y member => each y (List.mem_cons_of_mem x member)
    rw [List.map_cons, List.mapM_cons, each x List.mem_cons_self, rest]
    rfl

private theorem decode_encode_pair {x y : String} (apart : x ≠ y) (base : S) (get : S → α)
    (set : α → S → S) (get' : S → β) (set' : β → S → S) (s : S) :
    Record.decode ⟨base, false, [.of x get set, .of y get' set']⟩
      (Record.encode ⟨base, false, [.of x get set, .of y get' set']⟩ s) =
      (Json.decode (Json.encode (get s)) : Option α).bind fun a =>
        (Json.decode (Json.encode (get' s)) : Option β).map fun b => set' b (set a base) := by
  have later : (x == y) = false := beq_eq_false_iff_ne.mpr apart
  cases first : (Json.decode (Json.encode (get s)) : Option α) with
  | none => simp [Record.decode, Record.encode, Json.fields, Field.of, Record.storeEntry, first]
  | some a =>
    cases second : (Json.decode (Json.encode (get' s)) : Option β) <;>
    simp [Record.decode, Record.encode, Json.fields, Field.of, Record.storeEntry, first, second,
      later, apart.symm, Record.leaveRest, List.find?]

end Json

section Records

private theorem decode_encode_literal {l : Literal} (valid : l.Valid) :
    (Json.decode (Json.encode l) : Option Literal) = some l := by
  have bound : l.value.natAbs ≤ 0x80000000 - 1 := valid.2
  show (if -0x80000000 ≤ l.value ∧ l.value < 0x80000000 then some (⟨l.value⟩ : Literal)
    else none) = some l
  rw [if_pos (by omega)]

private theorem decode_encode_clause {c : Clause} (valid : ∀ l ∈ c.literals, l.Valid) :
    (Json.decode (Json.encode c) : Option Clause) = some c := by
  show (Json.decode (Json.encode c.literals) : Option (List Literal)).map Clause.mk = some c
  rw [Json.decode_encode_list fun l occurs => decode_encode_literal (valid l occurs)]
  rfl

private theorem decode_count {n m : Nat}
    (read : (Json.decode (Json.encode n) : Option Nat) = some m) : m = n := by
  change (if 0 ≤ (n : Int) ∧ (n : Int) < (wordBound : Int) then some (n : Int).toNat
    else none) = some m at read
  split at read
  · exact (Option.some.inj read).symm
  · cases read

theorem Formula.eq_of_reread {f g : Formula} (wellFormed : f.WellFormed)
    (reread : (Json.decode (Json.encode f) : Option Formula) = some g) : g = f := by
  have fields := Json.decode_encode_pair (show "num_vars" ≠ "clauses" by decide)
    (⟨0, []⟩ : Formula) Formula.numVars (fun n s => { s with numVars := n })
    Formula.clauses (fun cs s => { s with clauses := cs }) f
  have clauses := Json.decode_encode_list fun c member =>
    decode_encode_clause fun l occurs => (wellFormed c member l occurs).1
  have whole := fields.symm.trans reread
  rw [clauses, Option.bind_eq_some_iff] at whole
  obtain ⟨n, counted, made⟩ := whole
  obtain rfl := decode_count counted
  exact (Option.some.inj made).symm

end Records

end SatLab

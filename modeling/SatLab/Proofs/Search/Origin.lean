import SatLab.Proofs.Cnf.Degree
import SatLab.Proofs.Cnf.Falsified
import SatLab.Proofs.Cnf.Reading
import SatLab.Proofs.Cnf.Uniform
import SatLab.Proofs.Search.Stopped
import SatLab.Proofs.Search.Verdict
/-!
Where formulas come from. A formula that is put together from checked literals, read from a text,
drawn, extended or reduced names no variable that it does not have, and so does one that is written
to a record and read back. Only a record from outside can hold another one, and that is found out
late, by a look-up beyond a table.
-/

set_option autoImplicit false
set_option relaxedAutoImplicit false

namespace SatLab.Formula

open SatLab.Random (WordSource)

/-- The formulas that some sequence of operations hands out, when the records that are read from
outside are among the given ones. -/
inductive Made (outside : Json → Prop) : Formula → Prop
  | ofClauses {n : Nat} {cs : List Clause} {f : Formula}
      (given : ∀ c ∈ cs, ∀ l ∈ c.literals, l.Given) (made : ofClauses n cs = .ok f) :
      Made outside f
  | withClause {f g : Formula} {c : Clause} (base : Made outside f)
      (given : ∀ l ∈ c.literals, l.Given) (made : f.withClause c = .ok g) : Made outside g
  | reduce {f g : Formula} {l : Literal} (base : Made outside f) (made : f.reduce l = .ok g) :
      Made outside g
  | reduceAll {f g : Formula} {ls : List Literal} (base : Made outside f)
      (made : f.reduceAll ls = .ok g) : Made outside g
  | parsed {text : String} {f : Formula} (made : Dimacs.parse text = .ok f) : Made outside f
  | drawn {σ : Type} [WordSource σ] {n m : Nat} {s s' : σ} {f : Formula}
      (made : Uniform.generate n m s = .ok (f, s')) : Made outside f
  | reread {f g : Formula} (base : Made outside f)
      (made : (Json.decode (Json.encode f) : Option Formula) = some g) : Made outside g
  | decoded {j : Json} {f : Formula} (record : outside j)
      (made : (Json.decode j : Option Formula) = some f) : Made outside f

/-- Nothing that is computed from a formula looks beyond a table: it can be evaluated under every
assignment to its variables and their occurrences can be counted, and a search breaks off only where
a count of steps does not fit its word. -/
structure Safe (f : Formula) : Prop where
  evaluated : ∀ a : Assignment, a.size = f.numVars → ∃ b, f.isSatisfiedBy a = .ok b
  counted : ∀ a : Assignment, a.size = f.numVars → ∃ k, f.countUnsat a = .ok k
  degrees : ∃ d, f.degrees = .ok d
  searched : ∀ limit sig e, Search.solve limit f sig = .error e → e = .overflow

private theorem WellFormed.safe {f : Formula} (wellFormed : f.WellFormed) : f.Safe where
  evaluated a size := ⟨_, isSatisfiedBy_of_wellFormed wellFormed size⟩
  counted a size := ⟨_, countUnsat_of_unsatClauses (unsatClauses_of_wellFormed wellFormed size)⟩
  degrees := by
    obtain ⟨d, counted, -⟩ := degrees_of_wellFormed wellFormed
    exact ⟨d, counted⟩
  searched limit sig e failed := by
    rcases Search.solve_yielding limit f sig with
      ⟨-, r, sig', ended, -⟩ | ⟨quiet, same⟩ | ⟨-, same, -⟩
    · cases ended.symm.trans failed
    · cases same.symm.trans failed
      exact (Search.overflow_of_solve wellFormed quiet).1
    · cases same.symm.trans failed

theorem Made.wellFormed {outside : Json → Prop} {f : Formula} (made : Made outside f)
    (checked : ∀ j g, outside j → (Json.decode j : Option Formula) = some g → g.WellFormed) :
    f.WellFormed := by
  induction made with
  | ofClauses given made =>
    obtain ⟨inside, rfl⟩ := ofClauses_eq_ok_iff.mp made
    exact fun c member l occurs => ⟨(given c member l occurs).valid, inside c member l occurs⟩
  | @withClause f g c base given made wellFormed =>
    obtain ⟨inside, rfl⟩ := ofClauses_eq_ok_iff.mp made
    intro d member l occurs
    refine ⟨?_, inside d member l occurs⟩
    rcases List.mem_append.mp member with earlier | last
    · exact (wellFormed d earlier l occurs).1
    · obtain rfl := List.mem_singleton.mp last
      exact (given l occurs).valid
  | reduce base made wellFormed => exact wellFormed.of_reduce made
  | reduceAll base made wellFormed => exact foldlM_keeps WellFormed.of_reduce wellFormed made
  | parsed made => exact Dimacs.wellFormed_of_parse made
  | drawn made => exact (Uniform.drawn_of_generate made).wellFormed
  | reread base made wellFormed => exact eq_of_reread wellFormed made ▸ wellFormed
  | decoded record made => exact checked _ _ record made

section Stray

variable {α : Type} [Add α] (amount : Literal → α)

private theorem foldlM_bump_stray {ls : List Literal} {table : Array α}
    (stray : ∃ l ∈ ls, l.var = 0 ∨ table.size < l.var) :
    ls.foldlM (bump amount) table = .error .outOfRange := by
  induction ls generalizing table with
  | nil => simp at stray
  | cons l ls ih =>
    rw [List.foldlM_cons]
    by_cases inside : 0 < l.var ∧ l.var ≤ table.size
    · have place : l.var - 1 < table.size := by omega
      have nonzero : l.var ≠ 0 := by omega
      have bumped : bump amount table l =
          .ok (table.set (l.var - 1) (table[l.var - 1] + amount l)) := by
        rw [bump, Literal.index, if_neg nonzero, ok_bind, dif_pos place]
        rfl
      rw [bumped, ok_bind]
      apply ih
      obtain ⟨k, member, out⟩ := stray
      rcases List.mem_cons.mp member with rfl | later
      · omega
      · exact ⟨k, later, by simpa using out⟩
    · have failed : bump amount table l = .error .outOfRange := by
        rw [bump, Literal.index]
        split
        · rfl
        · rw [ok_bind, dif_neg (by omega)]
          rfl
      rw [failed, error_bind]

end Stray

/-- Every formula that is handed out is well formed, and safe to evaluate, count and search, exactly
when every formula that is read from an outside record is well formed; nothing checks that. A
formula with a literal that names none of its variables comes through the reader and breaks off
where its occurrences are counted. -/
theorem made_safe_iff (outside : Json → Prop) :
    ((∀ f, Made outside f → f.WellFormed ∧ f.Safe) ↔
      ∀ j f, outside j → (Json.decode j : Option Formula) = some f → f.WellFormed) ∧
    ∀ f : Formula, (∃ l ∈ f.literals, l.var = 0 ∨ f.numVars < l.var) →
      f.degrees = .error .outOfRange := by
  constructor
  · constructor
    · intro safe j f record decoded
      exact (safe f (.decoded record decoded)).1
    · intro checked f made
      have wellFormed := made.wellFormed checked
      exact ⟨wellFormed, wellFormed.safe⟩
  · rintro f stray
    apply foldlM_bump_stray
    simpa using stray

/-- A record of two variables with a literal over a third one. -/
def strayRecord : Json :=
  .fields [("num_vars", .count 2),
    ("clauses", .list [.list [.whole 1, .whole (-2)], .list [.whole 3]])]

/-- The reader of records takes the stray literal, and a search breaks off at it. Put together from
the same clauses, or read from a text, the formula is refused. -/
theorem stray_search : ∃ f : Formula, Json.decode strayRecord = some f ∧
    (¬ ∀ g, Made (· = strayRecord) g → g.WellFormed ∧ g.Safe) ∧
    f.degrees = .error .outOfRange ∧ Search.solve 100 f .never = .error .outOfRange ∧
    ofClauses f.numVars f.clauses = .error (.variableOutOfRange 3 2) ∧
    Dimacs.parse "p cnf 2 2\n1 -2 0\n3 0\n" = .error (.variableOutOfRange 3 2) := by
  have decoded : (Json.decode strayRecord : Option Formula) =
      some ⟨2, [⟨[⟨1⟩, ⟨-2⟩]⟩, ⟨[⟨3⟩]⟩]⟩ := by decide +kernel
  have unchecked := made_safe_iff (· = strayRecord)
  refine ⟨_, decoded, fun safe => ?_, ?_, by rfl, rfl, by rfl⟩
  · have wellFormed := unchecked.1.mp safe _ _ rfl decoded
    revert wellFormed
    decide
  · exact unchecked.2 _ ⟨⟨3⟩, by decide, by decide⟩

end SatLab.Formula

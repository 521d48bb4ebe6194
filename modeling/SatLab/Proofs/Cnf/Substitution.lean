import SatLab.Proofs.Cnf.Agreement
import SatLab.Proofs.Cnf.Falsified
/-!
Literals that are taken to be true all at once. Reduction takes them one after the other; as long as
no two of them are opposite it comes to the same in every order. The clauses that are dropped are
true and the literals that are struck are false, so no falsified clause is lost or gained.
-/

set_option autoImplicit false
set_option relaxedAutoImplicit false

namespace SatLab

private theorem Literal.neg_neg (l : Literal) : - -l = l :=
  congrArg Literal.mk (Int.neg_neg l.value)

namespace Assignment

variable {a : Assignment} {k : Literal} {ls : List Literal}

private theorem not_satisfies_of_neg_mem (valid : ∀ l ∈ ls, l.Valid) (agrees : a.Agrees ls)
    (opposite : -k ∈ ls) : ¬ a.Satisfies k := by
  have fails := not_satisfies_neg (valid _ opposite) (agrees _ opposite)
  rwa [k.neg_neg] at fails

private theorem satisfies_of_neg_mem (valid : ∀ l ∈ ls, l.Valid) (agrees : a.Agrees ls)
    (opposite : -k ∈ ls) : a.satisfies k = .ok false := by
  obtain ⟨positive, entry⟩ := agrees _ opposite
  rw [Literal.var_neg] at positive entry
  have inside := (Array.getElem?_eq_some_iff.mp entry).1
  have covered : k.var ≤ a.size := by
    simp only [size]
    omega
  have fails := not_satisfies_of_neg_mem valid agrees opposite
  rw [satisfies_of_covered positive covered, decide_eq_false fails]

private theorem satisfies_neg_of_false (small : a.size ≤ maxVar)
    (fails : a.satisfies k = .ok false) : a.Satisfies (-k) := by
  cases value : a.value k.var with
  | error e =>
    rw [satisfies, value] at fails
    cases fails
  | ok b =>
    obtain ⟨positive, covered⟩ := range_of_value value
    have valid : k.Valid := ⟨Int.natAbs_pos.mp positive, covered.trans small⟩
    rw [satisfies_of_covered positive covered, Except.ok.injEq, decide_eq_false_iff_not] at fails
    exact (satisfies_neg_iff valid covered).mpr fails

/-- The literals that are true, in the order of the variables. -/
def trueLiterals (a : Assignment) : Except Fault (List Literal) :=
  (List.range' 1 a.size).mapM a.literalOf

private theorem literalOf_eq_ok {v : Nat} {l : Literal} (read : a.literalOf v = .ok l) :
    l.var = v ∧ l.Valid ∧ a.Satisfies l := by
  rw [literalOf] at read
  cases value : a.value v with
  | error e =>
    rw [value] at read
    cases read
  | ok b =>
    rw [value, ok_bind] at read
    have range : 0 < v ∧ v ≤ maxVar := by
      by_contra outside
      rw [Literal.ofVar, if_neg outside] at read
      cases read
    obtain ⟨positive, small⟩ := range
    rw [Literal.ofVar_eq_signed positive small] at read
    cases read
    exact ⟨Literal.var_signed, Literal.valid_signed positive small,
      (satisfies_signed_iff positive).mpr value⟩

private theorem mem_trueLiterals {l : Literal} (read : a.trueLiterals = .ok ls) :
    l ∈ ls ↔ a.Satisfies l := by
  obtain ⟨given, taken⟩ := mem_of_mapM read
  constructor
  · intro listed
    obtain ⟨v, -, literal⟩ := given l listed
    exact (literalOf_eq_ok literal).2.2
  · intro holds
    have named : l.var ∈ List.range' 1 a.size := by
      have positive := holds.1
      have inside := (Array.getElem?_eq_some_iff.mp holds.2).1
      rw [List.mem_range'_1, size]
      omega
    obtain ⟨k, listed, literal⟩ := taken l.var named
    obtain ⟨same, -, holds'⟩ := literalOf_eq_ok literal
    have polarity : some k.isPositive = some l.isPositive := by
      rw [← holds.2, ← holds'.2, same]
    rwa [← Literal.eq_of_var_eq same (Option.some.inj polarity)]

private theorem size_le_of_trueLiterals (read : a.trueLiterals = .ok ls) : a.size ≤ maxVar := by
  obtain ⟨-, taken⟩ := mem_of_mapM read
  by_contra large
  have named : maxVar + 1 ∈ List.range' 1 a.size := by
    rw [List.mem_range'_1]
    omega
  obtain ⟨k, -, literal⟩ := taken (maxVar + 1) named
  obtain ⟨same, valid, -⟩ := literalOf_eq_ok literal
  have bound := valid.2
  omega

end Assignment

namespace Clause

def Avoids (c : Clause) (ls : List Literal) : Prop := ∀ l ∈ c.literals, l ∉ ls

instance (c : Clause) (ls : List Literal) : Decidable (c.Avoids ls) :=
  inferInstanceAs (Decidable (∀ l ∈ c.literals, l ∉ ls))

/-- Strikes every literal whose negation is one of those given. -/
def strike (c : Clause) (ls : List Literal) : Clause :=
  ⟨c.literals.filter fun k => decide (-k ∉ ls)⟩

variable {c : Clause} {l : Literal} {ls : List Literal}

private theorem Avoids.strike (avoids : c.Avoids ls) (ks : List Literal) :
    (c.strike ks).Avoids ls := by
  intro l kept
  exact avoids l (List.mem_filter.mp kept).1

private theorem strike_strike (c : Clause) (ls : List Literal) :
    (c.strike ls).strike ls = c.strike ls := by
  simp [Clause.strike]

private theorem avoids_cons_iff (consistent : -l ∉ ls) :
    c.Avoids (l :: ls) ↔ l ∉ c.literals ∧ (c.without (-l)).Avoids ls := by
  constructor
  · intro avoids
    refine ⟨fun inside => avoids l inside List.mem_cons_self, fun k kept listed => ?_⟩
    exact avoids k (List.mem_filter.mp kept).1 (List.mem_cons_of_mem l listed)
  · rintro ⟨absent, avoids⟩ k occurs listed
    rcases List.mem_cons.mp listed with rfl | later
    · exact absent occurs
    · have differs : k ≠ -l := by
        rintro rfl
        exact consistent later
      exact avoids k (List.mem_filter.mpr ⟨occurs, by simpa using differs⟩) later

private theorem strike_cons (c : Clause) (l : Literal) (ls : List Literal) :
    c.strike (l :: ls) = (c.without (-l)).strike ls := by
  have opposite : ∀ k : Literal, -k = l ↔ k = -l := by
    intro k
    constructor
    · rintro rfl
      exact k.neg_neg.symm
    · rintro rfl
      exact l.neg_neg
  simp only [strike, without, List.filter_filter, List.mem_cons, not_or]
  congr 1
  apply List.filter_congr
  intro k _
  by_cases struck : k = -l <;> simp [opposite, struck]

section Falsified

variable {a : Assignment}

private theorem Falsified.avoids (none : c.Falsified a) (agrees : a.Agrees ls) : c.Avoids ls := by
  intro l occurs listed
  exact none l occurs (agrees l listed)

private theorem falsified_strike_iff (valid : ∀ l ∈ ls, l.Valid) (agrees : a.Agrees ls) :
    (c.strike ls).Falsified a ↔ c.Falsified a := by
  constructor
  · intro none k occurs holds
    by_cases opposite : -k ∈ ls
    · exact Assignment.not_satisfies_of_neg_mem valid agrees opposite holds
    · exact none k (List.mem_filter.mpr ⟨occurs, by simpa using opposite⟩) holds
  · intro none k kept
    exact none k (List.mem_filter.mp kept).1

private theorem isSatisfiedBy_strike {b : Bool} (valid : ∀ l ∈ ls, l.Valid) (agrees : a.Agrees ls)
    (evaluated : c.isSatisfiedBy a = .ok b) : (c.strike ls).isSatisfiedBy a = .ok b := by
  rw [isSatisfiedBy] at evaluated ⊢
  rw [strike]
  generalize c.literals = ks at evaluated ⊢
  induction ks with
  | nil => exact evaluated
  | cons k ks ih =>
    rw [List.anyM] at evaluated
    by_cases opposite : -k ∈ ls
    · rw [Assignment.satisfies_of_neg_mem valid agrees opposite] at evaluated
      simpa [opposite] using ih evaluated
    · simp only [opposite, List.filter_cons, not_false_eq_true, decide_true, if_true]
      rw [List.anyM]
      cases value : a.satisfies k with
      | error e =>
        rw [value] at evaluated
        cases evaluated
      | ok first =>
        rw [value] at evaluated
        cases first with
        | true => exact evaluated
        | false => exact ih evaluated

private theorem satisfies_of_isSatisfiedBy (evaluated : c.isSatisfiedBy a = .ok false) :
    ∀ k ∈ c.literals, a.satisfies k = .ok false := by
  rw [isSatisfiedBy] at evaluated
  generalize c.literals = ks at evaluated ⊢
  induction ks with
  | nil => simp
  | cons k ks ih =>
    rw [List.anyM] at evaluated
    cases value : a.satisfies k with
    | error e =>
      rw [value] at evaluated
      cases evaluated
    | ok first =>
      rw [value] at evaluated
      cases first with
      | true => cases evaluated
      | false => exact List.forall_mem_cons.mpr ⟨value, ih evaluated⟩

private theorem strike_of_isSatisfiedBy (read : a.trueLiterals = .ok ls)
    (evaluated : c.isSatisfiedBy a = .ok false) : c.strike ls = ⟨[]⟩ := by
  have small := Assignment.size_le_of_trueLiterals read
  rw [strike, List.filter_eq_nil_iff.mpr]
  intro k occurs
  have fails := satisfies_of_isSatisfiedBy evaluated k occurs
  have opposite := Assignment.satisfies_neg_of_false small fails
  simpa using (Assignment.mem_trueLiterals read).mpr opposite

end Falsified

end Clause

namespace Formula

/-- What is left of a formula when literals are true at once: the clauses that hold none of them,
and in these no literal whose negation is one of them. -/
def substitute (f : Formula) (ls : List Literal) : Formula :=
  ⟨f.numVars, (f.clauses.filter fun c => decide (c.Avoids ls)).map (·.strike ls)⟩

section Order

variable {f : Formula} {l : Literal} {ks ls : List Literal}

private theorem substitute_nil (f : Formula) : f.substitute [] = f := by
  simp [substitute, Clause.strike, Clause.Avoids]

private theorem substitute_congr (same : ∀ l, l ∈ ks ↔ l ∈ ls) :
    f.substitute ks = f.substitute ls := by
  have kept : ∀ c : Clause, c.Avoids ks ↔ c.Avoids ls := by
    intro c
    simp only [Clause.Avoids, same]
  simp only [substitute, Clause.strike, kept, same]

private theorem substitute_cons (consistent : -l ∉ ls) :
    f.substitute (l :: ls) = (f.restrict l).substitute ls := by
  simp only [substitute, restrict, List.filter_map, List.map_map, List.filter_filter]
  congr 1
  have struck : (Clause.strike · (l :: ls)) = (Clause.strike · ls) ∘ (Clause.without · (-l)) := by
    funext c
    exact c.strike_cons l ls
  rw [struck]
  congr 1
  apply List.filter_congr
  intro c _
  by_cases inside : l ∈ c.literals <;>
    simp [Clause.avoids_cons_iff consistent, Clause.contains, inside]

private theorem reduceAll_eq_substitute (valid : ∀ l ∈ ls, l.Valid)
    (consistent : ∀ l ∈ ls, -l ∉ ls) : f.reduceAll ls = .ok (f.substitute ls) := by
  induction ls generalizing f with
  | nil => rw [substitute_nil, reduceAll, List.foldlM_nil, pure_eq_ok]
  | cons l ls ih =>
    have first : f.reduce l = .ok (f.restrict l) := reduce_of_valid (valid l List.mem_cons_self)
    have apart : -l ∉ ls := fun listed =>
      consistent l List.mem_cons_self (List.mem_cons_of_mem l listed)
    have rest : (f.restrict l).reduceAll ls = .ok ((f.restrict l).substitute ls) := by
      apply ih
      · intro k listed
        exact valid k (List.mem_cons_of_mem l listed)
      · intro k listed opposite
        exact consistent k (List.mem_cons_of_mem l listed) (List.mem_cons_of_mem l opposite)
    rw [reduceAll, List.foldlM_cons, first, ok_bind, ← reduceAll, rest, substitute_cons apart]

private theorem substitute_substitute (f : Formula) (ls : List Literal) :
    (f.substitute ls).substitute ls = f.substitute ls := by
  simp only [substitute, List.filter_map, List.map_map, List.filter_filter]
  congr 1
  have struck : (Clause.strike · ls) ∘ (Clause.strike · ls) = (Clause.strike · ls) := by
    funext c
    exact c.strike_strike ls
  rw [struck]
  congr 1
  apply List.filter_congr
  intro c _
  by_cases avoids : c.Avoids ls <;> simp [avoids, Clause.Avoids.strike]

end Order

section Falsified

variable {f : Formula} {a : Assignment} {ls : List Literal}

private theorem length_falsified_substitute (valid : ∀ l ∈ ls, l.Valid) (agrees : a.Agrees ls) :
    ((f.substitute ls).falsified a).length = (f.falsified a).length := by
  rw [length_falsified, length_falsified, substitute, List.countP_map, List.countP_filter]
  apply List.countP_congr
  intro c _
  have same := Clause.falsified_strike_iff (c := c) valid agrees
  by_cases none : c.Falsified a
  · have avoids := none.avoids agrees
    simp [same, none, avoids]
  · simp [same, none]

private theorem countUnsat_substitute {count : Nat} (valid : ∀ l ∈ ls, l.Valid)
    (agrees : a.Agrees ls) (counted : f.countUnsat a = .ok count) :
    (f.substitute ls).countUnsat a = .ok count := by
  obtain ⟨rfl, evaluated⟩ := countUnsat_eq_ok_iff.mp counted
  refine countUnsat_eq_ok_iff.mpr ⟨(length_falsified_substitute valid agrees).symm, ?_⟩
  intro c left
  obtain ⟨d, kept, rfl⟩ := List.mem_map.mp left
  have value := evaluated d (List.mem_filter.mp kept).1
  have value' := Clause.isSatisfiedBy_strike valid agrees value
  rw [value', ← Clause.eq_of_isSatisfiedBy value']

private theorem substitute_trueLiterals {count : Nat} (read : a.trueLiterals = .ok ls)
    (counted : f.countUnsat a = .ok count) :
    f.substitute ls = ⟨f.numVars, List.replicate count ⟨[]⟩⟩ := by
  obtain ⟨rfl, evaluated⟩ := countUnsat_eq_ok_iff.mp counted
  have kept : ∀ c : Clause, c.Avoids ls ↔ c.Falsified a := by
    intro c
    simp only [Clause.Avoids, Clause.Falsified, Assignment.mem_trueLiterals read]
  rw [substitute, Formula.mk.injEq, List.eq_replicate_iff]
  refine ⟨rfl, ?_, ?_⟩
  · simp only [List.length_map, length_falsified, List.countP_eq_length_filter, kept]
  · intro c left
    obtain ⟨d, member, rfl⟩ := List.mem_map.mp left
    obtain ⟨original, avoids⟩ := List.mem_filter.mp member
    have none : d.Falsified a := (kept d).mp (of_decide_eq_true avoids)
    have value := evaluated d original
    rw [decide_eq_true none] at value
    exact Clause.strike_of_isSatisfiedBy read value

end Falsified

/-- Reduction by valid literals, no two of them opposite, takes them all to be true at once: it
leaves the clauses that hold none of them, in their order, without the literals whose negation is
one of them. So neither order nor repetition of the literals matters, and a second reduction changes
nothing. Under an assignment that makes them true as many clauses are falsified as before. When they
are the true literals of an assignment, an empty clause is left for each falsified one and nothing
else. -/
theorem reduceAll_simultaneous {f : Formula} {ls : List Literal} (valid : ∀ l ∈ ls, l.Valid)
    (consistent : ∀ l ∈ ls, -l ∉ ls) :
    f.reduceAll ls = .ok (f.substitute ls) ∧
      (∀ ks, (∀ l, l ∈ ks ↔ l ∈ ls) → f.reduceAll ks = f.reduceAll ls) ∧
      (f.substitute ls).reduceAll ls = .ok (f.substitute ls) ∧
      (∀ a : Assignment, a.Agrees ls →
        ((f.substitute ls).falsified a).length = (f.falsified a).length ∧
        (∀ count, f.countUnsat a = .ok count → (f.substitute ls).countUnsat a = .ok count) ∧
        (f.WellFormed → a.size = f.numVars → f.countUnsat a = .ok (f.falsified a).length)) ∧
      ∀ a : Assignment, a.trueLiterals = .ok ls → ∀ count, f.countUnsat a = .ok count →
        f.reduceAll ls = .ok ⟨f.numVars, List.replicate count ⟨[]⟩⟩ := by
  have reduced : ∀ g : Formula, g.reduceAll ls = .ok (g.substitute ls) := fun _ =>
    reduceAll_eq_substitute valid consistent
  refine ⟨reduced f, ?_, ?_, ?_, ?_⟩
  · intro ks same
    have valid' : ∀ l ∈ ks, l.Valid := fun l listed => valid l ((same l).mp listed)
    have consistent' : ∀ l ∈ ks, -l ∉ ks := fun l listed opposite =>
      consistent l ((same l).mp listed) ((same (-l)).mp opposite)
    rw [reduceAll_eq_substitute valid' consistent', reduced f, substitute_congr same]
  · rw [reduced, substitute_substitute]
  · intro a agrees
    refine ⟨length_falsified_substitute valid agrees, ?_, ?_⟩
    · intro count counted
      exact countUnsat_substitute valid agrees counted
    · intro wellFormed size
      exact countUnsat_of_unsatClauses (unsatClauses_of_wellFormed wellFormed size)
  · intro a read count counted
    rw [reduced f, substitute_trueLiterals read counted]

/-- Clauses with repeated, with opposite and with no literals. -/
def tangle : Formula :=
  ⟨3, [⟨[⟨-1⟩, ⟨2⟩, ⟨-1⟩]⟩, ⟨[⟨3⟩, ⟨-3⟩]⟩, ⟨[]⟩, ⟨[⟨2⟩, ⟨1⟩]⟩]⟩

/-- The values 1, 0, 1 falsify two of the clauses, and their literals leave two empty clauses, also
when they are taken in another order and one of them twice. -/
theorem tangle_reduced :
    (∀ l ∈ [(⟨1⟩ : Literal), ⟨-2⟩, ⟨3⟩], l.Valid) ∧
      (∀ l ∈ [(⟨1⟩ : Literal), ⟨-2⟩, ⟨3⟩], -l ∉ [(⟨1⟩ : Literal), ⟨-2⟩, ⟨3⟩]) ∧
      tangle.countUnsat ⟨#[true, false, true]⟩ = .ok 2 ∧
      tangle.reduceAll [⟨-2⟩, ⟨3⟩, ⟨1⟩, ⟨-2⟩] = .ok ⟨3, [⟨[]⟩, ⟨[]⟩]⟩ := by
  have valid : ∀ l ∈ [(⟨1⟩ : Literal), ⟨-2⟩, ⟨3⟩], l.Valid := by decide
  have consistent : ∀ l ∈ [(⟨1⟩ : Literal), ⟨-2⟩, ⟨3⟩], -l ∉ [(⟨1⟩ : Literal), ⟨-2⟩, ⟨3⟩] := by
    decide
  have counted : tangle.countUnsat ⟨#[true, false, true]⟩ = .ok 2 := rfl
  have read : Assignment.trueLiterals ⟨#[true, false, true]⟩ = .ok [⟨1⟩, ⟨-2⟩, ⟨3⟩] := rfl
  obtain ⟨-, order, -, -, emptied⟩ := reduceAll_simultaneous (f := tangle) valid consistent
  refine ⟨valid, consistent, counted, ?_⟩
  rw [order, emptied _ read 2 counted]
  · rfl
  · intro l
    simp only [List.mem_cons, List.not_mem_nil, or_false]
    tauto

end Formula

end SatLab

import SatLab.Proofs.Annealing.Passage
import SatLab.Proofs.Backbone.Prediction
import SatLab.Proofs.Cnf.Agreement
import SatLab.Proofs.Cnf.Degree
import SatLab.Proofs.Incidence.Graph
import SatLab.Proofs.Search.Bounds
/-!
No well-formed formula breaks a computation off. Every look-up on the way finds its entry, every
literal that is made is valid, and a counter leaves its word only under a step limit of about the
size of the word.
-/

set_option autoImplicit false
set_option relaxedAutoImplicit false

namespace SatLab

open SatLab.Random (WordSource)
open Annealing (Schedule Walk annealFrom anneal)

/-- What is computed from a formula is computed without a fault, and without an error that only a
broken input could cause. -/
structure Formula.Unbroken (f : Formula) : Prop where
  reduced : ∀ ls : List Literal, (∀ l ∈ ls, l.Valid) → ∃ g, f.reduceAll ls = .ok g
  degrees : ∃ d, f.degrees = .ok d ∧ d.size = f.numVars
  bias : ∃ b, f.bias = .ok b ∧ b.size = f.numVars
  branching : ∃ best, Search.branchLiteral? f = .ok best
  predicted : ∀ size, ∃ vars, Backbone.predict f size = .ok vars
  graph : ∃ g, Incidence.Graph.ofFormula f = .ok g ∧ g.Within f
  searched : ∀ limit sig, Search.Contained limit f sig
  classified : ∀ limit sig, (∃ r sig', Search.backbone limit f sig = .ok (r, sig')) ∨
    Search.backbone limit f sig = .error .cancelled ∨
    Search.backbone limit f sig = .error (.fault .overflow) ∧
      wordBound ≤ (limit + 1) * (f.numVars + 1)
  ready : ∀ {limit v : Nat} {first : Search.Result} {m : Assignment} {degrees : Array Nat}
    {s : Search.Survey} {sig₀ sig₁ sig₂ sig₃ : Signal},
    Search.solve limit f sig₀ = .ok (first, sig₁) → first.outcome = .satisfiable m →
    f.degrees = .ok degrees → 0 < v ∧ v ≤ f.numVars →
    (List.range' 1 (v - 1)).foldlM (Search.Survey.classify limit f m)
      (.start degrees first.steps) sig₂ = .ok (s, sig₃) → s.Ready limit f m v
  annealed : ∀ (σ : Type) [WordSource σ] (schedule : Schedule) (start : Assignment),
    schedule.validate = .ok () → start.size = f.numVars →
    (∀ (s : σ) (sig : Signal),
      (∃ r s' sig', annealFrom f start schedule s sig = .ok ((r, s'), sig')) ∨
        annealFrom f start schedule s sig = .error .cancelled) ∧
    (∀ left w, Walk.Passed σ f schedule start left w → w.Within σ f schedule left) ∧
    ∀ (s s' : σ) (sig sig' : Signal) r, annealFrom f start schedule s sig = .ok ((r, s'), sig') →
      ∃ left w, Walk.Passed σ f schedule start left w ∧ r = w.toRun
  drawn : ∀ (σ : Type) [WordSource σ] (schedule : Schedule) (s : σ),
    ∃ (start : Assignment) (s₁ : σ), start.size = f.numVars ∧
      anneal f schedule s = annealFrom f start schedule s₁

section Tables

variable {f : Formula} (wellFormed : f.WellFormed)

include wellFormed

private theorem Formula.bias_of_wellFormed : ∃ b, f.bias = .ok b ∧ b.size = f.numVars := by
  have valid : ∀ l ∈ f.literals, l.Valid ∧ l.var ≤ (Array.replicate f.numVars (0 : Int)).size := by
    intro l member
    simpa using wellFormed.of_mem_literals member
  obtain ⟨b, folded, size, -⟩ :=
    Formula.foldlM_bump (fun l => if l.isPositive then (1 : Int) else -1) valid
  exact ⟨b, folded, by simpa using size⟩

end Tables

/-- A well-formed formula over variables that literals can name breaks nothing off. With a step
limit for which the steps of all searches of a classification fit a word, each search returns and
each classification returns or is stopped by its signal. -/
theorem Formula.WellFormed.unbroken {f : Formula} (wellFormed : f.WellFormed)
    (small : f.numVars ≤ maxVar) :
    f.Unbroken ∧ ∀ limit, (limit + 1) * (f.numVars + 1) < wordBound → ∀ sig,
      (∃ r sig', Search.solve limit f sig = .ok (r, sig')) ∧
      ((∃ r sig', Search.backbone limit f sig = .ok (r, sig')) ∨
        Search.backbone limit f sig = .error .cancelled) := by
  constructor
  · exact {
      reduced := fun ls valid => ⟨_, Formula.reduceAll_of_valid valid⟩
      degrees := by
        obtain ⟨d, counted, size, -⟩ := Formula.degrees_of_wellFormed wellFormed
        exact ⟨d, counted, size⟩
      bias := Formula.bias_of_wellFormed wellFormed
      branching := ⟨_, Search.branchLiteral?_eq_argmax wellFormed⟩
      predicted := fun size => ⟨_, Backbone.predict_of_wellFormed wellFormed size⟩
      graph := Incidence.ofFormula_within wellFormed
      searched := Search.solve_contained wellFormed
      classified := Search.backbone_contained wellFormed
      ready := Search.Survey.ready_of_foldlM wellFormed small
      annealed := fun σ _ schedule start valid size =>
        ⟨Annealing.annealFrom_reports_or_stops wellFormed size valid,
          fun left w passed => passed.within wellFormed size,
          fun s s' sig sig' r ran => Annealing.passed_of_annealFrom ran⟩
      drawn := fun σ _ schedule s => Annealing.exists_start_of_anneal f schedule s }
  · intro limit fits sig
    have fewer : limit + 1 ≤ (limit + 1) * (f.numVars + 1) :=
      Nat.le_mul_of_pos_right _ (Nat.succ_pos _)
    constructor
    · rcases Search.solve_contained wellFormed limit sig with ⟨ran⟩ | ⟨-, full⟩
      · exact ⟨_, _, ran⟩
      · omega
    · rcases Search.backbone_contained wellFormed limit sig with ran | cut | ⟨-, full⟩
      · exact .inl ran
      · exact .inr cut
      · omega

/-- With three steps for each search nothing is broken off, although the check of the second
variable is cut short: the third variable finds its entries, and so does the first step of a run. -/
theorem needy_unbroken : Search.needy.WellFormed ∧ Search.needy.numVars ≤ maxVar ∧
    (3 + 1) * (Search.needy.numVars + 1) < wordBound ∧
    (∃ r sig', Search.solve 3 Search.needy ⟨some 2⟩ = .ok (r, sig')) ∧
    Search.Survey.Ready 3 Search.needy ⟨#[true, true, false]⟩ 3
      ⟨#[some (.frozen true), some .undetermined, none], 8⟩ ∧
    Walk.Within Random.Script Search.needy {} 5000
      (.start {} ⟨#[false, false, false]⟩ [0, 1]) := by
  have wellFormed : Search.needy.WellFormed := by decide
  have small : Search.needy.numVars ≤ maxVar := by decide
  have fits : (3 + 1) * (Search.needy.numVars + 1) < wordBound := by decide
  obtain ⟨unbroken, bounded⟩ := Formula.WellFormed.unbroken wellFormed small
  refine ⟨wellFormed, small, fits, (bounded 3 fits ⟨some 2⟩).1, ?_, ?_⟩
  · have solved : Search.solve 3 Search.needy .never =
        .ok (⟨.satisfiable ⟨#[true, true, false]⟩, 3, 0⟩, .never) :=
      ok_of_toOption (by decide +kernel)
    have counted : Search.needy.degrees = .ok #[1, 1, 1] := ok_of_toOption (by decide)
    have surveyed : (List.range' 1 2).foldlM
        (Search.Survey.classify 3 Search.needy ⟨#[true, true, false]⟩)
        (Search.Survey.start #[1, 1, 1] 3) .never =
          .ok (⟨#[some (.frozen true), some .undetermined, none], 8⟩, .never) :=
      ok_of_toOption (by decide +kernel)
    exact unbroken.ready solved rfl counted (by decide) surveyed
  · have valid : Schedule.validate {} = .ok () := rfl
    have evaluated : Search.needy.unsatClauses ⟨#[false, false, false]⟩ = .ok [0, 1] := rfl
    obtain ⟨-, within, -⟩ := unbroken.annealed Random.Script {} ⟨#[false, false, false]⟩ valid rfl
    exact within _ _ (.start evaluated)

end SatLab

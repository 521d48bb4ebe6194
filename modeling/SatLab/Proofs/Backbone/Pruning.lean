import SatLab.Proofs.Backbone.Guess
import SatLab.Proofs.Cnf.Falsified
import SatLab.Proofs.Search.Verdict
import SatLab.Proofs.Trial.Instance
/-!
What a pruning says about the models of its instance.
-/

set_option autoImplicit false
set_option relaxedAutoImplicit false

namespace SatLab.Backbone

def PruneConfig.toInstance (c : PruneConfig) : Trial.Instance := ⟨c.n, c.alpha, c.seed⟩

/-- The report on a guess, from the searches of the formula and of what the guess leaves of it. -/
def PruneConfig.report (c : PruneConfig) (f : Formula) (ls : List Literal)
    (full cut : Search.Result) : PruneResult :=
  let before := ExactSolve.ofResult full f.numVars
  let after := ExactSolve.ofResult cut (f.numVars - ls.length)
  let reduction := reductionPercent before after
  { n := c.n
    alpha := c.alpha
    backbone := ls
    before, after
    reductionPercent := reduction
    diagnosis := .diagnose before after ls.length reduction c }

/-- The parts of a pruning that no signal stops. -/
structure PruneParts (c : PruneConfig) (f g : Formula) (run : Annealing.Run) (ls : List Literal)
    (full cut : Search.Result) : Prop where
  permitted : Trial.checkFrozenFraction c.frozenFraction = .ok ()
  made : c.toInstance.formula = .ok f
  searched : Search.solve c.stepLimit f .never = .ok (full, .never)
  annealed : c.toInstance.anneal f c.anneal 0 .never = .ok (run, .never)
  guessed : guess run c.frozenFraction = .ok ls
  reduced : f.reduceAll ls = .ok g
  pruned : Search.solve c.stepLimit g .never = .ok (cut, .never)

section Parts

variable {c : PruneConfig} {f g : Formula} {run : Annealing.Run} {ls : List Literal}
  {full cut : Search.Result} {r : PruneResult} {sig : Signal}

theorem parts_of_prune {sig' : Signal} (ran : prune c sig = .ok (r, sig')) :
    Trial.checkFrozenFraction c.frozenFraction = .ok () ∧
      ∃ f full run g cut sig₁ sig₂, c.toInstance.formula = .ok f ∧
      Trial.solve c.stepLimit f sig = .ok (full, sig₁) ∧
      c.toInstance.anneal f c.anneal 0 sig₁ = .ok (run, sig₂) ∧
      guess run c.frozenFraction = .ok r.backbone ∧ f.reduceAll r.backbone = .ok g ∧
      (∃ sig₃, Trial.solve c.stepLimit g sig₂ = .ok (cut, sig₃) ∧
        Task.check Trial.Error.cancelled sig₃ = .ok ((), sig')) ∧
      r = c.report f r.backbone full cut := by
  simp only [prune, Task.bind_eq_ok, Task.lift_eq_ok, Trial.sound_eq_ok] at ran
  obtain ⟨_, _, ⟨permitted, rfl⟩, f, _, ⟨made, rfl⟩, full, sig₁, searched, run, _, annealed, ls, _,
    ⟨guessed, rfl⟩, g, sig₂, ⟨reduced, rfl⟩, cut, sig₃, pruned, _, sig₄, checked, given⟩ := ran
  cases given
  exact ⟨permitted, f, full, run, g, cut, sig₁, sig₂, made, searched, annealed, guessed, reduced,
    ⟨sig₃, pruned, checked⟩, rfl⟩

theorem prune_eq_ok_iff : prune c .never = .ok (r, sig) ↔
    sig = .never ∧ ∃ f g run ls full cut, PruneParts c f g run ls full cut ∧
      r = c.report f ls full cut := by
  constructor
  · intro ran
    obtain ⟨permitted, f, full, run, g, cut, s₁, s₂, made, searched, annealed, guessed, reduced,
      ⟨s₃, pruned, checked⟩, reported⟩ := parts_of_prune ran
    rw [Trial.solve_eq_ok] at searched pruned
    -- both searches and the anneal hand on a signal that never fires as it is
    obtain rfl := (Search.solve_yielding _ _).signal_eq searched
    obtain rfl := Trial.Instance.anneal_steady.signal_eq annealed
    obtain rfl := (Search.solve_yielding _ _).signal_eq pruned
    cases checked
    exact ⟨rfl, f, g, run, r.backbone, full, cut,
      ⟨permitted, made, searched, annealed, guessed, reduced, pruned⟩, reported⟩
  · rintro ⟨rfl, f, g, run, ls, full, cut, parts, rfl⟩
    simp only [prune, Task.bind_eq_ok, Task.lift_eq_ok, Trial.sound_eq_ok, Trial.solve_eq_ok]
    exact ⟨_, _, ⟨parts.permitted, rfl⟩, f, _, ⟨parts.made, rfl⟩, full, _, parts.searched, run, _,
      parts.annealed, ls, _, ⟨parts.guessed, rfl⟩, g, _, ⟨parts.reduced, rfl⟩, cut, _, parts.pruned,
      _, _, Task.check_never _, rfl⟩

theorem PruneParts.drawn (parts : PruneParts c f g run ls full cut) :
    Uniform.Drawn c.n (Uniform.clauseCount c.n c.alpha) f :=
  Trial.Instance.drawn_of_formula parts.made

theorem PruneParts.wellFormed (parts : PruneParts c f g run ls full cut) : f.WellFormed :=
  parts.drawn.wellFormed

theorem PruneParts.selection (parts : PruneParts c f g run ls full cut) :
    (ls.map Literal.var).Pairwise (· < ·) ∧ f.Selection ls ∧ run.bestAssignment.Agrees ls := by
  obtain ⟨counted, size, -⟩ := Trial.Instance.report_of_anneal parts.wellFormed parts.annealed
  have small : f.numVars ≤ maxVar := parts.drawn.numVars ▸ parts.drawn.small
  obtain ⟨ls', guessed, facts⟩ := guess_returns small counted size c.frozenFraction
  cases parts.guessed.symm.trans guessed
  exact facts

private theorem PruneParts.reduced_eq (parts : PruneParts c f g run ls full cut) :
    g = f.restrictAll ls.reverse :=
  Except.ok.inj (parts.reduced.symm.trans (Formula.reduceAll_of_valid parts.selection.2.1.valid))

private theorem PruneParts.reduced_wellFormed (parts : PruneParts c f g run ls full cut) :
    g.WellFormed :=
  parts.reduced_eq ▸ parts.wellFormed.restrictAll ls.reverse

private theorem PruneParts.satisfiable_iff (parts : PruneParts c f g run ls full cut) :
    g.Satisfiable ↔ ∃ a, f.IsModel a ∧ a.Agrees ls := by
  rw [parts.reduced_eq, Formula.satisfiable_restrictAll_iff parts.selection.2.1.reverse]
  simp [Assignment.Agrees]

theorem PruneParts.steps_le (parts : PruneParts c f g run ls full cut) :
    cut.steps ≤ 2 ^ (f.numVars - ls.length + 1) - 1 := by
  have left := Formula.card_vars_restrictAll_le parts.wellFormed parts.selection.2.1.reverse
  rw [← parts.reduced_eq, List.length_reverse] at left
  calc cut.steps ≤ 2 ^ (g.vars.card + 1) - 1 :=
        (Search.steps_le_of_solve parts.reduced_wellFormed parts.pruned).trans (min_le_right _ _)
    _ ≤ 2 ^ (f.numVars - ls.length + 1) - 1 :=
      Nat.sub_le_sub_right (Nat.pow_le_pow_right Nat.zero_lt_two (Nat.succ_le_succ left)) 1

end Parts

section Verdict

variable {before after : ExactSolve} {size : Nat} {reduction : Float} {c : PruneConfig}

private theorem PruneVerdict.misidentified_iff :
    diagnose before after size reduction c = .backboneMisidentified ↔
      before.satisfiable = some true ∧ after.satisfiable = some false := by
  unfold diagnose
  split
  · simp_all
  · split
    · simp_all
    · split <;> simp_all

end Verdict

/-- The verdict on a guess that a satisfiable formula has no model for. Once both searches are
decided, the guess is called misidentified. While the search without it is undecided, the rules on
size and cost alone decide, and they can call the guess prunable. -/
theorem diagnose_destroyed {f g : Formula} {ls : List Literal} {limit : Nat}
    {full cut : Search.Result} {sig sig' : Signal} (wellFormed : f.WellFormed)
    (selection : f.Selection ls) (reduced : f.reduceAll ls = .ok g)
    (searched : Search.solve limit f .never = .ok (full, sig))
    (pruned : Search.solve limit g .never = .ok (cut, sig'))
    (satisfiable : f.Satisfiable) (destroyed : ¬ ∃ m, f.IsModel m ∧ m.Agrees ls)
    (c : PruneConfig) :
    let before := ExactSolve.ofResult full f.numVars
    let after := ExactSolve.ofResult cut (f.numVars - ls.length)
    let reduction := reductionPercent before after
    let verdict := PruneVerdict.diagnose before after ls.length reduction c
    (after.satisfiable = none → verdict = .inconclusive) ∧
      (before.satisfiable ≠ none → after.satisfiable ≠ none →
        verdict = .backboneMisidentified) ∧
      (before.satisfiable = none → after.satisfiable ≠ none →
        verdict = if c.minBackboneSize ≤ ls.length ∧ cut.steps < full.steps ∧
          c.minReductionPercent < reduction then .prunable else .invariantResistant) := by
  intro before after reduction verdict
  obtain rfl := Except.ok.inj (reduced.symm.trans (Formula.reduceAll_of_valid selection.valid))
  have lost : ¬ (f.restrictAll ls.reverse).Satisfiable := fun kept => destroyed <| by
    simpa [Assignment.Agrees] using
      (Formula.satisfiable_restrictAll_iff selection.reverse).mp kept
  have found {b : Bool} (decided : before.satisfiable = some b) : b = true :=
    (Search.satisfiable_iff_of_solve wellFormed searched decided).mp satisfiable
  have refuted {b : Bool} (decided : after.satisfiable = some b) : b ≠ true := fun kept =>
    lost ((Search.satisfiable_iff_of_solve (wellFormed.restrictAll _) pruned decided).mpr kept)
  refine ⟨fun open_ => ?_, fun closed closed' => ?_, fun open_ closed => ?_⟩
  · simp [verdict, PruneVerdict.diagnose, open_]
  · obtain ⟨b, decided⟩ := Option.ne_none_iff_exists'.mp closed
    obtain ⟨b', decided'⟩ := Option.ne_none_iff_exists'.mp closed'
    have lost' : b' = false := Bool.eq_false_iff.mpr (refuted decided')
    exact PruneVerdict.misidentified_iff.mpr
      ⟨found decided ▸ decided, lost' ▸ decided'⟩
  · -- the rule for a misidentified guess asks for a decided search, so that it does not apply
    have steps : after.steps < before.steps ↔ cut.steps < full.steps := Iff.rfl
    simp [verdict, PruneVerdict.diagnose, open_, closed, steps, and_assoc]

/-- A unit clause and a choice. -/
def gate : Formula := ⟨3, [⟨[⟨1⟩]⟩, ⟨[⟨2⟩, ⟨3⟩]⟩]⟩

/-- Two steps do not decide the formula, one step refutes it under a wrong guess, and any loss of
branches above the threshold makes that guess prunable. -/
theorem gate_prunable : gate.WellFormed ∧ gate.Satisfiable ∧
    (¬ ∃ m, gate.IsModel m ∧ m.Agrees [⟨-1⟩]) ∧
    ∃ g full cut, gate.reduceAll [⟨-1⟩] = .ok g ∧
      Search.solve 2 gate .never = .ok (full, .never) ∧
      Search.solve 2 g .never = .ok (cut, .never) ∧
      let before := ExactSolve.ofResult full 3
      let after := ExactSolve.ofResult cut 2
      before.satisfiable = none ∧ after.satisfiable = some false ∧
        ∀ c : PruneConfig, c.minBackboneSize ≤ 1 →
          c.minReductionPercent < reductionPercent before after →
          PruneVerdict.diagnose before after 1 (reductionPercent before after) c = .prunable := by
  have wellFormed : gate.WellFormed := by decide
  have selection : gate.Selection [⟨-1⟩] := by decide
  have satisfiable : gate.Satisfiable := ⟨⟨#[true, true, true]⟩, by decide⟩
  have destroyed : ¬ ∃ m, gate.IsModel m ∧ m.Agrees [⟨-1⟩] := by
    rintro ⟨m, model, agrees⟩
    obtain ⟨l, member, holds⟩ := model.2 ⟨[⟨1⟩]⟩ (by decide)
    obtain rfl := List.mem_singleton.mp member
    exact Assignment.not_satisfies_neg (by decide) holds (agrees ⟨-1⟩ List.mem_cons_self)
  have reduced : gate.reduceAll [⟨-1⟩] = .ok ⟨3, [⟨[]⟩, ⟨[⟨2⟩, ⟨3⟩]⟩]⟩ := by decide
  have searched : Search.solve 2 gate .never = .ok (⟨.inconclusive, 2, 0⟩, .never) := by decide
  have pruned : Search.solve 2 ⟨3, [⟨[]⟩, ⟨[⟨2⟩, ⟨3⟩]⟩]⟩ .never =
      .ok (⟨.unsatisfiable, 1, 1⟩, .never) := by decide
  refine ⟨wellFormed, satisfiable, destroyed, _, _, _, reduced, searched, pruned, rfl, rfl,
    fun c enough gain => ?_⟩
  obtain ⟨-, -, verdict⟩ :=
    diagnose_destroyed wellFormed selection reduced searched pruned satisfiable destroyed c
  exact (verdict rfl nofun).trans (if_pos ⟨enough, by decide, gain⟩)

/-- What a report says about the formula `f` of its instance and the anneal `run` behind its
guess. -/
structure PruneResult.Truthful (r : PruneResult) (c : PruneConfig) (f : Formula)
    (run : Annealing.Run) : Prop where
  made : c.toInstance.formula = .ok f
  annealed : c.toInstance.anneal f c.anneal 0 .never = .ok (run, .never)
  guessed : guess run c.frozenFraction = .ok r.backbone
  ascending : (r.backbone.map Literal.var).Pairwise (· < ·)
  named : ∀ l ∈ r.backbone, 1 ≤ l.var ∧ l.var ≤ c.n
  -- the variables that the guess leaves; their number is a proper difference
  left : r.after.freeVars = c.n - r.backbone.length
  fewer : r.backbone.length ≤ c.n
  decided : ∀ b, r.before.satisfiable = some b → (f.Satisfiable ↔ b = true)
  kept : r.after.satisfiable = some true → ∃ m, f.IsModel m ∧ m.Agrees r.backbone
  destroyed : r.after.satisfiable = some false → ¬ ∃ m, f.IsModel m ∧ m.Agrees r.backbone
  misidentified : r.diagnosis = .backboneMisidentified →
    f.Satisfiable ∧ ¬ ∃ m, f.IsModel m ∧ m.Agrees r.backbone
  solved : run.bestEnergy = 0 →
    r.after.satisfiable ≠ some false ∧ r.diagnosis ≠ .backboneMisidentified
  steps : r.after.steps ≤ 2 ^ (r.after.freeVars + 1) - 1

/-- Whenever a pruning that no signal stops gives a report, the report is truthful. -/
theorem prune_truthful {c : PruneConfig} {r : PruneResult} {sig : Signal}
    (ran : prune c .never = .ok (r, sig)) : ∃ f run, r.Truthful c f run := by
  obtain ⟨rfl, f, g, run, ls, full, cut, parts, rfl⟩ := prune_eq_ok_iff.mp ran
  obtain ⟨ascending, selection, agrees⟩ := parts.selection
  have numVars : f.numVars = c.n := parts.drawn.numVars
  have before {b : Bool} : full.outcome.verdict? = some b → (f.Satisfiable ↔ b = true) :=
    Search.satisfiable_iff_of_solve parts.wellFormed parts.searched
  have after {b : Bool} (verdict : cut.outcome.verdict? = some b) :
      (∃ m, f.IsModel m ∧ m.Agrees ls) ↔ b = true :=
    parts.satisfiable_iff.symm.trans
      (Search.satisfiable_iff_of_solve parts.reduced_wellFormed parts.pruned verdict)
  have destroyed (verdict : cut.outcome.verdict? = some false) :
      ¬ ∃ m, f.IsModel m ∧ m.Agrees ls := fun kept => nomatch (after verdict).mp kept
  have misidentified : (c.report f ls full cut).diagnosis = .backboneMisidentified →
      f.Satisfiable ∧ ¬ ∃ m, f.IsModel m ∧ m.Agrees ls := fun diagnosed =>
    have verdicts := PruneVerdict.misidentified_iff.mp diagnosed
    ⟨(before verdicts.1).mpr rfl, destroyed verdicts.2⟩
  have solved (ground : run.bestEnergy = 0) : ∃ m, f.IsModel m ∧ m.Agrees ls := by
    obtain ⟨-, size, energy⟩ := Trial.Instance.report_of_anneal parts.wellFormed parts.annealed
    rw [ground] at energy
    exact ⟨_, (Formula.isModel_iff_countUnsat parts.wellFormed size).mpr energy, agrees⟩
  exact ⟨f, run,
    { made := parts.made
      annealed := parts.annealed
      guessed := parts.guessed
      ascending
      named := fun l member =>
        ⟨(selection.valid l member).var_pos, numVars ▸ selection.inside l member⟩
      left := by rw [← numVars]; rfl
      fewer := numVars ▸ selection.length_le
      decided := fun _ => before
      kept := fun verdict => (after verdict).mpr rfl
      destroyed
      misidentified
      solved := fun ground => ⟨fun verdict => destroyed verdict (solved ground),
        fun diagnosed => (misidentified diagnosed).2 (solved ground)⟩
      steps := parts.steps_le }⟩

/-- A pruning of an instance of at least three variables with a clause ratio ends with a report
when its schedule and its fraction are in their domains and the step limit is within the word. -/
theorem prune_returns {c : PruneConfig} (enough : 3 ≤ c.n) (small : c.n ≤ maxVar)
    (finite : c.alpha.isFinite = true) (nonnegative : ¬ c.alpha < 0.0)
    (valid : c.anneal.validate = .ok ())
    (permitted : Trial.checkFrozenFraction c.frozenFraction = .ok ())
    (word : c.stepLimit + 1 < wordBound) : ∃ r, prune c .never = .ok (r, .never) := by
  have returns {h : Formula} (wellFormed : h.WellFormed) :
      ∃ found, Search.solve c.stepLimit h .never = .ok (found, .never) :=
    Search.solve_returns wellFormed ((Nat.succ_le_succ (min_le_left ..)).trans_lt word)
  obtain ⟨f, made⟩ := c.toInstance.formula_returns enough small finite nonnegative
  have drawn := Trial.Instance.drawn_of_formula made
  obtain ⟨full, searched⟩ := returns drawn.wellFormed
  obtain ⟨run, annealed⟩ := c.toInstance.anneal_returns drawn.wellFormed valid 0
  obtain ⟨counted, size, -⟩ := Trial.Instance.report_of_anneal drawn.wellFormed annealed
  obtain ⟨ls, guessed, -, selection, -⟩ :=
    guess_returns (drawn.numVars ▸ drawn.small) counted size c.frozenFraction
  have reduced := Formula.reduceAll_of_valid (f := f) selection.valid
  obtain ⟨cut, pruned⟩ := returns (drawn.wellFormed.restrictAll ls.reverse)
  exact ⟨_, prune_eq_ok_iff.mpr ⟨rfl, f, _, run, ls, full, cut,
    ⟨permitted, made, searched, annealed, guessed, reduced, pruned⟩, rfl⟩⟩

/-- The usual pruning ends with a truthful report. -/
theorem usual_prune_truthful : ∃ r sig, prune {} .never = .ok (r, sig) ∧
    ∃ f run, r.Truthful {} f run := by
  obtain ⟨r, ran⟩ := prune_returns (c := {}) (by decide) (by decide) (by decide) (by decide)
    (by rfl) (by rfl) (by decide)
  exact ⟨r, _, ran, prune_truthful ran⟩

end SatLab.Backbone

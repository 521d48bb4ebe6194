import SatLab.Incidence.Correlation
import SatLab.Proofs.Campaign.Quiet
import SatLab.Proofs.Search.Refinement
import SatLab.Proofs.Trial.Instance
/-!
The samples of a correlation. An instance is kept exactly when its backbone is known in full, and
its rigidity then counts the variables that have one value in all models. What is known in full
under one step limit is known under every higher one, so that no sample is lost and none changes.
-/

set_option autoImplicit false
set_option relaxedAutoImplicit false

namespace SatLab.Incidence

open Trial (Instance)
open Search (BackboneReport backbone)

def GapConfig.instanceAt (c : GapConfig) (index : Nat) : Instance :=
  (⟨c.n, c.alpha, c.seed⟩ : Instance).nth index.toUInt64

/-- What a numbered instance gives: a sample when its backbone is known in full, nothing when its
search or that of one of its variables was cut short, or when it has no model. -/
inductive GapConfig.Yields (c : GapConfig) (index : Nat) : Option GapSample → Prop
  | dropped {f : Formula} {report : BackboneReport} (made : (c.instanceAt index).formula = .ok f)
      (reported : backbone c.stepLimit f .never = .ok (report, .never))
      (unresolved : ¬ report.Resolved) : Yields c index none
  | kept {f : Formula} {report : BackboneReport} {graph : Graph} {gap : SpectralGap}
      (made : (c.instanceAt index).formula = .ok f)
      (reported : backbone c.stepLimit f .never = .ok (report, .never))
      (resolved : report.Resolved) (built : Graph.ofFormula f = .ok graph)
      (measured : spectralGap graph c.solver = .ok gap) :
      Yields c index (some ⟨index, toReal report.frozen.length / toReal c.n, gap⟩)

section Sample

variable {c : GapConfig} {index : Nat} {sample : Option GapSample} {s : GapSample} {sig : Signal}

private theorem refused_iff {report : BackboneReport} :
    (decide (report.satisfiable ≠ some true) || !report.undetermined.isEmpty) = true ↔
      ¬ report.Resolved := by
  rw [Bool.or_eq_true, decide_eq_true_iff, Bool.not_eq_true', ← Bool.not_eq_true,
    List.isEmpty_iff, ← not_and_or, not_iff_not]
  exact ⟨fun r => ⟨r.1, r.2⟩, fun r => ⟨r.satisfiable, r.determined⟩⟩

private theorem sampleGap_eq_ok_iff :
    sampleGap c index .never = .ok (sample, .never) ↔ c.Yields index sample := by
  constructor
  · intro ran
    obtain ⟨f, _, made, ran⟩ := Task.bind_eq_ok.mp ran
    obtain ⟨made, rfl⟩ := Task.lift_eq_ok.mp made
    obtain ⟨report, _, reported, ran⟩ := Task.bind_eq_ok.mp ran
    have reported := Task.mapError_eq_ok.mp reported
    obtain rfl := (Search.backbone_quiet c.stepLimit f).signal_eq reported
    split at ran
    · rename_i refused
      cases ran
      exact .dropped made reported (refused_iff.mp refused)
    · rename_i accepted
      obtain ⟨graph, _, built, ran⟩ := Task.bind_eq_ok.mp ran
      obtain ⟨built, rfl⟩ := Trial.sound_eq_ok.mp built
      obtain ⟨gap, _, measured, ran⟩ := Task.bind_eq_ok.mp ran
      obtain ⟨measured, rfl⟩ := Task.lift_eq_ok.mp measured
      cases ran
      exact .kept made reported (not_not.mp (mt refused_iff.mpr accepted)) built measured
  · intro yields
    cases yields with
    | @dropped f report made reported unresolved =>
      refine Task.bind_eq_ok.mpr ⟨f, .never, Task.lift_eq_ok.mpr ⟨made, rfl⟩, ?_⟩
      refine Task.bind_eq_ok.mpr ⟨report, .never, Task.mapError_eq_ok.mpr reported, ?_⟩
      rw [if_pos (refused_iff.mpr unresolved)]
      rfl
    | @kept f report graph gap made reported resolved built measured =>
      refine Task.bind_eq_ok.mpr ⟨f, .never, Task.lift_eq_ok.mpr ⟨made, rfl⟩, ?_⟩
      refine Task.bind_eq_ok.mpr ⟨report, .never, Task.mapError_eq_ok.mpr reported, ?_⟩
      rw [if_neg (mt refused_iff.mp (not_not.mpr resolved))]
      refine Task.bind_eq_ok.mpr ⟨graph, .never, Trial.sound_eq_ok.mpr ⟨built, rfl⟩, ?_⟩
      exact Task.bind_eq_ok.mpr ⟨gap, .never, Task.lift_eq_ok.mpr ⟨measured, rfl⟩, rfl⟩

/-- The sample that a numbered instance gives, if it gives one. -/
def GapConfig.sampleAt? (c : GapConfig) (index : Nat) : Option GapSample :=
  ((sampleGap c index).answer .never).toOption.join

private theorem sampleAt?_eq_some_iff : c.sampleAt? index = some s ↔ c.Yields index (some s) := by
  rw [← sampleGap_eq_ok_iff, ← (sampleGap_quiet c index).answer_eq_ok_iff, GapConfig.sampleAt?]
  cases (sampleGap c index).answer .never <;> simp [Except.toOption]

private theorem GapConfig.Yields.index_eq (yields : c.Yields index (some s)) : s.index = index := by
  cases yields
  rfl

theorem GapConfig.Yields.of_le {upper : Nat} (le : c.stepLimit ≤ upper)
    (yields : c.Yields index (some s)) : { c with stepLimit := upper }.Yields index (some s) := by
  cases yields with
  | kept made reported resolved built measured =>
    have drawn := Instance.drawn_of_formula made
    have again := Search.backbone_of_le drawn.wellFormed le reported
      (by simp [resolved.satisfiable])
      (BackboneReport.undetermined_eq_nil_iff.mp resolved.determined)
    exact .kept made again resolved built measured

/-- The rigidity of a sample is that of its formula: the share of the variables that have one value
in all models. -/
theorem GapConfig.Yields.parts (yields : c.Yields index (some s)) :
    ∃ f report graph, (c.instanceAt index).formula = .ok f ∧
      backbone c.stepLimit f .never = .ok (report, .never) ∧ report.Resolved ∧
      report.frozen.length = f.constants.ncard ∧
      s.rigidity = toReal report.frozen.length / toReal c.n ∧
      Graph.ofFormula f = .ok graph ∧ spectralGap graph c.solver = .ok s.gap := by
  cases yields with
  | @kept f report graph gap made reported resolved built measured =>
    have drawn := Instance.drawn_of_formula made
    have small := drawn.numVars ▸ drawn.small
    have reports := Search.reports_of_backbone drawn.wellFormed reported
    have counted := reports.length_frozen drawn.wellFormed small resolved
    exact ⟨f, report, graph, made, reported, resolved, counted, rfl, built, measured⟩

end Sample

section Samples

variable {c : GapConfig} {r : GapResult} {sig : Signal}

theorem found_of_correlateGap {sig' : Signal} (ran : correlateGap c sig = .ok (r, sig')) :
    ∃ found, (List.range c.samples).mapM (sampleGap c) sig = .ok (found, sig') ∧
      r.samples = found.filterMap id := by
  unfold correlateGap at ran
  split at ran
  · cases ran
  · obtain ⟨found, _, examined, ran⟩ := Task.bind_eq_ok.mp ran
    cases ran
    exact ⟨found, examined, rfl⟩

private theorem samples_of_correlateGap (ran : correlateGap c .never = .ok (r, sig)) :
    (∀ i < c.samples, ∃ sample, c.Yields i sample) ∧
      r.samples = (List.range c.samples).filterMap c.sampleAt? := by
  obtain ⟨as, examined, kept⟩ := found_of_correlateGap ran
  obtain rfl := (Task.quiet_mapM (sampleGap_quiet c)).signal_eq examined
  have answers := (Task.mapM_eq_ok_iff (sampleGap_quiet c)).mp examined
  constructor
  · intro i inside
    have member : (sampleGap c i).answer .never ∈ as.map .ok :=
      answers ▸ List.mem_map_of_mem (List.mem_range.mpr inside)
    obtain ⟨sample, -, given⟩ := List.mem_map.mp member
    exact ⟨sample, sampleGap_eq_ok_iff.mp ((sampleGap_quiet c i).answer_eq_ok_iff.mp given.symm)⟩
  · calc r.samples
        = (as.map .ok).filterMap fun a : Except Trial.Error _ => a.toOption.join := by
          rw [kept, List.filterMap_map]
          rfl
      _ = (List.range c.samples).filterMap c.sampleAt? := by
          rw [← answers, List.filterMap_map]
          rfl

private theorem mem_samples_iff (ran : correlateGap c .never = .ok (r, sig)) {s : GapSample} :
    s ∈ r.samples ↔ s.index < c.samples ∧ c.Yields s.index (some s) := by
  rw [(samples_of_correlateGap ran).2, List.mem_filterMap]
  constructor
  · rintro ⟨i, member, given⟩
    have yields := sampleAt?_eq_some_iff.mp given
    rw [yields.index_eq]
    exact ⟨List.mem_range.mp member, yields⟩
  · rintro ⟨inside, yields⟩
    exact ⟨s.index, List.mem_range.mpr inside, sampleAt?_eq_some_iff.mpr yields⟩

private theorem pairwise_samples (ran : correlateGap c .never = .ok (r, sig)) :
    r.samples.Pairwise fun s s' => s.index < s'.index := by
  rw [(samples_of_correlateGap ran).2]
  apply List.pairwise_lt_range.filterMap
  intro i j before s given s' given'
  have index := (sampleAt?_eq_some_iff.mp given).index_eq
  have index' := (sampleAt?_eq_some_iff.mp given').index_eq
  rwa [index, index']

private theorem kept_iff (ran : correlateGap c .never = .ok (r, sig)) {i : Nat} :
    i ∈ r.samples.map GapSample.index ↔ i < c.samples ∧
      ∃ f report, (c.instanceAt i).formula = .ok f ∧
        backbone c.stepLimit f .never = .ok (report, .never) ∧ report.Resolved := by
  rw [List.mem_map]
  constructor
  · rintro ⟨s, member, rfl⟩
    obtain ⟨inside, yields⟩ := (mem_samples_iff ran).mp member
    obtain ⟨f, report, -, made, reported, resolved, -⟩ := yields.parts
    exact ⟨inside, f, report, made, reported, resolved⟩
  · rintro ⟨inside, f, report, made, reported, resolved⟩
    obtain ⟨sample, yields⟩ := (samples_of_correlateGap ran).1 i inside
    cases yields with
    | dropped made' reported' unresolved =>
      cases made.symm.trans made'
      cases reported.symm.trans reported'
      exact absurd resolved unresolved
    | kept made' reported' resolved' built measured =>
      exact ⟨⟨i, _, _⟩, (mem_samples_iff ran).mpr
        ⟨inside, .kept made' reported' resolved' built measured⟩, rfl⟩

/-- The samples of a correlation that ends. In ascending order they are the instances with a model
and a backbone that is known in full. The rigidity of a sample divides by the number of variables
how many of them have one value in all models of its formula. Under a higher step limit every sample
is there again as it is. -/
theorem correlation_samples (ran : correlateGap c .never = .ok (r, sig)) :
    (r.samples.Pairwise fun s s' => s.index < s'.index) ∧
      (∀ i, i ∈ r.samples.map GapSample.index ↔ i < c.samples ∧
        ∃ f report, (c.instanceAt i).formula = .ok f ∧
          backbone c.stepLimit f .never = .ok (report, .never) ∧ report.Resolved) ∧
      (∀ s ∈ r.samples, ∃ f report graph, (c.instanceAt s.index).formula = .ok f ∧
        backbone c.stepLimit f .never = .ok (report, .never) ∧ report.Resolved ∧
        report.frozen.length = f.constants.ncard ∧
        s.rigidity = toReal report.frozen.length / toReal c.n ∧
        Graph.ofFormula f = .ok graph ∧ spectralGap graph c.solver = .ok s.gap) ∧
      ∀ upper, c.stepLimit ≤ upper → ∀ r' sig',
        correlateGap { c with stepLimit := upper } .never = .ok (r', sig') →
          r.samples ⊆ r'.samples := by
  refine ⟨pairwise_samples ran, fun i => kept_iff ran, fun s member => ?_, ?_⟩
  · obtain ⟨-, yields⟩ := (mem_samples_iff ran).mp member
    exact yields.parts
  · intro upper le r' sig' ran' s member
    obtain ⟨inside, yields⟩ := (mem_samples_iff ran).mp member
    exact (mem_samples_iff ran').mpr ⟨inside, yields.of_le le⟩

end Samples

/-- Two formulas of six clauses over three variables, with five steps for each search. -/
def tightGap : GapConfig :=
  { n := 3, alpha := 2.0, samples := 2, stepLimit := 5, solver := { maxIterations := 1 } }

/-- Five steps cut a search over the first formula short, so that only the other one is kept. With
six steps both are kept, the one that was kept before as it was, and one variable of the first
formula has one value in all models. -/
theorem tightGap_samples : ∃ r, correlateGap tightGap .never = .ok (r, .never) ∧
    r.samples.map GapSample.index = [1] ∧ tightGap.stepLimit ≤ 6 ∧
    ∃ r', correlateGap { tightGap with stepLimit := 6 } .never = .ok (r', .never) ∧
      r'.samples.map GapSample.index = [0, 1] ∧ r.samples ⊆ r'.samples ∧
      ∃ f, (tightGap.instanceAt 0).formula = .ok f ∧ f.constants.ncard = 1 := by
  have five : ((correlateGap tightGap .never).toOption.map fun p =>
      (p.1.samples.map GapSample.index, p.2)) = some ([1], .never) := by
    decide +kernel
  have six : ((correlateGap { tightGap with stepLimit := 6 } .never).toOption.map fun p =>
      (p.1.samples.map GapSample.index, p.2)) = some ([0, 1], .never) := by
    decide +kernel
  have frozen : ((tightGap.instanceAt 0).formula.toOption.bind fun f =>
      (backbone 6 f .never).toOption.map fun p => p.1.frozen.length) = some 1 := by
    decide +kernel
  obtain ⟨⟨r, sig⟩, ran, kept⟩ := Option.map_eq_some_iff.mp five
  obtain ⟨⟨r', sig'⟩, ran', kept'⟩ := Option.map_eq_some_iff.mp six
  obtain ⟨kept, rfl⟩ := Prod.mk.inj kept
  obtain ⟨kept', rfl⟩ := Prod.mk.inj kept'
  have more : tightGap.stepLimit ≤ 6 := by decide
  obtain ⟨-, -, -, again⟩ := correlation_samples (ok_of_toOption ran)
  obtain ⟨-, -, samples, -⟩ := correlation_samples (ok_of_toOption ran')
  refine ⟨r, ok_of_toOption ran, kept, more, r', ok_of_toOption ran', kept',
    again 6 more r' _ (ok_of_toOption ran'), ?_⟩
  have first : 0 ∈ r'.samples.map GapSample.index := by
    rw [kept']
    exact List.mem_cons_self
  obtain ⟨s, member, index⟩ := List.mem_map.mp first
  obtain ⟨f, report, -, made, reported, -, counted, -⟩ := samples s member
  rw [index] at made
  have made : (tightGap.instanceAt 0).formula = .ok f := made
  have reported : backbone 6 f .never = .ok (report, .never) := reported
  rw [made, Except.toOption, Option.bind_some, reported] at frozen
  exact ⟨f, made, counted.symm.trans (Option.some.inj frozen)⟩

end SatLab.Incidence

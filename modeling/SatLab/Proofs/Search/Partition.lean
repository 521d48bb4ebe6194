import SatLab.Proofs.Cnf.Agreement
import SatLab.Proofs.Search.Verdict
/-!
The stack of the search as a partition of the search space that is still open. The frames share out
the models, each frame is the formula reduced by its trail, and the stack is never higher than the
number of variables that occur and one: every frame has at most as many frames below it as its
trail has literals.
-/

set_option autoImplicit false
set_option relaxedAutoImplicit false

namespace SatLab.Search

section Trail

variable {f : Formula} {trail : List Literal}

theorem Proper.length_le (proper : Proper f trail) : trail.length ≤ f.vars.card := by
  have named : (trail.map Literal.var).toFinset ⊆ f.vars := by
    intro v member
    obtain ⟨l, asserted, rfl⟩ := List.mem_map.mp (List.mem_toFinset.mp member)
    exact (proper.occurs l asserted).2
  have few := Finset.card_le_card named
  rwa [List.toFinset_card_of_nodup proper.distinct, List.length_map] at few

private theorem Proper.reduceAll_eq (proper : Proper f trail) :
    f.reduceAll trail.reverse = .ok (f.restrictAll trail) := by
  have valid : ∀ l ∈ trail.reverse, l.Valid := by
    intro l member
    exact (proper.occurs l (List.mem_reverse.mp member)).1
  rw [Formula.reduceAll_of_valid valid, List.reverse_reverse]

end Trail

/-- Every frame has at most as many frames below it as its trail has literals. -/
def Tapered : List Frame → Prop
  | [] => True
  | fr :: rest => rest.length ≤ fr.trail.length ∧ Tapered rest

private theorem State.tapered_of_advance {f : Formula} {s s' : State} {fr : Frame}
    {rest : List Frame}
    (tapered : Tapered (fr :: rest)) (advanced : s.advance f fr rest = .inl s') :
    Tapered s'.stack := by
  obtain ⟨few, below⟩ := tapered
  rcases advance_cases advanced with ⟨-, rfl⟩ | ⟨l, -, rfl⟩ | ⟨l, -, rfl⟩
  · exact below
  · exact ⟨few.trans (Nat.le_succ _), below⟩
  · -- The first of the two frames has one frame more below it and one literal more on its trail.
    exact ⟨Nat.succ_le_succ few, few.trans (Nat.le_succ _), below⟩

private theorem Reaches.tapered {f : Formula} {s : State} (wellFormed : f.WellFormed)
    (reach : Reaches f s) : Tapered s.stack := by
  induction reach with
  | start => exact ⟨Nat.le_refl 0, trivial⟩
  | step reach next stepped ih =>
    have sound := reach.sound wellFormed _ (next ▸ List.mem_cons_self)
    rw [State.step_of_sound wellFormed sound] at stepped
    rw [next] at ih
    exact State.tapered_of_advance ih (Except.ok.inj stepped)

theorem Reaches.length_le {f : Formula} {s : State} (wellFormed : f.WellFormed)
    (reach : Reaches f s) : s.stack.length ≤ f.vars.card + 1 := by
  have tapered := reach.tapered wellFormed
  cases stack : s.stack with
  | nil => exact Nat.zero_le _
  | cons fr rest =>
    have sound := reach.sound wellFormed fr (stack ▸ List.mem_cons_self)
    rw [stack] at tapered
    exact Nat.succ_le_succ (tapered.1.trans sound.proper.length_le)

/-- A stack that partitions the search space of a formula as far as it is still open. -/
structure Partition (f : Formula) (stack : List Frame) : Prop where
  -- a frame is the formula reduced by its trail, whose last literal was asserted first
  reduced : ∀ fr ∈ stack, ∃ g, fr.formula = .ok g ∧ f.reduceAll fr.trail.reverse = .ok g
  distinct : ∀ fr ∈ stack, (fr.trail.map Literal.var).Nodup
  occurs : ∀ fr ∈ stack, ∀ l ∈ fr.trail, l.var ∈ f.vars
  -- every model agrees with the trail of exactly one frame
  shared : ∀ a, f.IsModel a → covering a stack = 1
  height : stack.length ≤ f.vars.card + 1

/-- In every state that the search for a model of a well-formed formula passes through, the stack
partitions the open search space, and it is at most one frame higher than the number of variables
that occur. -/
theorem stack_partitions {f : Formula} {s : State} (wellFormed : f.WellFormed)
    (reach : Reaches f s) : Partition f s.stack where
  reduced fr member := by
    have sound := reach.sound wellFormed fr member
    exact ⟨f.restrictAll fr.trail, sound.formula, sound.proper.reduceAll_eq⟩
  distinct fr member := (reach.sound wellFormed fr member).proper.distinct
  occurs fr member l asserted := ((reach.sound wellFormed fr member).proper.occurs l asserted).2
  shared a model := reach.covering_eq_one wellFormed model
  height := reach.length_le wellFormed

/-- Two clauses of one literal each, repeated so that neither is a unit clause. -/
def doubledUnits : Formula := ⟨2, [⟨[⟨1⟩, ⟨1⟩]⟩, ⟨[⟨2⟩, ⟨2⟩]⟩]⟩

def doubledUnitsSplit : State where
  stack := [⟨⟨2, [⟨[⟨2⟩, ⟨2⟩]⟩]⟩, some ⟨2⟩, [⟨2⟩, ⟨1⟩]⟩,
    ⟨⟨2, [⟨[⟨2⟩, ⟨2⟩]⟩]⟩, some ⟨-2⟩, [⟨-2⟩, ⟨1⟩]⟩, ⟨doubledUnits, some ⟨-1⟩, [⟨-1⟩]⟩]
  steps := 2
  backtracks := 0

/-- The height is attained, and the one model is shared out to the frame on top. -/
theorem doubledUnits_partition : doubledUnits.WellFormed ∧
    Reaches doubledUnits doubledUnitsSplit ∧ Partition doubledUnits doubledUnitsSplit.stack ∧
    doubledUnitsSplit.stack.length = doubledUnits.vars.card + 1 ∧
    doubledUnits.IsModel ⟨#[true, true]⟩ := by
  have wellFormed : doubledUnits.WellFormed := by decide
  have reach : Reaches doubledUnits doubledUnitsSplit := .step (.step .start rfl rfl) rfl rfl
  exact ⟨wellFormed, reach, stack_partitions wellFormed reach, by decide, by decide⟩

end SatLab.Search

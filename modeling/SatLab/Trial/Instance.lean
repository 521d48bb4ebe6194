import SatLab.Annealing.Run
import SatLab.Search.Stack
import SatLab.Trial.Error
/-!
Random instances given by size, clause ratio and seed. From the seed of an instance come
its formula, the seeds of further instances, and the seeds of the searches on it; the
latter are `2^48` places apart, so that they do not meet the former.
-/

set_option autoImplicit false
set_option relaxedAutoImplicit false

namespace SatLab.Trial

open SatLab.Uniform (Seed deriveSeed)

/-- A random instance, whose formula is drawn from its seed. -/
structure Instance where
  n : Nat
  alpha : Float
  seed : Seed

namespace Instance

/-- The instance of the same size and clause ratio with a numbered seed. -/
def nth (i : Instance) (index : Seed) : Instance := { i with seed := deriveSeed i.seed index }

def formula (i : Instance) : Except Error Formula :=
  (Uniform.ofSeed i.n i.alpha i.seed).mapError .core

def searchSeed (i : Instance) (stream : Seed) : Seed :=
  deriveSeed i.seed ((stream + 1) <<< 48)

def searchSource (i : Instance) (stream : Seed) : Random.KeyStream :=
  .ofSeed (i.searchSeed stream)

/-- Anneals a formula with the random source of a numbered search. -/
def anneal (i : Instance) (f : Formula) (schedule : Annealing.Schedule) (stream : Seed) :
    Task Error Annealing.Run :=
  Task.mapError .core do
    return (← Annealing.anneal f schedule (i.searchSource stream)).1

end Instance

def solve (limit : Nat) (f : Formula) : Task Error Search.Result :=
  Task.mapError .ofFault (Search.solve limit f)

/-- The share of the steps up to which a variable that was turned over counts as frozen. -/
def usualFrozenFraction : Float := 0.005

def checkFrozenFraction (value : Float) : Except Error Unit :=
  if 0.0 ≤ value && value ≤ 1.0 then .ok () else .error (.rejected (.frozenFraction value))

/-- The parameters of an instance are written in order, all of them. -/
instance : Json.Codec Instance := Json.Record.codec
  { base := ⟨0, 0.0, 0⟩
    hasDefaults := false
    fields :=
      [ .of "n" Instance.n fun v s => { s with n := v },
        .of "alpha" Instance.alpha fun v s => { s with alpha := v },
        .of "seed" Instance.seed fun v s => { s with seed := v } ] }

end SatLab.Trial

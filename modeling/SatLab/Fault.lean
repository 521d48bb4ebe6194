/-!
Faults are the places where a computation has no answer at all: a look-up beyond a
table, a number outside its machine word, a table too large to lay out. They are kept
apart from errors, which are answers about the input.

That a table is too large is told where its length is a parameter of its own: the grid of
clause ratios and the padding of a history. The clauses of a drawn formula, the tally of the
branching rule and the nodes of an incidence graph are taken to fit.
-/

set_option autoImplicit false
set_option relaxedAutoImplicit false

namespace SatLab

/-- Why a computation broke off without an answer. -/
inductive Fault
  | outOfRange
  | overflow
  | oversized
  deriving DecidableEq, Repr

end SatLab

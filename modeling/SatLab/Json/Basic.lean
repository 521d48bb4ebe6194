/-!
JSON values. Whole numbers and other numbers are kept apart, because a field of whole
numbers accepts only the first kind. Entries of an object keep their order and their
repetitions: what a repeated key means is for the reader of the object to say.
-/

set_option autoImplicit false
set_option relaxedAutoImplicit false

namespace SatLab

/-- A JSON value. A text with an unpaired surrogate names no string; it is kept as `none`,
so that a reader that passes over the value need not refuse it. -/
inductive Json
  | null
  | bool (b : Bool)
  | whole (i : Int)
  | real (x : Float)
  | text (s : Option String)
  | list (items : List Json)
  | object (entries : List (Option String × Json))
  deriving Inhabited

namespace Json

def string (s : String) : Json :=
  .text (some s)

def fields (entries : List (String × Json)) : Json :=
  .object (entries.map fun e => (some e.1, e.2))

def count (n : Nat) : Json :=
  .whole (n : Int)

/-- The last value written under a key. -/
def get? (key : String) : Json → Option Json
  | .object entries => (entries.reverse.find? fun e => e.1 == some key).map Prod.snd
  | _ => none

end Json

end SatLab

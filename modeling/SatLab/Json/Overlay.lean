import SatLab.Json.Basic
/-!
Laying one JSON value over another: objects are joined key by key, anything else is
replaced.
-/

set_option autoImplicit false
set_option relaxedAutoImplicit false

namespace SatLab.Json

mutual

/-- Lays `top` over `base`. -/
def overlay (base top : Json) : Json :=
  match base, top with
  | .object entries, .object changes => .object (overlayAll entries changes)
  | _, top => top
termination_by (sizeOf top, 0)

/-- Lays each of the changes over the entry with its key, or adds it. -/
def overlayAll (entries : List (Option String × Json)) :
    List (Option String × Json) → List (Option String × Json)
  | [] => entries
  | (key, value) :: changes =>
    let entries :=
      if entries.any fun e => e.1 == key then
        entries.map fun e => if e.1 == key then (e.1, overlay e.2 value) else e
      else entries ++ [(key, value)]
    overlayAll entries changes
termination_by changes => (sizeOf changes, 0)

end

end SatLab.Json

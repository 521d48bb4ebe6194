import SatLab.Json.Token
/-!
Reading JSON text. The values that are still open stand on a stack, so nesting is limited
by memory only and every token is looked at once.
-/

set_option autoImplicit false
set_option relaxedAutoImplicit false

namespace SatLab.Json

/-- A list or object whose end has not been read; the parts so far, last first. -/
inductive Open
  | list (items : List Json)
  | object (entries : List (Option String × Json)) (key : Option String)

inductive Expect
  -- a value; right behind an opening bracket its closing bracket too
  | value (orClose : Bool)
  -- a key; right behind an opening brace its closing brace too
  | key (entries : List (Option String × Json)) (orClose : Bool)
  | colon (entries : List (Option String × Json)) (key : Option String)
  | more (value : Json)

/-- Reads one token. The stack holds what is open around the place described by `Expect`. -/
def Expect.step (stack : List Open) : Expect → Token → Option (List Open × Expect)
  | .value _, .scalar v => some (stack, .more v)
  | .value _, .beginList => some (.list [] :: stack, .value true)
  | .value _, .beginObject => some (stack, .key [] true)
  | .value true, .endList => match stack with
    | .list [] :: stack => some (stack, .more (.list []))
    | _ => none
  | .key entries _, .scalar (.text k) => some (stack, .colon entries k)
  | .key [] true, .endObject => some (stack, .more (.object []))
  | .colon entries k, .colon => some (.object entries k :: stack, .value false)
  | .more v, .comma => match stack with
    | .list items :: stack => some (.list (v :: items) :: stack, .value false)
    | .object entries k :: stack => some (stack, .key ((k, v) :: entries) false)
    | [] => none
  | .more v, .endList => match stack with
    | .list items :: stack => some (stack, .more (.list (v :: items).reverse))
    | _ => none
  | .more v, .endObject => match stack with
    | .object entries k :: stack => some (stack, .more (.object ((k, v) :: entries).reverse))
    | _ => none
  | _, _ => none

def readFrom (stack : List Open) (expect : Expect) : List Token → Option Json
  | [] => match stack, expect with
    | [], .more v => some v
    | _, _ => none
  | t :: ts => do
    let (stack, expect) ← expect.step stack t
    readFrom stack expect ts

def parse? (text : String) : Option Json := do
  readFrom [] (.value false) (← tokens? text.toList)

end SatLab.Json

import SatLab.Json.Basic
import SatLab.Word
/-!
Typed values as JSON. Fieldless cases are written as their names; a value without parts
that is written as an object with its name as the only key and `null` behind it is read too.
-/

set_option autoImplicit false
set_option relaxedAutoImplicit false

namespace SatLab.Json

class Codec (α : Type) where
  encode : α → Json
  decode : Json → Option α
  absent : Option α := none

export Codec (encode decode)

/-- Whole numbers of a machine word without sign, below `bound`. -/
@[reducible] def Codec.below (bound : Nat) : Codec Nat where
  encode := Json.count
  decode
    | .whole i => if 0 ≤ i ∧ i < (bound : Int) then some i.toNat else none
    | _ => none

instance : Codec Nat := Codec.below wordBound

instance : Codec UInt64 where
  encode w := Json.count w.toNat
  decode j := ((Codec.below wordBound).decode j).map Nat.toUInt64

@[reducible] def Codec.variable : Codec Nat := Codec.below 0x100000000

instance : Codec Bool where
  encode := Json.bool
  decode
    | .bool b => some b
    | _ => none

instance : Codec String where
  encode := Json.string
  decode
    | .text s => s
    | _ => none

/-- Numbers of either kind are read as doubles; one beyond their range is refused. -/
instance : Codec Float where
  encode := Json.real
  decode
    | .whole i => some (if i < 0 then -(toReal i.natAbs) else toReal i.natAbs)
    | .real x => if x.isFinite then some x else none
    | _ => none

@[reducible] def Codec.listOf {α : Type} (c : Codec α) : Codec (List α) where
  encode xs := .list (xs.map c.encode)
  decode
    | .list items => items.mapM c.decode
    | _ => none

instance {α : Type} [c : Codec α] : Codec (List α) := Codec.listOf c

instance {α : Type} [c : Codec α] : Codec (Array α) where
  encode xs := .list (xs.toList.map c.encode)
  decode j := ((Codec.listOf c).decode j).map List.toArray

/-- Values that may be missing: missing is `null` or no field at all. -/
instance {α : Type} [c : Codec α] : Codec (Option α) where
  encode
    | none => .null
    | some a => c.encode a
  decode
    | .null => some none
    | j => (c.decode j).map some
  absent := some none

/-- The case name and the part of a value that is written as a name or as an object with
the name as its only key. -/
def caseOf? : Json → Option (String × Option Json)
  | .text (some name) => some (name, none)
  | .object [(some name, part)] => some (name, some part)
  | _ => none

@[reducible] def Codec.ofNames {α : Type} (name : α → String) (all : List α) : Codec α where
  encode a := .string (name a)
  decode j := do
    match ← caseOf? j with
    | (n, none) | (n, some .null) => all.find? fun a => name a == n
    | _ => none

end SatLab.Json

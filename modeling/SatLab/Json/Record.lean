import SatLab.Json.Codec
/-!
Records as JSON objects. Unknown keys are passed over and a known key may stand only once.
A record either takes every missing field from its defaults or demands them all. A list in
place of an object holds the fields in order.
-/

set_option autoImplicit false
set_option relaxedAutoImplicit false

namespace SatLab.Json

/-- One field of a record of type `S`. -/
structure Field (S : Type) where
  name : String
  encode : S → Json
  store : Json → S → Option S
  -- the record with the field left out, when that is allowed everywhere
  leaveOut : S → Option S

def Field.of {S α : Type} [c : Codec α] (name : String) (get : S → α) (set : α → S → S) :
    Field S where
  name := name
  encode s := c.encode (get s)
  store j s := (c.decode j).map (set · s)
  leaveOut s := c.absent.map (set · s)

def Field.variables {S : Type} (name : String) (get : S → List Nat)
    (set : List Nat → S → S) : Field S :=
  @Field.of S (List Nat) (.listOf .variable) name get set

/-- A record type: the value that reading starts from, and its fields in order. -/
structure Record (S : Type) where
  base : S
  hasDefaults : Bool
  fields : List (Field S)

namespace Record

def encode {S : Type} (r : Record S) (s : S) : Json :=
  Json.fields (r.fields.map fun f => (f.name, f.encode s))

/-- Stores one entry of an object; the names stored so far stand in `seen`. -/
def storeEntry {S : Type} (r : Record S) (state : S × List String)
    (entry : Option String × Json) : Option (S × List String) := do
  let key ← entry.1
  match r.fields.find? fun f => f.name == key with
  | none => return state
  | some f =>
    if state.2.contains key then none
    return (← f.store entry.2 state.1, key :: state.2)

/-- Leaves out the fields that have not been stored, if that is allowed. -/
def leaveRest {S : Type} (r : Record S) (state : S × List String) : Option S :=
  r.fields.foldlM (fun s f =>
    if r.hasDefaults || state.2.contains f.name then some s else f.leaveOut s) state.1

def storeAll {S : Type} (r : Record S) : List (Field S) → List Json → S → Option S
  | [], [], s => some s
  | [], _ :: _, _ => none
  | _ :: _, [], s => if r.hasDefaults then some s else none
  | f :: fs, j :: js, s => do storeAll r fs js (← f.store j s)

def decode {S : Type} (r : Record S) : Json → Option S
  | .object entries => do r.leaveRest (← entries.foldlM r.storeEntry (r.base, []))
  | .list items => r.storeAll r.fields items r.base
  | _ => none

@[reducible] def codec {S : Type} (r : Record S) : Codec S where
  encode := r.encode
  decode := r.decode

end Record

end SatLab.Json

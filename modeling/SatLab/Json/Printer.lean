import SatLab.Json.Basic
import SatLab.Decimal.Text
/-!
Writing JSON text, on one line or on indented lines: two spaces a level, one entry a line,
nothing between the brackets of an empty list or object.
-/

set_option autoImplicit false
set_option relaxedAutoImplicit false

namespace SatLab.Json

open SatLab.Text (digits signedDigits)

/-- Numbers are written with the fewest digits that read back, positionally from `1e-5`
to `1e16` and with at least one digit behind the point, otherwise with a signed exponent. -/
def numberLayout : Decimal.Layout where
  plainFrom := -5
  plainBelow := 16
  pointZero := true
  tie := .toEven

def hexDigit (d : Nat) : Char :=
  if d < 10 then Char.ofNat (48 + d) else Char.ofNat (87 + d)

/-- One character of a string literal. Quotes, backslashes and control characters are escaped. -/
def quotedChar (c : Char) : List Char :=
  match c with
  | '"' => ['\\', '"']
  | '\\' => ['\\', '\\']
  | '\n' => ['\\', 'n']
  | '\r' => ['\\', 'r']
  | '\t' => ['\\', 't']
  | '\x08' => ['\\', 'b']
  | '\x0c' => ['\\', 'f']
  | c =>
    if c.toNat < 0x20 then
      ['\\', 'u', '0', '0', hexDigit (c.toNat / 16), hexDigit (c.toNat % 16)]
    else [c]

def quote (s : String) : String :=
  "\"" ++ String.ofList (s.toList.flatMap quotedChar) ++ "\""

/-- A value without parts. Numbers that are not finite have no JSON form and become `null`. -/
def scalarText : Json → String
  | .bool true => "true"
  | .bool false => "false"
  | .whole i => String.ofList (signedDigits i)
  | .real x => if x.isFinite then numberLayout.render x else "null"
  | .text (some s) => quote s
  | _ => "null"

def lineBreak (depth : Nat) : String :=
  "\n" ++ String.ofList (List.replicate (2 * depth) ' ')

mutual

def prettyAt (depth : Nat) (out : String) : Json → String
  | .list [] => out ++ "[]"
  | .list items => prettyItems (depth + 1) true (out ++ "[") items ++ lineBreak depth ++ "]"
  | .object [] => out ++ "\x7b\x7d"
  | .object entries =>
    prettyEntries (depth + 1) true (out ++ "\x7b") entries ++ lineBreak depth ++ "\x7d"
  | j => out ++ scalarText j

def prettyItems (depth : Nat) (first : Bool) (out : String) : List Json → String
  | [] => out
  | j :: js =>
    let out := (if first then out else out ++ ",") ++ lineBreak depth
    prettyItems depth false (prettyAt depth out j) js

def prettyEntries (depth : Nat) (first : Bool) (out : String) :
    List (Option String × Json) → String
  | [] => out
  | (k, j) :: es =>
    let out := (if first then out else out ++ ",") ++ lineBreak depth ++ quote (k.getD "") ++ ": "
    prettyEntries depth false (prettyAt depth out j) es

end

def pretty (j : Json) : String :=
  prettyAt 0 "" j

mutual

def compactOnto (out : String) : Json → String
  | .list items => compactItems true (out ++ "[") items ++ "]"
  | .object entries => compactEntries true (out ++ "\x7b") entries ++ "\x7d"
  | j => out ++ scalarText j

def compactItems (first : Bool) (out : String) : List Json → String
  | [] => out
  | j :: js => compactItems false (compactOnto (if first then out else out ++ ",") j) js

def compactEntries (first : Bool) (out : String) : List (Option String × Json) → String
  | [] => out
  | (k, j) :: es =>
    let out := (if first then out else out ++ ",") ++ quote (k.getD "") ++ ":"
    compactEntries false (compactOnto out j) es

end

def compact (j : Json) : String :=
  compactOnto "" j

end SatLab.Json

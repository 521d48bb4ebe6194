import SatLab.Json.Basic
import SatLab.Text.Numeral
/-!
The tokens of JSON text. Numbers have no leading zeros, a digit on both sides of the
point and a digit in the exponent; strings hold no control characters; blanks are the
four characters space, tab, line feed and carriage return.
-/

set_option autoImplicit false
set_option relaxedAutoImplicit false

namespace SatLab.Json

open SatLab.Text (digit? unsigned?)

inductive Token
  | beginList
  | endList
  | beginObject
  | endObject
  | colon
  | comma
  | scalar (value : Json)

/-- What the characters read so far belong to. -/
inductive Mode
  | gap
  -- inside a number or a literal name; the characters so far, last first
  | bare (chars : List Char)
  -- inside a string; the code points and lone surrogates so far, last first
  | quoted (units : List Nat)
  | escaped (units : List Nat)
  | hex (units : List Nat) (need : Nat) (value : Nat)

/-- Pairs up surrogates; one without its partner leaves no string. -/
def joinUnits : List Nat → Option (List Char)
  | [] => some []
  | u :: us =>
    if 0xD800 ≤ u ∧ u < 0xDC00 then
      match us with
      | [] => none
      | v :: vs =>
        if 0xDC00 ≤ v ∧ v < 0xE000 then
          (joinUnits vs).map (Char.ofNat (0x10000 + (u - 0xD800) * 0x400 + (v - 0xDC00)) :: ·)
        else none
    else if 0xDC00 ≤ u ∧ u < 0xE000 then none
    else (joinUnits us).map (Char.ofNat u :: ·)

/-- The string of the code points and surrogates of a string literal. -/
def textOfUnits (units : List Nat) : Option String :=
  (joinUnits units).map String.ofList

def hexDigit? (c : Char) : Option Nat :=
  if '0' ≤ c ∧ c ≤ '9' then some (c.toNat - 48)
  else if 'a' ≤ c ∧ c ≤ 'f' then some (c.toNat - 87)
  else if 'A' ≤ c ∧ c ≤ 'F' then some (c.toNat - 55)
  else none

def escape? (c : Char) : Option Nat :=
  match c with
  | '"' => some 0x22
  | '\\' => some 0x5C
  | '/' => some 0x2F
  | 'b' => some 0x08
  | 'f' => some 0x0C
  | 'n' => some 0x0A
  | 'r' => some 0x0D
  | 't' => some 0x09
  | _ => none

/-- The double nearest to `digits * 10 ^ exponent`. Exponents far outside the range of
doubles are decided by the length of the numeral, so that no power has to be built. -/
def nearestDouble (digits : Nat) (exponent : Int) : Float :=
  let order := (Nat.log2 digits : Int) * 30103 / 100000 + exponent
  if digits = 0 ∨ order < -400 then 0.0
  else if 400 < order then 1.0 / 0.0
  else Float.ofScientific digits (exponent < 0) exponent.natAbs

/-- The exponent part of a numeral: nothing, or `e` with an optional sign and digits. -/
def exponent? : List Char → Option Int
  | [] => some 0
  | c :: s =>
    if c = 'e' ∨ c = 'E' then
      match s with
      | '-' :: t => (unsigned? t).map fun n : Nat => -(n : Int)
      | '+' :: t => (unsigned? t).map fun n : Nat => (n : Int)
      | t => (unsigned? t).map fun n : Nat => (n : Int)
    else none

/-- A numeral without its sign: the value is whole when it fits a word and has neither a
point nor an exponent. The negative zero is no whole number. -/
def unsignedNumber? (negative : Bool) (s : List Char) : Option Json := do
  let (front, s) := s.span (·.isDigit)
  if front.isEmpty then none
  if 1 < front.length ∧ front.head? = some '0' then none
  let whole ← unsigned? front
  let sign (x : Float) : Float := if negative then -x else x
  match s with
  | [] =>
    if negative then
      if whole = 0 ∨ 0x8000000000000000 < whole then return .real (sign (nearestDouble whole 0))
      return .whole (-(whole : Int))
    if 0x10000000000000000 ≤ whole then return .real (nearestDouble whole 0)
    return .whole whole
  | '.' :: s =>
    let (back, s) := s.span (·.isDigit)
    if back.isEmpty then none
    let mantissa ← unsigned? (front ++ back)
    let e ← exponent? s
    return .real (sign (nearestDouble mantissa (e - (back.length : Int))))
  | s => return .real (sign (nearestDouble whole (← exponent? s)))

def bareValue? (chars : List Char) : Option Json :=
  if chars = "null".toList then some .null
  else if chars = "true".toList then some (.bool true)
  else if chars = "false".toList then some (.bool false)
  else match chars with
    | '-' :: s => unsignedNumber? true s
    | s => unsignedNumber? false s

/-- Whether a character may continue a number or a literal name. -/
def isBare (c : Char) : Bool :=
  c.isAlphanum || c == '+' || c == '-' || c == '.'

/-- The tokens completed and the mode entered by a character that stands between tokens. -/
def begin? (c : Char) : Option (List Token × Mode) :=
  match c with
  | ' ' | '\t' | '\n' | '\r' => some ([], .gap)
  | '[' => some ([.beginList], .gap)
  | ']' => some ([.endList], .gap)
  | '\x7b' => some ([.beginObject], .gap)
  | '\x7d' => some ([.endObject], .gap)
  | ':' => some ([.colon], .gap)
  | ',' => some ([.comma], .gap)
  | '"' => some ([], .quoted [])
  | c => if isBare c then some ([], .bare [c]) else none

/-- Reads one character: the tokens it completes, last first, and the next mode. -/
def Mode.step (mode : Mode) (c : Char) : Option (List Token × Mode) :=
  match mode with
  | .gap => begin? c
  | .bare chars =>
    if isBare c then some ([], .bare (c :: chars))
    else do
      let value ← bareValue? chars.reverse
      let (done, next) ← begin? c
      return (done ++ [.scalar value], next)
  | .quoted units =>
    if c = '"' then some ([.scalar (.text (textOfUnits units.reverse))], .gap)
    else if c = '\\' then some ([], .escaped units)
    else if c.toNat < 0x20 then none
    else some ([], .quoted (c.toNat :: units))
  | .escaped units =>
    if c = 'u' then some ([], .hex units 4 0)
    else (escape? c).map fun u => ([], .quoted (u :: units))
  | .hex units need value => do
    let d ← hexDigit? c
    let value := 16 * value + d
    if need ≤ 1 then return ([], .quoted (value :: units))
    return ([], .hex units (need - 1) value)

def Mode.finish : Mode → Option (List Token)
  | .gap => some []
  | .bare chars => (bareValue? chars.reverse).map fun v => [.scalar v]
  | _ => none

/-- The tokens of a text, `done` of which, last first, have been read. -/
def tokensFrom (mode : Mode) (done : List Token) : List Char → Option (List Token)
  | [] => mode.finish.map fun ts => (ts ++ done).reverse
  | c :: s => do
    let (ts, next) ← mode.step c
    tokensFrom next (ts ++ done) s

def tokens? (s : List Char) : Option (List Token) :=
  tokensFrom .gap [] s

end SatLab.Json

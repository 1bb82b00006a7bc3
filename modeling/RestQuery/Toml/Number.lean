import RestQuery.Text.Numeral
import RestQuery.Toml.Scan

/-!
# Numbers in TOML

Integers are 64-bit, decimal with a sign or in base 16, 8 or 2 without one.
Digits may have single underscores between them. A float is checked and not
kept: it has to be finite unless it is negative or spelled `inf`.
-/

namespace RestQuery.Toml

def digitOf? (base : Nat) (c : Char) : Option Nat :=
  let value? :=
    if '0' ≤ c ∧ c ≤ '9' then some (c.toNat - '0'.toNat)
    else if 'a' ≤ c ∧ c ≤ 'f' then some (c.toNat - 'a'.toNat + 10)
    else if 'A' ≤ c ∧ c ≤ 'F' then some (c.toNat - 'A'.toNat + 10)
    else none
  value?.filter (· < base)

def digit (base : Nat) : Scan Nat :=
  Scan.filterMap (digitOf? base) (Scan.satisfy fun _ => true)

/-- Digits with underscores between them, leading zeros included. -/
def digits (base : Nat) : Scan (List Nat) := do
  let d ← digit base
  return d :: (← Scan.many (digit base <|> (Scan.char '_' *> digit base)))

/-- Decimal digits that begin with a zero only if that is all. -/
def wholeDigits : Scan (List Nat) :=
  (Scan.char '0' *> pure [0]) <|> digits 10

def sign : Scan Bool :=
  (Scan.char '-' *> pure true) <|> (Scan.char '+' *> pure false) <|> pure false

/-- Integers are below this number and not below its negative: 2 to the power of 63. -/
def integerBound : Nat := 9223372036854775808

def inRange? (n : Int) : Option Int :=
  if -(integerBound : Int) ≤ n ∧ n < integerBound then some n else none

def decimalInteger : Scan Int := do
  let negative ← sign
  let n : Int := Text.ofDigits 10 (← wholeDigits)
  return if negative then -n else n

def basedInteger (letter : Char) (base : Nat) : Scan Int := do
  Scan.word ['0', letter]
  return Text.ofDigits base (← digits base)

def integer : Scan Int :=
  Scan.filterMap inRange?
    (basedInteger 'x' 16 <|> basedInteger 'o' 8 <|> basedInteger 'b' 2 <|> decimalInteger)

/-- The least number that rounds to infinity: halfway between the greatest
double and the next power of two. -/
def overflowBound : Nat := Nat.pow 2 1024 - Nat.pow 2 970

/-- Whether a number with these digits and this decimal exponent is below the
bound. The number of digits settles it unless the number has 309 places before the point. -/
def isFinite (digits : List Nat) (exponent : Int) : Bool :=
  let significant := digits.dropWhile (· = 0)
  let places : Int := significant.length + exponent
  let n := Text.ofDigits 10 significant
  if n = 0 ∨ places < 309 then true
  else if 309 < places then false
  else if exponent < 0 then n < overflowBound * Nat.pow 10 (-exponent).toNat
  else n * Nat.pow 10 exponent.toNat < overflowBound

def fraction : Scan (List Nat) := Scan.char '.' *> digits 10

def exponent : Scan Int := do
  Scan.char 'e' <|> Scan.char 'E'
  let negative ← sign
  let n : Int := Text.ofDigits 10 (← digits 10)
  return if negative then -n else n

/-- A decimal float has a fraction, an exponent or both. -/
def decimalFloat : Scan Unit := do
  let negative ← sign
  let whole ← wholeDigits
  let (places, exp) ←
    (do return ([], ← exponent)) <|> (do return (← fraction, (← Scan.optional exponent).getD 0))
  if negative || isFinite (whole ++ places) (exp - places.length) then pure () else failure

def specialFloat : Scan Unit := do
  let _ ← sign
  Scan.word ['i', 'n', 'f'] <|> Scan.word ['n', 'a', 'n']

def float : Scan Unit := decimalFloat <|> specialFloat

end RestQuery.Toml

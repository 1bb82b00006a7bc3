import RestQuery.Toml.Number

/-!
# Dates and times in TOML

Dates, times and both together are checked and not kept.
-/

namespace RestQuery.Toml

/-- A number of exactly `width` decimal digits, within bounds. -/
def fixed (width low high : Nat) : Scan Nat :=
  Scan.filterMap (fun ds =>
    let n := Text.ofDigits 10 ds
    if low ≤ n ∧ n ≤ high then some n else none) (Scan.times width (digit 10))

def isLeapYear (year : Nat) : Bool := year % 4 = 0 && (year % 100 ≠ 0 || year % 400 = 0)

def daysIn (year month : Nat) : Nat :=
  if month = 2 then if isLeapYear year then 29 else 28
  else if month ∈ [4, 6, 9, 11] then 30
  else 31

def date : Scan Unit := do
  let year ← fixed 4 0 9999
  Scan.char '-'
  let month ← fixed 2 1 12
  Scan.char '-'
  let _ ← fixed 2 1 (daysIn year month)

/-- Second 60 is a leap second. -/
def time : Scan Unit := do
  let _ ← fixed 2 0 23
  Scan.char ':'
  let _ ← fixed 2 0 59
  Scan.char ':'
  let _ ← fixed 2 0 60
  let _ ← Scan.optional (Scan.char '.' *> Scan.span1 Char.isDigit)

def offset : Scan Unit :=
  Scan.char 'Z' <|> Scan.char 'z' <|> do
    Scan.char '+' <|> Scan.char '-'
    let _ ← fixed 2 0 23
    Scan.char ':'
    let _ ← fixed 2 0 59

def moment : Scan Unit :=
  (do
    date
    let _ ← Scan.optional do
      Scan.char 'T' <|> Scan.char 't' <|> Scan.char ' '
      time
      let _ ← Scan.optional offset) <|>
  time

end RestQuery.Toml

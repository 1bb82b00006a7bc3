import RestQuery.Text.Utf8

/-!
# Percent decoding

In a query string `+` stands for a space and `%` with two hexadecimal digits
for a byte. Escapes are undone on bytes, and only then are the bytes read as
text, so one character may be split over several escapes. A `%` without two
digits after it stands for itself.
-/

namespace RestQuery.Text

def hexDigit? (b : UInt8) : Option UInt8 :=
  if 0x30 ≤ b ∧ b ≤ 0x39 then some (b - 0x30)
  else if 0x41 ≤ b ∧ b ≤ 0x46 then some (b - 0x41 + 10)
  else if 0x61 ≤ b ∧ b ≤ 0x66 then some (b - 0x61 + 10)
  else none

def escaped? (b high low : UInt8) : Option UInt8 :=
  if b = 0x25 then
    match hexDigit? high, hexDigit? low with
    | some h, some l => some (h * 16 + l)
    | _, _ => none
  else none

def plain (b : UInt8) : UInt8 := if b = 0x2B then 0x20 else b

def unescape : List UInt8 → List UInt8
  | [] => []
  | b :: high :: low :: bs =>
    match escaped? b high low with
    | some e => e :: unescape bs
    | none => plain b :: unescape (high :: low :: bs)
  | b :: bs => plain b :: unescape bs

/-- The text that a raw key or value stands for. -/
def decodeComponent (raw : List Char) : List Char := decodeLossy (unescape (utf8 raw))

end RestQuery.Text

/-!
# UTF-8

`utf8` is the encoding of a text. `scan` reads any bytes: a well-formed
sequence gives its character, and each maximal part of an ill-formed one gives
`none`. `decode?` wants characters only; `decodeLossy` puts U+FFFD for each
ill-formed part. A truncated sequence ends at the first byte that cannot
continue it, and that byte is read afresh.
-/

namespace RestQuery.Text

def utf8 (cs : List Char) : List UInt8 := cs.flatMap String.utf8EncodeChar

@[simp] theorem utf8_append (a b : List Char) : utf8 (a ++ b) = utf8 a ++ utf8 b := by
  simp [utf8]

/-- A sequence under way: the value of its bytes so far, how many more it
needs, and the range of the next one. -/
structure Sequence where
  value : Nat
  missing : Nat
  low : UInt8
  high : UInt8

def Sequence.push (s : Sequence) (b : UInt8) : Sequence :=
  ⟨s.value * 64 + (b.toNat - 0x80), s.missing - 1, 0x80, 0xBF⟩

theorem Sequence.value_push (s : Sequence) (b : UInt8) :
    (s.push b).value = s.value * 64 + (b.toNat - 0x80) := rfl

theorem Sequence.missing_push (s : Sequence) (b : UInt8) :
    (s.push b).missing = s.missing - 1 := rfl

/-- What a step gives: the characters and ill-formed parts that end with it,
and the sequence then under way. -/
abbrev Step := List (Option Char) × Option Sequence

/-- A byte read between two characters. The narrowed ranges after E0, ED, F0
and F4 exclude overlong forms, surrogates and values past U+10FFFF. -/
def lead (b : UInt8) : Step :=
  if b ≤ 0x7F then ([some (Char.ofNat b.toNat)], none)
  else if b ≤ 0xC1 then ([none], none)
  else if b ≤ 0xDF then ([], some ⟨b.toNat - 0xC0, 1, 0x80, 0xBF⟩)
  else if b ≤ 0xEF then
    ([], some ⟨b.toNat - 0xE0, 2, if b = 0xE0 then 0xA0 else 0x80, if b = 0xED then 0x9F else 0xBF⟩)
  else if b ≤ 0xF4 then
    ([], some ⟨b.toNat - 0xF0, 3, if b = 0xF0 then 0x90 else 0x80, if b = 0xF4 then 0x8F else 0xBF⟩)
  else ([none], none)

def step : Option Sequence → UInt8 → Step
  | none, b => lead b
  | some s, b =>
    if s.low ≤ b ∧ b ≤ s.high then
      if s.missing = 1 then ([some (Char.ofNat (s.push b).value)], none) else ([], some (s.push b))
    else (none :: (lead b).1, (lead b).2)

def scanFrom : Option Sequence → List UInt8 → List (Option Char)
  | none, [] => []
  | some _, [] => [none]
  | s?, b :: bs => (step s? b).1 ++ scanFrom (step s? b).2 bs

def scan (bytes : List UInt8) : List (Option Char) := scanFrom none bytes

def replacement : Char := Char.ofNat 0xFFFD

def decodeLossy (bytes : List UInt8) : List Char := (scan bytes).map (·.getD replacement)

def decode? (bytes : List UInt8) : Option (List Char) := (scan bytes).mapM id

@[simp] theorem scanFrom_cons (s? : Option Sequence) (b : UInt8) (bs : List UInt8) :
    scanFrom s? (b :: bs) = (step s? b).1 ++ scanFrom (step s? b).2 bs := by
  cases s? <;> rfl

theorem step_ascii {b : UInt8} (h : b ≤ 0x7F) :
    step none b = ([some (Char.ofNat b.toNat)], none) := by
  simp [step, lead, h]

end RestQuery.Text

import RestQuery.Text.Numeral

/-!
# Faults in JSON

What is wrong with a JSON text, and where. A fault is told with its place at the
end, and a text that ends in a place is a fault at that place. Lines are counted
from 1, so that a fault on line 0 has no place.
-/

namespace RestQuery

structure JsonFault where
  text : String
  line : UInt64 := 0
  column : UInt64 := 0
  deriving DecidableEq, Repr

namespace JsonFault

def message (f : JsonFault) : String :=
  if f.line = 0 then f.text
  else f.text ++ " at line " ++ Text.decimal f.line ++ " column " ++ Text.decimal f.column

def marked? (mark cs : List Char) : Option (List Char × UInt64) := do
  let before ← mark.isSuffixOf? (Text.trimEnd Char.isDigit cs)
  let number ← Text.numeral? (Text.endRun Char.isDigit cs)
  return (before, number)

def located? (cs : List Char) : Option JsonFault := do
  let (rest, column) ← marked? " column ".toList cs
  let (text, line) ← marked? " at line ".toList rest
  return ⟨.ofList text, line, column⟩

/-- A text that does not end in a place is kept whole. -/
def ofText (text : String) : JsonFault := (located? text.toList).getD { text }

end JsonFault

end RestQuery

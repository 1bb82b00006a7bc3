import RestQuery.Text.Cut

/-!
# White space

The characters of the Unicode property `White_Space`, and trimming by it.
-/

namespace RestQuery.Text

/-- First and last code points of the runs that make up `White_Space`. -/
def spaceRuns : List (Nat × Nat) :=
  [(0x09, 0x0D), (0x20, 0x20), (0x85, 0x85), (0xA0, 0xA0), (0x1680, 0x1680), (0x2000, 0x200A),
    (0x2028, 0x2029), (0x202F, 0x202F), (0x205F, 0x205F), (0x3000, 0x3000)]

def isSpace (c : Char) : Bool :=
  spaceRuns.any fun run => decide (run.1 ≤ c.toNat ∧ c.toNat ≤ run.2)

def strip (cs : List Char) : List Char := trim isSpace cs

end RestQuery.Text

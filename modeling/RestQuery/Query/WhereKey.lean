import RestQuery.Text.Cut

/-!
# Where keys

After `where`, a filter key names a field in brackets, alone or after an
operator in brackets: `[field]` or `[operator][field]`. A token runs to the
first `]` and is not empty; it may hold `[`.
-/

namespace RestQuery

/-- A bracketed token at the head of a text, and what follows it. -/
def bracketed? : List Char → Option (List Char × List Char)
  | '[' :: cs => (Text.cut? ']' cs).filter (·.1 ≠ [])
  | _ => none

theorem bracketed?_eq_some {cs token rest : List Char} :
    bracketed? cs = some (token, rest) ↔
      cs = '[' :: token ++ ']' :: rest ∧ token ≠ [] ∧ ']' ∉ token := by
  unfold bracketed?
  split
  · simp [Option.filter_eq_some_iff, Text.cut?_eq_some]
    grind
  · rename_i h
    constructor
    · simp
    · rintro ⟨rfl, -, -⟩
      exact absurd rfl (h _)

structure WhereClause where
  operator : Option String
  field : String
  deriving DecidableEq, Repr

namespace WhereClause

def ofChars? (cs : List Char) : Option WhereClause :=
  match bracketed? cs with
  | none => none
  | some (first, []) => some ⟨none, .ofList first⟩
  | some (first, rest) =>
    match bracketed? rest with
    | some (second, []) => some ⟨some (.ofList first), .ofList second⟩
    | _ => none

def parse? (clause : String) : Option WhereClause := ofChars? clause.toList

def render (c : WhereClause) : String :=
  match c.operator with
  | none => "[" ++ c.field ++ "]"
  | some operator => "[" ++ operator ++ "][" ++ c.field ++ "]"

end WhereClause

end RestQuery

import RestQuery.Parameters
import RestQuery.Text.Numeral

/-!
# Queries

What a query string asks of an edge: the fields to project, the relations to
expand, the order, the window of records and the filters. Nothing here checks
names; `RestQuery.Query.Reading` builds a query from parameters and does.
-/

namespace RestQuery

inductive Comparison where
  | equal
  | notEqual
  | greater
  | greaterOrEqual
  | less
  | lessOrEqual
  deriving DecidableEq, Repr

namespace Comparison

def all : List Comparison := [.equal, .notEqual, .greater, .greaterOrEqual, .less, .lessOrEqual]

theorem mem_all (c : Comparison) : c ∈ all := by cases c <;> decide

def token : Comparison → String
  | .equal => "eq"
  | .notEqual => "ne"
  | .greater => "gt"
  | .greaterOrEqual => "gte"
  | .less => "lt"
  | .lessOrEqual => "lte"

def ofToken? (token : String) : Option Comparison := all.find? (·.token = token)

theorem ofToken?_token (c : Comparison) : ofToken? c.token = some c := by cases c <;> decide

theorem ofToken?_eq_some {token : String} {c : Comparison} :
    ofToken? token = some c ↔ c.token = token := by
  refine ⟨fun h => by simpa [ofToken?] using List.find?_some h, ?_⟩
  rintro rfl
  exact ofToken?_token c

def name : Comparison → String
  | .equal => "Equals"
  | .notEqual => "NotEquals"
  | .greater => "GreaterThan"
  | .greaterOrEqual => "GreaterThanOrEquals"
  | .less => "LowerThan"
  | .lessOrEqual => "LowerThanOrEquals"

def symbol : Comparison → String
  | .equal => "="
  | .notEqual => "!="
  | .greater => ">"
  | .greaterOrEqual => ">="
  | .less => "<"
  | .lessOrEqual => "<="

end Comparison

structure Filter where
  field : String
  comparison : Comparison
  value : Value
  deriving DecidableEq, Repr

structure SortKey where
  field : String
  ascending : Bool
  deriving DecidableEq, Repr

/-- The records from `skip` on, `limit` at most. `page` is there when the
window was asked for by a page number. -/
structure Window where
  skip : UInt64
  limit : UInt64
  page : Option UInt64 := none
  deriving DecidableEq, Repr

structure Query where
  fields : List String := []
  expansions : List String := []
  sort : List SortKey := []
  window : Option Window := none
  filters : List Filter := []
  deriving DecidableEq, Repr

namespace Query

def addNew (a : String) (list : List String) : List String :=
  if a ∈ list then list else list ++ [a]

def select (q : Query) (field : String) : Query := { q with fields := addNew field q.fields }

def expand (q : Query) (handle : String) : Query :=
  { q with expansions := addNew handle q.expansions }

def orderBy (q : Query) (field : String) (ascending : Bool) : Query :=
  { q with sort := q.sort ++ [⟨field, ascending⟩] }

def within (q : Query) (w : Window) : Query := { q with window := some w }

def restrict (q : Query) (f : Filter) : Query := { q with filters := q.filters ++ [f] }

def IsUnconstrained (q : Query) : Prop := q = {}

instance (q : Query) : Decidable q.IsUnconstrained := by unfold IsUnconstrained; infer_instance

def referencedFields (q : Query) : List String :=
  q.fields ++ q.sort.map SortKey.field ++ q.filters.map Filter.field

theorem mem_addNew {a b : String} {list : List String} :
    b ∈ addNew a list ↔ b ∈ list ∨ b = a := by
  unfold addNew
  split <;> simp
  rintro rfl
  assumption

theorem nodup_addNew {a : String} {list : List String} (h : list.Nodup) :
    (addNew a list).Nodup := by
  unfold addNew
  split
  · exact h
  · rename_i ha
    rw [List.nodup_append]
    exact ⟨h, by simp, fun b hb c hc hbc => ha (by simp_all)⟩

/-- The value of the total-count header: the number of pages for a window that
was asked for by page, the total otherwise. -/
def totalCount (q : Query) (total : UInt64) : UInt64 :=
  match q.window with
  | some ⟨_, limit, some _⟩ => if limit = 0 then total else pages total limit
  | _ => total
where
  /-- The number of pages that hold `total` records: the quotient rounded up. -/
  pages (total limit : UInt64) : UInt64 :=
    total / limit + if total % limit = 0 then 0 else 1

end Query

def totalCountHeader : String := "X-Total-Count"

end RestQuery

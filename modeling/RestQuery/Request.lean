import RestQuery.Query.Json

/-!
# Requests

A request that has found its edge: the API version and the edge that answer
it, the record it addresses, what is to be done and the query.
-/

namespace RestQuery

inductive Operation where
  | read
  | create
  | update
  | patch
  | delete
  deriving DecidableEq, Repr

namespace Operation

def all : List Operation := [.read, .create, .update, .patch, .delete]

theorem mem_all (o : Operation) : o ∈ all := by cases o <;> decide

def method : Operation → String
  | .read => "GET"
  | .create => "POST"
  | .update => "PUT"
  | .patch => "PATCH"
  | .delete => "DELETE"

/-- Methods are told apart by case. -/
def ofMethod? (method : String) : Option Operation := all.find? (·.method = method)

theorem ofMethod?_eq_some {method : String} {o : Operation} :
    ofMethod? method = some o ↔ o.method = method := by
  refine ⟨fun h => by simpa [ofMethod?] using List.find?_some h, ?_⟩
  rintro rfl
  cases o <;> decide

def name : Operation → String
  | .read => "Read"
  | .create => "Create"
  | .update => "Update"
  | .patch => "Patch"
  | .delete => "Delete"

end Operation

structure Request where
  version : String
  edge : String
  id : Option String
  operation : Operation
  query : Query
  body : Option Json := none

namespace Request

def withBody (r : Request) (body : Json) : Request := { r with body := some body }

def toJson (r : Request) : Json :=
  .object ([("api_version", .string r.version), ("edge", .string r.edge)] ++
    Json.member? "id" (r.id.map .string) ++
    [("request_type", .string r.operation.name), ("context", r.query.toJson)] ++
    Json.member? "body" r.body)

end Request

end RestQuery

import RestQuery.Error
import RestQuery.Toml.Line

/-!
# Schemas as TOML

A schema file lists its APIs as `api`, their edges as `edge` and the relations
of those as `relation`. Keys that are not part of a schema are passed over.
What is read is held to the naming rules; what is written need not be.
-/

namespace RestQuery

open Toml (Node)

/-- A cardinality is a string, or a table whose only key it is, with nothing in it. -/
def Cardinality.ofNode? : Node → Option Cardinality
  | .scalar (.text name) => ofName? name
  | .table _ [(name, value)] => if value.isEmpty then ofName? name else none
  | _ => none

def Relation.ofNode? (n : Node) : Option Relation := do
  let name ← (← n.required? "name" 0).text?
  let handle ← (← n.required? "relation_id" 1).text?
  let cardinality ← Cardinality.ofNode? (← n.required? "kind" 2)
  return { name, handle, cardinality }

def Edge.ofNode? (n : Node) : Option Edge := do
  let name ← (← n.required? "name" 0).text?
  let fields ← n.list? "fields" 1 Node.text?
  let relations ← n.list? "relation" 2 Relation.ofNode?
  return { name, fields, relations }

def Api.ofNode? (n : Node) : Option Api := do
  let version ← (← n.required? "version" 0).text?
  let edges ← n.list? "edge" 1 Edge.ofNode?
  return { version, edges }

namespace Schema

def ofDocument? (d : Toml.Document) : Option Schema := do
  let apis ← (Node.table .header d.root).list? "api" 0 Api.ofNode?
  return { apis }

def check (s : Schema) : Except Error Schema :=
  match s.offence? with
  | some o => .error (.schema (.offence o))
  | none => .ok s

def ofToml (source : String) : Except Error Schema :=
  match (Toml.Document.parse? source).bind ofDocument? with
  | some s => s.check
  | none => .error (.schema .unreadable)

end Schema

open Toml (Line)

def Relation.lines (r : Relation) : List Line :=
  [.element ["api", "edge", "relation"], .entry "name" (.text r.name),
    .entry "relation_id" (.text r.handle), .entry "kind" (.text r.cardinality.name)]

def Edge.lines (e : Edge) : List Line :=
  [.element ["api", "edge"], .entry "name" (.text e.name), .entry "fields" (.texts e.fields)] ++
    e.relations.flatMap Relation.lines

def Api.lines (a : Api) : List Line :=
  [.element ["api"], .entry "version" (.text a.version)] ++
    if a.edges = [] then [.entry "edge" (.texts [])] else a.edges.flatMap Edge.lines

def Schema.lines (s : Schema) : List Line :=
  if s.apis = [] then [.entry "api" (.texts [])] else s.apis.flatMap Api.lines

def Schema.toToml (s : Schema) : String := .ofList (Line.write s.lines)

end RestQuery

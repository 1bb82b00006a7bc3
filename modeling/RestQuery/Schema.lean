/-!
# Schemas

A schema lists the API versions that are served, each with its edges. An edge
is one kind of resource: its field names and its relations to other edges.
Schemas are plain data; `RestQuery.Schema.Naming` says which names are right.
-/

namespace RestQuery

inductive Cardinality where
  | oneToOne
  | oneToMany
  | manyToMany
  deriving DecidableEq, Repr

def Cardinality.all : List Cardinality := [.oneToOne, .oneToMany, .manyToMany]

def Cardinality.name : Cardinality → String
  | .oneToOne => "one-to-one"
  | .oneToMany => "one-to-many"
  | .manyToMany => "many-to-many"

def Cardinality.ofName? (name : String) : Option Cardinality :=
  all.find? (·.name = name)

theorem Cardinality.ofName?_name (c : Cardinality) : ofName? c.name = some c := by
  cases c <;> decide

/-- A link to another edge. The handle is what an executor expands. -/
structure Relation where
  name : String
  handle : String
  cardinality : Cardinality
  deriving DecidableEq, Repr

structure Edge where
  name : String
  fields : List String := []
  relations : List Relation := []
  deriving DecidableEq, Repr

/-- The relation that a name embeds: the first of that name which is
one-to-one. -/
def Edge.embedded? (e : Edge) (name : String) : Option Relation :=
  e.relations.find? fun r => r.cardinality = .oneToOne ∧ r.name = name

structure Api where
  version : String
  edges : List Edge := []
  deriving DecidableEq, Repr

def Api.edge? (a : Api) (name : String) : Option Edge := a.edges.find? (·.name = name)

structure Schema where
  apis : List Api := []
  deriving DecidableEq, Repr

def Schema.api? (s : Schema) (version : String) : Option Api :=
  s.apis.find? (·.version = version)

theorem Edge.embedded?_eq_some {e : Edge} {name : String} {r : Relation}
    (h : e.embedded? name = some r) :
    r ∈ e.relations ∧ r.cardinality = .oneToOne ∧ r.name = name := by
  have hr := List.find?_some h
  simp only [decide_eq_true_eq] at hr
  exact ⟨List.mem_of_find?_eq_some h, hr⟩

theorem Api.edge?_eq_some {a : Api} {name : String} {e : Edge} (h : a.edge? name = some e) :
    e ∈ a.edges ∧ e.name = name := by
  have he := List.find?_some h
  exact ⟨List.mem_of_find?_eq_some h, by simpa using he⟩

theorem Schema.api?_eq_some {s : Schema} {version : String} {a : Api}
    (h : s.api? version = some a) : a ∈ s.apis ∧ a.version = version := by
  have ha := List.find?_some h
  exact ⟨List.mem_of_find?_eq_some h, by simpa using ha⟩

end RestQuery

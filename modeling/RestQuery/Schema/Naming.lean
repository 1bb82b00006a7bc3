import RestQuery.Schema

/-!
# Names in a schema

Versions, edges, fields and relations are looked up by name, so each has to be
found: names are not repeated where they are looked up, most are not empty,
and an edge name stands as one segment of a path. `Schema.offence?` is the
first breach of these rules in the order in which a schema is read;
`Schema.WellNamed` states the rules without an order.
-/

namespace RestQuery

inductive Offence where
  | noApi
  | emptyVersion
  | repeatedVersion (version : String)
  | edgeName (edge : String)
  | emptyField (edge : String)
  | repeatedField (edge field : String)
  | repeatedRelation (edge relation : String)
  | repeatedEdge (version edge : String)
  deriving DecidableEq, Repr

def Offence.message : Offence → String
  | .noApi => "no [[api]] declared"
  | .emptyVersion => "empty API version"
  | .repeatedVersion version => "API version '" ++ version ++ "' declared twice"
  | .edgeName edge => "invalid edge name '" ++ edge ++ "'"
  | .emptyField edge => "edge '" ++ edge ++ "' has an empty field name"
  | .repeatedField edge field => "edge '" ++ edge ++ "' declares field '" ++ field ++ "' twice"
  | .repeatedRelation edge relation =>
    "edge '" ++ edge ++ "' declares relation '" ++ relation ++ "' twice"
  | .repeatedEdge version edge =>
    "edge '" ++ edge ++ "' declared twice in API version '" ++ version ++ "'"

/-- The first offence of a list, each element checked with those before it. -/
def firstOffence (check : List α → α → Option Offence) (before : List α) :
    List α → Option Offence
  | [] => none
  | a :: rest => (check before a).or (firstOffence check (before ++ [a]) rest)

theorem firstOffence_eq_none {check : List α → α → Option Offence} {before rest : List α} :
    firstOffence check before rest = none ↔
      ∀ pre a post, rest = pre ++ a :: post → check (before ++ pre) a = none := by
  induction rest generalizing before with
  | nil => simp [firstOffence]
  | cons b rest ih =>
    simp only [firstOffence, Option.or_eq_none_iff, ih]
    constructor
    · rintro ⟨hb, hr⟩ pre a post h
      cases pre with
      | nil => simp_all
      | cons p pre =>
        obtain ⟨rfl, rfl⟩ := List.cons.inj h
        simpa using hr pre a post rfl
    · intro h
      exact ⟨by simpa using h [] b rest rfl,
        fun pre a post hr => by simpa using h (b :: pre) a post (by simp [hr])⟩

def Edge.offence? (e : Edge) : Option Offence :=
  if e.name = "" ∨ '/' ∈ e.name.toList then some (.edgeName e.name)
  else
    (firstOffence (fun before field =>
      if field = "" then some (.emptyField e.name)
      else if field ∈ before then some (.repeatedField e.name field)
      else none) [] e.fields).or
    (firstOffence (fun before r =>
      if r.name ∈ before.map Relation.name then some (.repeatedRelation e.name r.name)
      else none) [] e.relations)

/-- An edge is read through before its name is held against earlier edges. -/
def Api.offence? (a : Api) : Option Offence :=
  firstOffence (fun before e =>
    e.offence?.or
      (if e.name ∈ before.map Edge.name then some (.repeatedEdge a.version e.name) else none))
    [] a.edges

def Schema.offence? (s : Schema) : Option Offence :=
  if s.apis = [] then some .noApi
  else
    firstOffence (fun before a =>
      if a.version = "" then some .emptyVersion
      else if a.version ∈ before.map Api.version then some (.repeatedVersion a.version)
      else a.offence?) [] s.apis

def Edge.WellNamed (e : Edge) : Prop :=
  e.name ≠ "" ∧ '/' ∉ e.name.toList ∧ "" ∉ e.fields ∧ e.fields.Nodup ∧
    (e.relations.map Relation.name).Nodup

instance (e : Edge) : Decidable e.WellNamed := by unfold Edge.WellNamed; infer_instance

def Api.WellNamed (a : Api) : Prop :=
  a.version ≠ "" ∧ (∀ e ∈ a.edges, e.WellNamed) ∧ (a.edges.map Edge.name).Nodup

instance (a : Api) : Decidable a.WellNamed := by unfold Api.WellNamed; infer_instance

def Schema.WellNamed (s : Schema) : Prop :=
  s.apis ≠ [] ∧ (∀ a ∈ s.apis, a.WellNamed) ∧ (s.apis.map Api.version).Nodup

instance (s : Schema) : Decidable s.WellNamed := by unfold Schema.WellNamed; infer_instance

end RestQuery

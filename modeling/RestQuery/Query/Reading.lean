import RestQuery.Error
import RestQuery.Parameters.QueryString
import RestQuery.Query.WhereKey
import RestQuery.Query.Window

/-!
# Reading a query

`Query.read` holds parameters against an edge. The reserved keys come first,
in a fixed order: `fields`, `embed` and `sort` are lists with commas between
their items, `limit`, `skip` and `page` give the window. Every other key is a
filter, in the order of the parameters. The first wrong name is the error.
-/

namespace RestQuery

def standardLimit : UInt64 := 10

def reservedKeys : List String := ["fields", "embed", "sort", "limit", "skip", "page"]

/-- The items of a list key; an absent or empty value has none. -/
def Parameters.items (p : Parameters) (key : String) : List String :=
  match p.get? key with
  | none => []
  | some v => if v.joined = "" then [] else (v.joined.toList.splitOn ',').map .ofList

/-- A leading `-` of a sort item asks for descending order. -/
def SortKey.ofItem (item : String) : SortKey :=
  match item.toList with
  | '-' :: field => ⟨.ofList field, false⟩
  | _ => ⟨item, true⟩

/-- The comparison that an operator token asks for; none asks for equality. -/
def Comparison.ofOperator : Option String → Except Error Comparison
  | none => .ok .equal
  | some token =>
    match ofToken? token with
    | some c => .ok c
    | none => .error (.unknownComparison token)

namespace Edge

def checkField (e : Edge) (name : String) : Except Error Unit :=
  if name ∈ e.fields then .ok () else .error (.unknownField name)

def readHandle (e : Edge) (name : String) : Except Error String :=
  match e.embedded? name with
  | some r => .ok r.handle
  | none => .error (.notEmbeddable name)

def readSortKey (e : Edge) (item : String) : Except Error SortKey := do
  e.checkField (SortKey.ofItem item).field
  return SortKey.ofItem item

/-- The filter of a key that is not reserved. The shape of a `where` key is
looked at before its field, and the field before its operator. -/
def readFilter (e : Edge) (key : String) (value : Value) : Except Error Filter :=
  match "where".toList.isPrefixOf? key.toList with
  | none => do
    e.checkField key
    return ⟨key, .equal, value⟩
  | some clause =>
    match WhereClause.ofChars? clause with
    | none => .error .malformedWhere
    | some c => do
      e.checkField c.field
      return ⟨c.field, ← Comparison.ofOperator c.operator, value⟩

end Edge

namespace Query

def readFields (e : Edge) (p : Parameters) : Except Error (List String) :=
  (p.items "fields").mapM fun name => do
    e.checkField name
    return name

def readHandles (e : Edge) (p : Parameters) : Except Error (List String) :=
  (p.items "embed").mapM e.readHandle

def readSort (e : Edge) (p : Parameters) : Except Error (List SortKey) :=
  (p.items "sort").mapM e.readSortKey

def filterEntries (p : Parameters) : List (String × Value) :=
  p.entries.filter (·.1 ∉ reservedKeys)

def readFilters (e : Edge) (p : Parameters) : Except Error (List Filter) :=
  (filterEntries p).mapM fun entry => e.readFilter entry.1 entry.2

def read (e : Edge) (defaultLimit : UInt64) (p : Parameters) : Except Error Query := do
  let fields ← readFields e p
  let handles ← readHandles e p
  let sort ← readSort e p
  let filters ← readFilters e p
  return {
    fields := fields.foldl (fun list a => addNew a list) []
    expansions := handles.foldl (fun list a => addNew a list) []
    sort
    window := Window.read? defaultLimit p
    filters }

end Query

end RestQuery

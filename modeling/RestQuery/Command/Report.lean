import RestQuery.Request
import RestQuery.Schema

/-!
# Reports

What commands print for people: mostly a label and a value on a line.
-/

namespace RestQuery

def textLines (lines : List String) : String := .join (lines.map (· ++ "\n"))

def labelled (label value : String) : String :=
  .ofList (label.toList.rightpad 12 ' ') ++ " " ++ value

/-- A label with all values of a list, and nothing for an empty list. -/
def labelledList (label : String) (values : List String) : List String :=
  if values = [] then [] else [labelled label (", ".intercalate values)]

def SortKey.display (k : SortKey) : String := (if k.ascending then "" else "-") ++ k.field

def Window.display (w : Window) : String :=
  "skip=" ++ Text.decimal w.skip ++ " limit=" ++ Text.decimal w.limit ++
    match w.page with
    | some page => " (page " ++ Text.decimal page ++ ")"
    | none => ""

def Filter.display (f : Filter) : String :=
  f.field ++ " " ++ f.comparison.symbol ++ " " ++ f.value.display

/-- Parts of a query that ask for nothing are left out. -/
def Query.report (q : Query) : List String :=
  if q.IsUnconstrained then ["(no constraints)"]
  else
    labelledList "fields:" q.fields ++ labelledList "embed:" q.expansions ++
      labelledList "sort:" (q.sort.map SortKey.display) ++
      q.window.toList.map (fun w => labelled "pagination:" w.display) ++
      if q.filters = [] then []
      else "filters:" :: q.filters.map fun f => "  " ++ f.display

def Request.report (r : Request) : List String :=
  [labelled "request:" r.operation.name, labelled "api:" ("v" ++ r.version),
      labelled "edge:" r.edge] ++
    r.id.toList.map (labelled "id:") ++ r.query.report

def Relation.report (r : Relation) : String :=
  "    relation: " ++ r.name ++ " (" ++ r.cardinality.name ++ ") -> " ++ r.handle

def Edge.report (e : Edge) : List String :=
  ["  " ++ e.name, "    fields: " ++ ", ".intercalate e.fields] ++ e.relations.map Relation.report

def Api.report (a : Api) : List String := ("API v" ++ a.version) :: a.edges.flatMap Edge.report

end RestQuery

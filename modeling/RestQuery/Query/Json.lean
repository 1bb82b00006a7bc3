import RestQuery.Json
import RestQuery.Query

/-!
# Queries as JSON
-/

namespace RestQuery

def Value.toJson : Value → Json
  | .one text => .string text
  | .many texts => .strings texts

def SortKey.toJson (k : SortKey) : Json :=
  .object [("field", .string k.field), ("ascending", .bool k.ascending)]

/-- A window that was not asked for by page has no page. -/
def Window.toJson (w : Window) : Json :=
  .object ([("skip", .count w.skip), ("limit", .count w.limit)] ++
    Json.member? "page" (w.page.map .count))

def Filter.toJson (f : Filter) : Json :=
  .object [("field", .string f.field), ("op", .string f.comparison.name), ("value", f.value.toJson)]

def Query.toJson (q : Query) : Json :=
  .object ([("fields", .strings q.fields), ("expansions", .strings q.expansions),
      ("sort", .array (q.sort.map SortKey.toJson))] ++
    Json.member? "pagination" (q.window.map Window.toJson) ++
    [("filters", .array (q.filters.map Filter.toJson))])

end RestQuery

import RestQuery.Query.Reading
import RestQuery.Request

/-!
# Routing

A path names an edge, and a record of it if an id follows: `/v1/users/7` in
the API of version 1, `/api/users` or just `/users` in the default API, which
is the first one. A first segment such as `videos` is a version only if it is
served or if the default API has no edge of that name.
-/

namespace RestQuery

structure Router where
  main : Api
  others : List Api
  defaultLimit : UInt64 := standardLimit
  deriving DecidableEq, Repr

/-- The version that a path asks for, and the rest of the path: a first
segment of `v` and at least one more character, with a slash on both sides. -/
def versioned? : List Char → Option (List Char × List Char)
  | '/' :: cs =>
    match Text.cut? '/' cs with
    | some ('v' :: version, rest) => if version = [] then none else some (version, rest)
    | _ => none
  | _ => none

/-- A path without `/api/` or its first slash. -/
def unversioned (path : List Char) : List Char :=
  match "/api/".toList.isPrefixOf? path with
  | some rest => rest
  | none =>
    match path with
    | '/' :: rest => rest
    | _ => path

/-- The edge that a path within an API names, and the id after it. Slashes at
the end do not count. -/
def Api.locate (a : Api) (resource : List Char) : Except Error (Edge × Option String) :=
  let path := Text.trimEnd (· = '/') resource
  let missing := Error.notFound (.ofList ('/' :: path))
  match path.splitOn '/' with
  | [name] => edge missing name none
  | [name, id] => if id = [] then .error missing else edge missing name (some (.ofList id))
  | _ => .error missing
where
  edge (missing : Error) (name : List Char) (id : Option String) :
      Except Error (Edge × Option String) :=
    if name = [] then .error missing
    else
      match a.edge? (.ofList name) with
      | some e => .ok (e, id)
      | none => .error missing

namespace Router

def apis (r : Router) : List Api := r.main :: r.others

def ofSchema (s : Schema) (defaultLimit : UInt64 := standardLimit) : Except Error Router :=
  match s.apis with
  | [] => .error (.schema .nothingToServe)
  | main :: others => .ok ⟨main, others, defaultLimit⟩

def versions (r : Router) : List String := r.apis.map Api.version

def selectApi (r : Router) (path : List Char) : Except Error (Api × List Char) :=
  match versioned? path with
  | none => .ok (r.main, unversioned path)
  | some (version, rest) =>
    match r.apis.find? (·.version = .ofList version) with
    | some a => .ok (a, rest)
    | none =>
      if (r.main.edge? (.ofList ('v' :: version))).isSome then .ok (r.main, unversioned path)
      else .error (.unservedVersion (.ofList version))

/-- The path is resolved first, then the method, then the parameters. -/
def resolve (r : Router) (method path : String) (p : Parameters) : Except Error Request := do
  let (api, resource) ← r.selectApi path.toList
  let (edge, id) ← api.locate resource
  match Operation.ofMethod? method with
  | none => throw (.unknownMethod method)
  | some operation =>
    let query ← Query.read edge r.defaultLimit p
    return { version := api.version, edge := edge.name, id, operation, query }

/-- A target is a path with the query string after the first `?`. -/
def resolveTarget (r : Router) (method target : String) : Except Error Request :=
  let parts := Text.cut '?' target.toList
  r.resolve method (.ofList parts.1) (.ofQueryString (.ofList parts.2))

end Router

end RestQuery

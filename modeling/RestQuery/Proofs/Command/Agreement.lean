import RestQuery.Proofs.Command.Runs
import RestQuery.Proofs.Request.Addresses

/-!
# A query and the request for it

The command `parse` looks an edge up by name; `route` takes it from a path.
The path of an edge leads where the name does (`address_edgePath`), so both
commands read the same query against the same edge
(`alike_parseQuery_routeRequest`), and print it or fail with the same error
(`parse_agrees_route`).
-/

namespace RestQuery

-- ---------------------------------------------------------------------------
-- Targets
-- ---------------------------------------------------------------------------

def edgePath (edge : String) : Option String → String
  | some version => "/v" ++ version ++ "/" ++ edge
  | none => "/api/" ++ edge

def edgeTarget (edge query : String) (version : Option String) : String :=
  edgePath edge version ++ "?" ++ query

theorem not_mem_edgePath {edge : String} {version : Option String} (hedge : '?' ∉ edge.toList)
    (hversion : ∀ v ∈ version, '?' ∉ v.toList) : '?' ∉ (edgePath edge version).toList := by
  cases version with
  | none => simp [edgePath, hedge]
  | some v => simp [edgePath, hedge, hversion v rfl]

namespace Router

variable {r : Router} {edge query : String} {version : Option String}

theorem resolveTarget_query {path : String} (h : '?' ∉ path.toList) (r : Router)
    (method query : String) :
    r.resolveTarget method (path ++ "?" ++ query) =
      r.resolve method path (.ofQueryString query) := by
  have hcut : Text.cut '?' (path ++ "?" ++ query).toList = (path.toList, query.toList) := by
    have htarget : (path ++ "?" ++ query).toList = path.toList ++ '?' :: query.toList := by simp
    rw [Text.cut, htarget, Text.cut?_append h, Option.getD_some]
  rw [resolveTarget, hcut, String.ofList_toList, String.ofList_toList]

/-- The path of an edge is looked up as its name is. -/
theorem address_edgePath {a : Api} (hedge : IsSegment edge)
    (hselect : r.selectApi (edgePath edge version).toList = .ok (a, edge.toList)) :
    r.address (edgePath edge version) =
      match a.edge? edge with
      | some e => .ok ⟨a, e, none⟩
      | none => .error (.notFound ("/" ++ edge)) := by
  simp only [address, hselect, ok_bind, a.locate_name hedge]
  cases a.edge? edge <;> rfl

theorem selectApi_edgePath {s : Schema} {a : Api} (hs : s.offence? = none) (hr : r.apis = s.apis)
    (ha : Command.apiOf s version = .ok a) (hversion : ∀ v ∈ version, '/' ∉ v.toList)
    (edge : String) : r.selectApi (edgePath edge version).toList = .ok (a, edge.toList) := by
  cases version with
  | none =>
    have hpath : (edgePath edge none).toList = "/api/".toList ++ edge.toList := String.toList_append
    have hmain : a = r.main := by
      simpa [Command.apiOf, ← hr, apis, eq_comm] using ha
    rw [hpath, selectApi_unversioned (versioned?_api _), unversioned_api, hmain]
  | some v =>
    have hfound : s.api? v = some a := by
      cases h : s.api? v <;> simp_all [Command.apiOf]
    have hne : v ≠ "" := by
      obtain ⟨hmem, rfl⟩ := Schema.api?_eq_some hfound
      exact ((Schema.offence?_eq_none.mp hs).2.1 a hmem).1
    have hv : versioned? (edgePath edge (some v)).toList = some (v.toList, edge.toList) :=
      versioned?_eq_some.mpr ⟨by simp [edgePath], by simpa using hne, hversion v rfl⟩
    refine selectApi_served hv ?_
    rw [hr, String.ofList_toList]
    exact hfound

end Router

namespace Command

variable {d : Disk} {env : Environment} {settings : Settings} {s : Schema}
  {edge query : String} {version : Option String}

/-- A version that is asked for is served, and can stand in a target. -/
def Servable (s : Schema) (version : String) : Prop :=
  (∃ a ∈ s.apis, a.version = version) ∧ '/' ∉ version.toList ∧ '?' ∉ version.toList

theorem apiOf_ok (hs : s.offence? = none) (hversion : ∀ v ∈ version, ∃ a ∈ s.apis, a.version = v) :
    ∃ a, apiOf s version = .ok a := by
  cases version with
  | none =>
    obtain ⟨a, rest, hapis⟩ := List.exists_cons_of_ne_nil (Schema.offence?_eq_none.mp hs).1
    exact ⟨a, by simp [apiOf, hapis]⟩
  | some v =>
    obtain ⟨a, ha, rfl⟩ := hversion v rfl
    obtain ⟨found, hfound⟩ : ∃ found, s.api? a.version = some found := by
      refine Option.isSome_iff_exists.mp (List.find?_isSome.mpr ⟨a, ha, ?_⟩)
      simp
    exact ⟨found, by simp [apiOf, hfound]⟩

theorem alike_parseQuery_routeRequest (settings : Settings) (hs : s.offence? = none)
    (hedge : IsSegment edge) (hmark : '?' ∉ edge.toList) (hversion : ∀ v ∈ version, Servable s v)
    (query : String) :
    Alike (fun q r => r.query = q ∧ r.edge = edge ∧ r.id = none)
      (parseQuery settings s edge query version)
      (routeRequest settings s "GET" (edgeTarget edge query version)) := by
  obtain ⟨a, ha⟩ := apiOf_ok hs fun v hv => (hversion v hv).1
  obtain ⟨r, hr, hapis, hlimit⟩ :=
    Router.ofSchema_ok (d := settings.defaultLimit) (Schema.offence?_eq_none.mp hs).1
  have hpath := not_mem_edgePath hmark fun v hv => (hversion v hv).2.2
  have hselect := Router.selectApi_edgePath hs hapis ha (fun v hv => (hversion v hv).2.1) edge
  rw [parseQuery, routeRequest, ha, hr, ok_bind, ok_bind, edgeTarget,
    Router.resolveTarget_query hpath, Router.resolve_eq, Router.address_edgePath hedge hselect]
  cases he : a.edge? edge with
  | none => exact .error _
  | some e =>
    rw [ok_bind, hlimit]
    have hanswer := Address.answer_method ⟨a, e, none⟩ settings.defaultLimit .read
      (.ofQueryString query)
    change Alike _ _ (Address.answer _ _ Operation.read.method _)
    rw [hanswer]
    simp only
    cases Query.read e settings.defaultLimit (.ofQueryString query) with
    | error err => exact .error err
    | ok q => exact .ok ⟨rfl, (Api.edge?_eq_some he).2, rfl⟩

-- ---------------------------------------------------------------------------
-- Command lines
-- ---------------------------------------------------------------------------

def versionOption : Option String → List String
  | some version => ["-V=" ++ version]
  | none => []

/-- A command line that asks for a query, whatever the names in it look like. -/
def parseLine (edge query : String) (version : Option String) : List String :=
  "parse" :: versionOption version ++ ["--", edge, query]

def routeLine (target : String) : List String := ["route", "--", "GET", target]

theorem ofCommandLine?_parseLine (edge query : String) (version : Option String) :
    Invocation.ofCommandLine? (parseLine edge query version) =
      some (.parse edge query version .json) := by
  cases version with
  | none => rfl
  | some v =>
    have hoption : Argument.ofString ("-V=" ++ v) = .short 'V' (some v) := by
      have htext : ("-V=" ++ v).toList = '-' :: 'V' :: '=' :: v.toList := by simp
      simp [Argument.ofString, htext]
    have hread : Arguments.read? [.apiVersion, .format] ["-V=" ++ v, "--", edge, query] =
        some { words := [edge, query], switches := [(.apiVersion, v)] } := by
      rw [Arguments.read?, hoption]
      rfl
    change Invocation.ofArguments? "parse" ["-V=" ++ v, "--", edge, query] = _
    simp only [Invocation.ofArguments?, Invocation.ofArguments?.once, hread]
    rfl

theorem ofCommandLine?_routeLine (target : String) :
    Invocation.ofCommandLine? (routeLine target) = some (.route "GET" target .json) := rfl

/-- A query and the request for it fail with the same error, or the request holds the query and no
id; and the two commands print just that. -/
theorem parse_agrees_route (h : Stored env d settings s) (hedge : IsSegment edge)
    (hmark : '?' ∉ edge.toList) (hversion : ∀ v ∈ version, Servable s v) (query : String) :
    Invocation.ofCommandLine? (parseLine edge query version) =
        some (.parse edge query version .json) ∧
    Invocation.ofCommandLine? (routeLine (edgeTarget edge query version)) =
        some (.route "GET" (edgeTarget edge query version) .json) ∧
    ∀ arguments arguments' format format',
      Invocation.ofCommandLine? arguments = some (.parse edge query version format) →
      Invocation.ofCommandLine? arguments' =
        some (.route "GET" (edgeTarget edge query version) format') →
      (∃ e : Error,
        parseQuery settings s edge query version = .error e ∧
        routeRequest settings s "GET" (edgeTarget edge query version) = .error e ∧
        (run env arguments : StateM Disk Outcome).run d =
          ({ exitCode := 1, errors := e.report }, d) ∧
        (run env arguments' : StateM Disk Outcome).run d =
          ({ exitCode := 1, errors := e.report }, d)) ∨
      ∃ r : Request, r.edge = edge ∧ r.id = none ∧
        parseQuery settings s edge query version = .ok r.query ∧
        routeRequest settings s "GET" (edgeTarget edge query version) = .ok r ∧
        (run env arguments : StateM Disk Outcome).run d =
          ({ exitCode := 0, output := renderQuery format r.query }, d) ∧
        (run env arguments' : StateM Disk Outcome).run d =
          ({ exitCode := 0, output := renderRequest format' r }, d) := by
  refine ⟨ofCommandLine?_parseLine _ _ _, ofCommandLine?_routeLine _, ?_⟩
  intro arguments arguments' format format' hparse hroute
  have halike := alike_parseQuery_routeRequest settings h.offence? hedge hmark hversion query
  rw [run_parse h hparse, run_route h hroute]
  rcases halike.error_or_ok with ⟨e, hquery, hrequest⟩ | ⟨q, r, hr, hquery, hrequest⟩
  · rw [hquery, hrequest]
    exact .inl ⟨e, rfl, rfl, rfl, rfl⟩
  · obtain ⟨rfl, hname, hid⟩ := hr
    rw [hquery, hrequest]
    exact .inr ⟨r, hname, hid, rfl, rfl, rfl, rfl⟩

def sampleEnvironment : Environment := { root? := some "/srv" }

def sampleSettings : Settings := { root := ⟨"/srv"⟩, defaultLimit := 25 }

def sampleDisk : Disk :=
  ((Disk.blank.put ["srv"] .directory).put ["srv", "config.toml"]
    (.file (Text.utf8 sampleSettings.text.toList))).put ["srv", "schema.toml"]
    (.file (Text.utf8 Schema.sample.toToml.toList))

theorem stored_sampleDisk : Stored sampleEnvironment sampleDisk sampleSettings .sample :=
  .of_look rfl (by decide) (by decide) Schema.sample_offence? rfl rfl

-- a query string that starts with a question mark, and the window of the stored limit
theorem parse_agrees_route_users :
    Stored sampleEnvironment sampleDisk sampleSettings .sample ∧ IsSegment "users" ∧
    '?' ∉ "users".toList ∧ (∀ v ∈ some "1", Servable .sample v) ∧
    ∃ r : Request, r.edge = "users" ∧ r.id = none ∧
      parseQuery sampleSettings .sample "users" "?sort=-age&page=2" (some "1") = .ok r.query ∧
      routeRequest sampleSettings .sample "GET" "/v1/users??sort=-age&page=2" = .ok r ∧
      r.query.sort = [⟨"age", false⟩] ∧ r.query.window = some (.ofPage 2 25) ∧
      (run sampleEnvironment (parseLine "users" "?sort=-age&page=2" (some "1")) :
        StateM Disk Outcome).run sampleDisk =
        ({ exitCode := 0, output := renderQuery .json r.query }, sampleDisk) ∧
      (run sampleEnvironment (routeLine "/v1/users??sort=-age&page=2") :
        StateM Disk Outcome).run sampleDisk =
        ({ exitCode := 0, output := renderRequest .json r }, sampleDisk) := by
  have hedge : IsSegment "users" := by decide
  have hmark : '?' ∉ "users".toList := by decide
  have hversion : ∀ v ∈ some "1", Servable .sample v := by
    rintro _ ⟨⟩
    exact ⟨⟨_, List.mem_cons_self, rfl⟩, by decide, by decide⟩
  have hq : parseQuery sampleSettings .sample "users" "?sort=-age&page=2" (some "1") =
      .ok { sort := [⟨"age", false⟩], window := some (.ofPage 2 25) } := by decide +kernel
  obtain ⟨hparse, hroute, hagree⟩ :=
    parse_agrees_route stored_sampleDisk hedge hmark hversion "?sort=-age&page=2"
  refine ⟨stored_sampleDisk, hedge, hmark, hversion, ?_⟩
  rcases hagree _ _ _ _ hparse hroute with ⟨e, hfails, -⟩ | ⟨r, hname, hid, hquery, hagrees⟩
  · rw [hq] at hfails
    cases hfails
  · have hr := Except.ok.inj (hquery.symm.trans hq)
    exact ⟨r, hname, hid, hquery, hagrees.1, by rw [hr], by rw [hr], hagrees.2⟩

end Command

end RestQuery

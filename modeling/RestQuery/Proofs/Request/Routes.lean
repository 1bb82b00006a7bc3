import RestQuery.Proofs.Request.PathLaws
import RestQuery.Proofs.Schema.NamingLaws

/-!
# Paths and the requests they become

What a path that resolves looks like: a front, which decides the API, then the
edge and the id (`resolve_path`). From this follow the two ways to change a
path that keep the request: the path that is put together from a declared edge
leads to it (`resolve_declared`), and slashes at the end do not count unless
they complete a front (`resolve_append_slashes`).
-/

namespace RestQuery

open Text (trimEnd)

namespace Router

variable {r : Router} {path rest version : List Char} {a : Api}

-- ---------------------------------------------------------------------------
-- The API of a path
-- ---------------------------------------------------------------------------

/-- What stands before the resource in a path, and the API it is looked up in. -/
inductive Front (r : Router) : String → Api → Prop
  | version {a : Api} : r.apis.find? (·.version = a.version) = some a →
      Front r ("/v" ++ a.version ++ "/") a
  | main {before : String} : before ∈ ["/api/", "/", ""] → Front r before r.main

theorem selectApi_served (h : versioned? path = some (version, rest))
    (ha : r.apis.find? (·.version = .ofList version) = some a) :
    r.selectApi path = .ok (a, rest) := by
  simp [selectApi, h, ha]

theorem selectApi_unserved (h : versioned? path = some (version, rest))
    (hv : r.apis.find? (·.version = .ofList version) = none) :
    r.selectApi path =
      if (r.main.edge? (.ofList ('v' :: version))).isSome then .ok (r.main, unversioned path)
      else .error (.unservedVersion (.ofList version)) := by
  simp [selectApi, h, hv]

theorem selectApi_unversioned (h : versioned? path = none) :
    r.selectApi path = .ok (r.main, unversioned path) := by
  simp [selectApi, h]

theorem selectApi_ok (h : r.selectApi path = .ok (a, rest)) :
    (∃ version, versioned? path = some (version, rest) ∧
        r.apis.find? (·.version = .ofList version) = some a) ∨
      a = r.main ∧ rest = unversioned path := by
  cases hv : versioned? path with
  | none =>
    rw [selectApi_unversioned hv] at h
    cases h
    exact .inr ⟨rfl, rfl⟩
  | some found =>
    obtain ⟨version, rest'⟩ := found
    cases ha : r.apis.find? (·.version = .ofList version) with
    | some a' =>
      rw [selectApi_served hv ha] at h
      cases h
      exact .inl ⟨version, rfl, ha⟩
    | none =>
      rw [selectApi_unserved hv ha] at h
      split at h
      · cases h
        exact .inr ⟨rfl, rfl⟩
      · cases h

theorem exists_first (ha : a ∈ r.apis) :
    ∃ first, r.apis.find? (·.version = a.version) = some first := by
  cases h : r.apis.find? (·.version = a.version) with
  | some first => exact ⟨first, rfl⟩
  | none => exact absurd (List.find?_eq_none.mp h a ha) (by simp)

theorem front_of_selectApi (h : r.selectApi path = .ok (a, rest)) :
    ∃ before, r.Front before a ∧ path = before.toList ++ rest := by
  rcases selectApi_ok h with ⟨version, hv, ha⟩ | ⟨rfl, rfl⟩
  · have hversion : a.version = .ofList version := by simpa using List.find?_some ha
    obtain ⟨hpath, -, -⟩ := versioned?_eq_some.mp hv
    refine ⟨"/v" ++ a.version ++ "/", .version (by rw [hversion]; exact ha), ?_⟩
    simp [hpath, hversion]
  · obtain ⟨before, hbefore, hpath⟩ := unversioned_spec path
    exact ⟨before, .main hbefore, hpath⟩

-- ---------------------------------------------------------------------------
-- Requests
-- ---------------------------------------------------------------------------

theorem resolve_ok {method path : String} {p : Parameters} {req : Request} :
    r.resolve method path p = .ok req ↔ ∃ a resource e id operation query,
      r.selectApi path.toList = .ok (a, resource) ∧ a.locate resource = .ok (e, id) ∧
      Operation.ofMethod? method = some operation ∧
      Query.read e r.defaultLimit p = .ok query ∧
      req = { version := a.version, edge := e.name, id, operation, query } := by
  simp only [resolve, bind_ok, Prod.exists]
  constructor
  · rintro ⟨a, resource, ha, e, id, he, h⟩
    cases ho : Operation.ofMethod? method with
    | none => simp [ho, throw, throwThe, MonadExceptOf.throw] at h
    | some operation =>
      simp only [ho, bind_ok, pure_ok] at h
      obtain ⟨query, hq, rfl⟩ := h
      exact ⟨a, resource, e, id, operation, query, ha, he, rfl, hq, rfl⟩
  · rintro ⟨a, resource, e, id, operation, query, ha, he, ho, hq, rfl⟩
    refine ⟨a, resource, ha, e, id, he, ?_⟩
    simp only [ho, bind_ok, pure_ok]
    exact ⟨query, hq, rfl⟩

inductive Answer (r : Router) (a : Api) (method : String) (p : Parameters) :
    Except Error Request → Prop
  | served {req : Request} {e : Edge} : req.version = a.version → a.edge? req.edge = some e →
      Query.read e r.defaultLimit p = .ok req.query → Answer r a method p (.ok req)
  | notFound (resource : String) : Answer r a method p (.error (.notFound resource))
  | unknownMethod : Answer r a method p (.error (.unknownMethod method))
  | badQuery {e : Edge} {err : Error} : e ∈ a.edges →
      Query.read e r.defaultLimit p = .error err → Answer r a method p (.error err)

theorem answer_of_selectApi {method path : String} {p : Parameters} {resource : List Char}
    (h : r.selectApi path.toList = .ok (a, resource)) :
    r.Answer a method p (r.resolve method path p) := by
  simp only [resolve, h, ok_bind]
  cases hlocate : a.locate resource with
  | error err =>
    obtain rfl := Api.locate_error hlocate
    exact .notFound _
  | ok found =>
    obtain ⟨e, id⟩ := found
    obtain ⟨he, -⟩ := Api.locate_ok.mp hlocate
    rw [ok_bind]
    cases Operation.ofMethod? method with
    | none => exact .unknownMethod
    | some operation =>
      cases hq : Query.read e r.defaultLimit p with
      | error err => exact .badQuery (Api.edge?_eq_some he).1 hq
      | ok query => exact .served rfl he hq

def mediaRouter : Router where
  main := {
    version := "1"
    edges := [⟨"videos", ["title"], []⟩, ⟨"v1", ["id"], []⟩, ⟨"api", [], []⟩] }
  others := [{ version := "2", edges := [⟨"videos", ["id"], []⟩] }]

def mediaRequest : Request where
  version := "1"
  edge := "videos"
  id := some "3"
  operation := .patch
  query := { fields := ["title"] }

/-- A path that resolves is a front, the edge and the id, and slashes at the
end; a path that asks for a version is answered in that version or not at all. -/
theorem resolve_path (r : Router) (method path : String) (p : Parameters) :
    (∀ req, r.resolve method path p = .ok req → ∃ before a e,
      r.Front before a ∧ req.version = a.version ∧
      trimEnd (· = '/') path.toList = (before ++ resourcePath req.edge req.id).toList ∧
      (∀ id, req.id = some id → IsSegment id) ∧ a.edge? req.edge = some e ∧
      Query.read e r.defaultLimit p = .ok req.query) ∧
    ∀ version rest, IsSegment version → path = "/v" ++ version ++ "/" ++ rest →
      ((∃ a ∈ r.apis, a.version = version) → ∃ a, r.apis.find? (·.version = version) = some a ∧
        r.Answer a method p (r.resolve method path p)) ∧
      ((∀ a ∈ r.apis, a.version ≠ version) → r.main.edge? ("v" ++ version) = none →
        r.resolve method path p = .error (.unservedVersion version)) := by
  constructor
  · intro req h
    obtain ⟨a, resource, e, id, operation, query, ha, hlocate, -, hq, rfl⟩ := resolve_ok.mp h
    obtain ⟨before, hfront, hpath⟩ := front_of_selectApi ha
    obtain ⟨he, hsegment, hid, htrim⟩ := Api.locate_ok.mp hlocate
    refine ⟨before, a, e, hfront, rfl, ?_, hid, he, hq⟩
    -- the resource is more than slashes, so trimming the path trims the resource
    have hne : trimEnd (· = '/') resource ≠ [] := htrim ▸ resourcePath_ne_nil hsegment
    rw [hpath, Text.trimEnd_append_of_ne_nil hne, htrim, String.toList_append]
  · rintro version rest ⟨hne, hslash⟩ rfl
    have hv : versioned? ("/v" ++ version ++ "/" ++ rest).toList =
        some (version.toList, rest.toList) :=
      versioned?_eq_some.mpr ⟨by simp, by simpa using hne, hslash⟩
    constructor
    · rintro ⟨a, ha, rfl⟩
      obtain ⟨first, hfirst⟩ := exists_first ha
      exact ⟨first, hfirst, answer_of_selectApi (selectApi_served hv (by simpa using hfirst))⟩
    · intro hunserved hedge
      have hfind : r.apis.find? (·.version = version) = none := by
        simpa [List.find?_eq_none] using hunserved
      have hselect := selectApi_unserved hv (by simpa using hfind)
      have hedge' : r.main.edge? (.ofList ('v' :: version.toList)) = none := by
        rw [← hedge, String.ofList_cons, String.ofList_toList]
        rfl
      rw [resolve, hselect, hedge', String.ofList_toList]
      rfl

theorem resolve_path_media :
    mediaRouter.resolve "PATCH" "/videos/3//" (.ofQueryString "?fields=title") =
      .ok mediaRequest ∧
    (∃ before a e, mediaRouter.Front before a ∧ mediaRequest.version = a.version ∧
      trimEnd (· = '/') "/videos/3//".toList = (before ++ resourcePath "videos" (some "3")).toList ∧
      (∀ id, some "3" = some id → IsSegment id) ∧ a.edge? "videos" = some e ∧
      Query.read e standardLimit (.ofQueryString "?fields=title") = .ok mediaRequest.query) ∧
    (∃ a, mediaRouter.apis.find? (·.version = "2") = some a ∧
      mediaRouter.Answer a "GET" .empty (mediaRouter.resolve "GET" "/v2/v1" .empty)) ∧
    mediaRouter.resolve "GET" "/v9/videos" .empty = .error (.unservedVersion "9") := by
  have h : mediaRouter.resolve "PATCH" "/videos/3//" (.ofQueryString "?fields=title") =
      .ok mediaRequest := rfl
  obtain ⟨hpath, -⟩ := resolve_path mediaRouter "PATCH" "/videos/3//" (.ofQueryString "?fields=title")
  obtain ⟨-, hserved⟩ := resolve_path mediaRouter "GET" "/v2/v1" .empty
  obtain ⟨-, hunserved⟩ := resolve_path mediaRouter "GET" "/v9/videos" .empty
  refine ⟨h, hpath _ h, ?_, ?_⟩
  · exact (hserved "2" "v1" (by decide) rfl).1 (by decide)
  · exact (hunserved "9" "videos" (by decide) rfl).2 (by decide) rfl

-- ---------------------------------------------------------------------------
-- The path of an edge
-- ---------------------------------------------------------------------------

theorem ofSchema_ok {s : Schema} {d : UInt64} (h : s.apis ≠ []) :
    ∃ r, ofSchema s d = .ok r ∧ r.apis = s.apis ∧ r.defaultLimit = d := by
  unfold ofSchema
  cases hs : s.apis with
  | nil => exact absurd hs h
  | cons main others => exact ⟨_, rfl, rfl, rfl⟩

/-- Without a version, all of a versioned path but its first slash would be the
resource, which is longer than the path of the edge alone. -/
theorem locate_whole_path {a : Api} {version name : String} {id : Option String} {e : Edge}
    (hname : IsSegment name) (hid : ∀ i, id = some i → IsSegment i)
    (h : a.locate (unversioned ("/v" ++ version ++ "/" ++ resourcePath name id).toList) =
      .ok (e, id)) : e.name ≠ name := by
  rintro rfl
  obtain ⟨-, -, -, htrim⟩ := Api.locate_ok.mp h
  have hpath : unversioned ("/v" ++ version ++ "/" ++ resourcePath e.name id).toList =
      ('v' :: (version.toList ++ ['/'])) ++ (resourcePath e.name id).toList := by
    simp [unversioned_of_ne]
  have htrimmed := trimEnd_resourcePath hname hid
  have hne : trimEnd (· = '/') (resourcePath e.name id).toList ≠ [] := by
    rw [htrimmed]
    exact resourcePath_ne_nil hname
  rw [hpath, Text.trimEnd_append_of_ne_nil hne, htrimmed] at htrim
  have hlength := congrArg List.length htrim
  simp only [List.length_append, List.length_cons] at hlength
  omega

/-- In a router for a well-named schema the path of an edge leads to it, under
the version it is declared in, if that version can stand in a path at all. -/
theorem resolve_declared {s : Schema} (hs : s.offence? = none) (d : UInt64) :
    ∃ r, ofSchema s d = .ok r ∧ ∀ a ∈ s.apis, ∀ e ∈ a.edges, ∀ id,
      (∀ i, id = some i → IsSegment i) → ∀ (operation : Operation) p query,
      Query.read e d p = .ok query →
      (r.resolve operation.method ("/v" ++ a.version ++ "/" ++ resourcePath e.name id) p =
          .ok { version := a.version, edge := e.name, id, operation, query } ↔
        '/' ∉ a.version.toList) := by
  obtain ⟨hne, hapis, hversions⟩ := Schema.offence?_eq_none.mp hs
  obtain ⟨r, hr, hrapis, rfl⟩ := ofSchema_ok (d := d) hne
  refine ⟨r, hr, fun a ha e he id hid operation p query hq => ?_⟩
  obtain ⟨hversion, hedges, hnames⟩ := hapis a ha
  have hsegment : IsSegment e.name := ⟨(hedges e he).1, (hedges e he).2.1⟩
  constructor
  · intro h hslash
    obtain ⟨a', resource, e', id', _, _, hselect, hlocate, -, -, hreq⟩ := resolve_ok.mp h
    obtain ⟨hversion', hname, rfl, -, -⟩ := Request.mk.inj hreq
    rcases selectApi_ok hselect with ⟨version, hv, hfind⟩ | ⟨rfl, rfl⟩
    · -- the version in the path ends at a slash, so it is not this one
      have : a'.version = .ofList version := by simpa using List.find?_some hfind
      obtain ⟨-, -, hno⟩ := versioned?_eq_some.mp hv
      rw [hversion', this, String.toList_ofList] at hslash
      exact hno hslash
    · exact locate_whole_path hsegment hid hlocate hname.symm
  · intro hslash
    have hv : versioned? ("/v" ++ a.version ++ "/" ++ resourcePath e.name id).toList =
        some (a.version.toList, (resourcePath e.name id).toList) :=
      versioned?_eq_some.mpr ⟨by simp, by simpa using hversion, hslash⟩
    have hfind : r.apis.find? (·.version = .ofList a.version.toList) = some a := by
      rw [hrapis, String.ofList_toList]
      exact find?_of_nodup_map hversions ha
    have hlocate : a.locate (resourcePath e.name id).toList = .ok (e, id) :=
      Api.locate_ok.mpr ⟨(hapis a ha).edge? he, hsegment, hid, trimEnd_resourcePath hsegment hid⟩
    exact resolve_ok.mpr ⟨a, _, e, id, operation, query, selectApi_served hv hfind, hlocate,
      Operation.ofMethod?_eq_some.mpr rfl, hq, rfl⟩

theorem resolve_declared_media :
    Schema.offence? ⟨mediaRouter.apis⟩ = none ∧ ∃ r, ofSchema ⟨mediaRouter.apis⟩ = .ok r ∧
      r.resolve "PATCH" "/v1/videos/3" (.ofQueryString "?fields=title") = .ok mediaRequest := by
  have hs : Schema.offence? ⟨mediaRouter.apis⟩ = none := by decide
  obtain ⟨r, hr, h⟩ := resolve_declared hs standardLimit
  have hvideo := h mediaRouter.main List.mem_cons_self ⟨"videos", ["title"], []⟩
    List.mem_cons_self (some "3") (by rintro _ ⟨⟩; decide) .patch
    (.ofQueryString "?fields=title") mediaRequest.query rfl
  exact ⟨hs, r, hr, hvideo.mpr (by decide)⟩

/-- The naming rules allow a slash in a version, and no path leads to its edges. -/
def slashedSchema : Schema := ⟨[{ version := "1/2", edges := [⟨"users", ["id"], []⟩] }]⟩

theorem unresolved_slashed_version :
    slashedSchema.offence? = none ∧ ∃ r, ofSchema slashedSchema = .ok r ∧
      Query.read ⟨"users", ["id"], []⟩ standardLimit .empty = .ok {} ∧
      r.resolve "GET" "/v1/2/users" .empty = .error (.unservedVersion "1") :=
  ⟨by decide, _, rfl, rfl, rfl⟩

-- ---------------------------------------------------------------------------
-- Slashes at the end of a path
-- ---------------------------------------------------------------------------

/-- All of a front but its last slash: one more slash makes it that front. -/
def IsBareFront (r : Router) (path : String) : Prop :=
  path = "/api" ∨ ∃ a ∈ r.apis, IsSegment a.version ∧ path = "/v" ++ a.version

instance (r : Router) (path : String) : Decidable (r.IsBareFront path) := by
  unfold IsBareFront
  infer_instance

theorem selectApi_append_slashes_of_versioned {n : Nat} {resource : List Char}
    (hv : versioned? path = some (version, rest))
    (hmore : unversioned (path ++ List.replicate n '/') = unversioned path ++ List.replicate n '/')
    (h : r.selectApi path = .ok (a, resource)) :
    r.selectApi (path ++ List.replicate n '/') = .ok (a, resource ++ List.replicate n '/') := by
  have hv' := versioned?_append (List.replicate n '/') hv
  cases hfind : r.apis.find? (·.version = .ofList version) with
  | some first =>
    rw [selectApi_served hv hfind] at h
    cases h
    exact selectApi_served hv' hfind
  | none =>
    rw [selectApi_unserved hv hfind] at h
    rw [selectApi_unserved hv' hfind, hmore]
    split at h
    · rename_i hedge
      cases h
      exact if_pos hedge
    · cases h

theorem isBareFront_of_served {n : Nat} (hv : versioned? path = none)
    (hv' : versioned? (path ++ List.replicate n '/') = some (version, rest))
    (ha : r.apis.find? (·.version = .ofList version) = some a) :
    r.IsBareFront (.ofList path) := by
  obtain rfl := eq_of_versioned?_append_slashes hv hv'
  obtain ⟨-, hne, hslash⟩ := versioned?_eq_some.mp hv'
  have hversion : a.version = .ofList version := by simpa using List.find?_some ha
  refine .inr ⟨a, List.mem_of_find?_eq_some ha, ?_, ?_⟩
  · rw [hversion]
    exact ⟨by simpa using hne, by simpa using hslash⟩
  · rw [hversion, String.ofList_cons, String.ofList_cons, ← String.append_assoc]
    rfl

theorem selectApi_append_slashes {e : Edge} {id : Option String} {n : Nat}
    (hpath : ¬r.IsBareFront (.ofList path)) (h : r.selectApi path = .ok (a, rest))
    (he : a.locate rest = .ok (e, id)) :
    r.selectApi (path ++ List.replicate n '/') = .ok (a, rest ++ List.replicate n '/') := by
  have hne : path ≠ [] := by
    rintro rfl
    cases h
    cases he
  have hapi : path ≠ "/api".toList := by
    rintro rfl
    exact hpath (.inl rfl)
  have hmore := unversioned_append_slashes n hne hapi
  cases hv : versioned? path with
  | some found => exact selectApi_append_slashes_of_versioned hv hmore h
  | none =>
    rw [selectApi_unversioned hv] at h
    cases h
    cases hv' : versioned? (path ++ List.replicate n '/') with
    | none => rw [selectApi_unversioned hv', hmore]
    | some found =>
      obtain ⟨version, rest⟩ := found
      cases hfind : r.apis.find? (·.version = .ofList version) with
      | some first => exact absurd (isBareFront_of_served hv hv' hfind) hpath
      | none =>
        -- the path names an edge of the main API, which goes before a version that is not served
        obtain rfl := eq_of_versioned?_append_slashes hv hv'
        have hslash := (versioned?_eq_some.mp hv').2.2
        have hlocate : r.main.locate (String.ofList ('v' :: version)).toList = .ok (e, id) := by
          rwa [String.toList_ofList, ← unversioned_of_ne (by decide)]
        have hedge : r.main.edge? (.ofList ('v' :: version)) = some e :=
          Api.locate_segment ⟨by simp, by simpa using hslash⟩ hlocate
        rw [selectApi_unserved hv' hfind, hedge, hmore]
        rfl

theorem resolve_of_locate_error {method path : String} {p : Parameters} {resource : List Char}
    {err : Error} (h : r.selectApi path.toList = .ok (a, resource))
    (he : a.locate resource = .error err) : r.resolve method path p = .error err := by
  simp only [resolve, h, ok_bind, he, error_bind]

theorem locate_slashes (a : Api) (n : Nat) :
    a.locate (List.replicate n '/') = .error (.notFound "/") := by
  rw [← List.nil_append (List.replicate n '/'), Api.locate_append_slashes]
  rfl

/-- Slashes at the end of a path do not change a request, unless the first of
them completes a front: then no resource is left. -/
theorem resolve_append_slashes {method path : String} {p : Parameters} {req : Request}
    (h : r.resolve method path p = .ok req) (n : Nat) :
    (¬r.IsBareFront path →
      r.resolve method (path ++ .ofList (List.replicate n '/')) p = .ok req) ∧
    (r.IsBareFront path →
      r.resolve method (path ++ .ofList (List.replicate (n + 1) '/')) p =
        .error (.notFound "/")) := by
  constructor
  · intro hpath
    obtain ⟨a, resource, e, id, operation, query, ha, he, ho, hq, rfl⟩ := resolve_ok.mp h
    refine resolve_ok.mpr
      ⟨a, resource ++ List.replicate n '/', e, id, operation, query, ?_, ?_, ho, hq, rfl⟩
    · rw [String.toList_append, String.toList_ofList]
      exact selectApi_append_slashes (by rwa [String.ofList_toList]) ha he
    · rw [Api.locate_append_slashes, he]
  · rintro (rfl | ⟨a, ha, hversion, rfl⟩)
    · have hpath : ("/api" ++ String.ofList (List.replicate (n + 1) '/')).toList =
          "/api/".toList ++ List.replicate n '/' := by
        simp [List.replicate_succ]
      have hselect : r.selectApi ("/api" ++ String.ofList (List.replicate (n + 1) '/')).toList =
          .ok (r.main, List.replicate n '/') := by
        rw [hpath, selectApi_unversioned (versioned?_api _), unversioned_api]
      exact resolve_of_locate_error hselect (locate_slashes _ n)
    · have hpath : ("/v" ++ a.version ++ String.ofList (List.replicate (n + 1) '/')).toList =
          '/' :: 'v' :: (a.version.toList ++ '/' :: List.replicate n '/') := by
        simp [List.replicate_succ]
      have hv := versioned?_eq_some.mpr ⟨hpath, by simpa using hversion.1, hversion.2⟩
      obtain ⟨first, hfirst⟩ := exists_first ha
      exact resolve_of_locate_error (selectApi_served hv (by simpa using hfirst))
        (locate_slashes first n)

theorem resolve_append_slashes_media :
    mediaRouter.resolve "PATCH" "/api/videos/3///" (.ofQueryString "?fields=title") =
      .ok mediaRequest ∧
    mediaRouter.resolve "GET" "/api" .empty =
      .ok { version := "1", edge := "api", id := none, operation := .read, query := {} } ∧
    mediaRouter.resolve "GET" "/api//" .empty = .error (.notFound "/") := by
  have hvideo : mediaRouter.resolve "PATCH" "/api/videos/3" (.ofQueryString "?fields=title") =
      .ok mediaRequest := rfl
  have hapi : mediaRouter.resolve "GET" "/api" .empty =
      .ok { version := "1", edge := "api", id := none, operation := .read, query := {} } := rfl
  exact ⟨(resolve_append_slashes hvideo 3).1 (by decide), hapi,
    (resolve_append_slashes hapi 1).2 (by decide)⟩

/-- In a router for a well-named schema a slash can take an edge away. -/
theorem slash_completes_front :
    Schema.offence? ⟨mediaRouter.apis⟩ = none ∧ ofSchema ⟨mediaRouter.apis⟩ = .ok mediaRouter ∧
      mediaRouter.resolve "GET" "/v1" .empty =
        .ok { version := "1", edge := "v1", id := none, operation := .read, query := {} } ∧
      mediaRouter.resolve "GET" "/v1/" .empty = .error (.notFound "/") :=
  ⟨by decide, rfl, rfl, rfl⟩

end Router

end RestQuery

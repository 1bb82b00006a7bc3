import RestQuery.Proofs.Query.Dependence
import RestQuery.Proofs.Request.Addresses
import RestQuery.Proofs.Schema.Changes

/-!
# Growing a schema keeps every answer

An edge grows by field names anywhere and by relations at the end; an API by
edges at the end; a router by APIs at the end. Every lookup that found
something still finds it, grown, so a query that was read is read again and a
request that was resolved is resolved again (`resolve_grows`). Only a new API
could take a path away: `/v7/…` may have been a record of an edge `v7` of the
main API, and so no new version may make such a front.
-/

namespace RestQuery

/-- The edge `e'` is `e` with more fields, and with more relations at the end. -/
structure Edge.Grows (e e' : Edge) : Prop where
  name : e'.name = e.name
  fields : e.fields.Sublist e'.fields
  relations : e.relations <+: e'.relations

structure Api.Grows (a a' : Api) : Prop where
  version : a'.version = a.version
  edges : Extended Edge.Grows (fun _ => True) a.edges a'.edges

/-- The router `r'` is `r` with its APIs grown, and with more APIs at the end,
whose versions are not those of an edge `v…` of the main API. -/
structure Router.Grows (r r' : Router) : Prop where
  defaultLimit : r'.defaultLimit = r.defaultLimit
  main : r.main.Grows r'.main
  others : Extended Api.Grows (fun a => r.main.edge? ("v" ++ a.version) = none) r.others r'.others

-- ---------------------------------------------------------------------------
-- Edges
-- ---------------------------------------------------------------------------

namespace Edge.Grows

variable {e e' : Edge} (h : e.Grows e')
include h

theorem embedded? {name : String} {rel : Relation} (hrel : e.embedded? name = some rel) :
    e'.embedded? name = some rel := by
  obtain ⟨more, hmore⟩ := h.relations
  rw [Edge.embedded?] at hrel
  rw [Edge.embedded?, ← hmore, List.find?_append, hrel]
  rfl

theorem read {d : UInt64} {p : Parameters} {q : Query} (hq : Query.read e d p = .ok q) :
    Query.read e' d p = .ok q :=
  Query.read_mono (fun _ hname => h.fields.subset hname) (fun _ _ hrel => h.embedded? hrel) hq

end Edge.Grows

-- ---------------------------------------------------------------------------
-- APIs
-- ---------------------------------------------------------------------------

namespace Api.Grows

variable {a a' : Api} (h : a.Grows a')
include h

theorem edge? {name : String} {e : Edge} (he : a.edge? name = some e) :
    ∃ e', a'.edge? name = some e' ∧ e.Grows e' :=
  h.edges.find?_eq_some (fun e e' hgrows => by rw [hgrows.name]) he

theorem locate {resource : List Char} {e : Edge} {id : Option String}
    (hlocate : a.locate resource = .ok (e, id)) :
    ∃ e', a'.locate resource = .ok (e', id) ∧ e.Grows e' := by
  obtain ⟨he, hsegment, hid, htrim⟩ := Api.locate_ok.mp hlocate
  obtain ⟨e', he', hgrows⟩ := h.edge? he
  rw [← hgrows.name] at he' hsegment htrim
  exact ⟨e', Api.locate_ok.mpr ⟨he', hsegment, hid, htrim⟩, hgrows⟩

end Api.Grows

-- ---------------------------------------------------------------------------
-- Routers
-- ---------------------------------------------------------------------------

namespace Router.Grows

variable {r r' : Router} (h : r.Grows r')
include h

theorem apis : Extended Api.Grows (fun a => r.main.edge? ("v" ++ a.version) = none)
    r.apis r'.apis :=
  h.others.cons h.main

theorem api? {version : String} {a : Api} (ha : r.apis.find? (·.version = version) = some a) :
    ∃ a', r'.apis.find? (·.version = version) = some a' ∧ a.Grows a' :=
  h.apis.find?_eq_some (fun a a' hgrows => by rw [hgrows.version]) ha

theorem api?_eq_none {version : String} {e : Edge}
    (ha : r.apis.find? (·.version = version) = none)
    (he : r.main.edge? ("v" ++ version) = some e) :
    r'.apis.find? (·.version = version) = none := by
  refine h.apis.find?_eq_none (fun a a' hgrows => by rw [hgrows.version]) ?_ ha
  intro a hnew
  simp only [decide_eq_false_iff_not]
  rintro rfl
  rw [hnew] at he
  cases he

theorem selectApi {path rest : List Char} {a : Api} (hselect : r.selectApi path = .ok (a, rest)) :
    ∃ a', r'.selectApi path = .ok (a', rest) ∧ a.Grows a' := by
  cases hv : versioned? path with
  | none =>
    rw [selectApi_unversioned hv] at hselect
    cases hselect
    exact ⟨r'.main, selectApi_unversioned hv, h.main⟩
  | some found =>
    obtain ⟨version, resource⟩ := found
    cases ha : r.apis.find? (·.version = .ofList version) with
    | some first =>
      rw [selectApi_served hv ha] at hselect
      cases hselect
      obtain ⟨a', ha', hgrows⟩ := h.api? ha
      exact ⟨a', selectApi_served hv ha', hgrows⟩
    | none =>
      rw [selectApi_unserved hv ha] at hselect
      split at hselect
      · rename_i hedge
        cases hselect
        obtain ⟨e, he⟩ := Option.isSome_iff_exists.mp hedge
        obtain ⟨e', he', -⟩ := h.main.edge? he
        refine ⟨r'.main, ?_, h.main⟩
        rw [selectApi_unserved hv (h.api?_eq_none ha (by simpa [String.ofList_cons] using he)), he']
        rfl
      · cases hselect

theorem address {path : String} {x : Address} (hx : r.address path = .ok x) :
    ∃ x', r'.address path = .ok x' ∧ x'.api.version = x.api.version ∧ x.edge.Grows x'.edge ∧
      x'.id = x.id := by
  simp only [Router.address, bind_ok, pure_ok, Prod.exists] at hx ⊢
  obtain ⟨a, rest, hselect, e, id, hlocate, rfl⟩ := hx
  obtain ⟨a', hselect', ha⟩ := h.selectApi hselect
  obtain ⟨e', hlocate', he⟩ := ha.locate hlocate
  exact ⟨⟨a', e', id⟩, ⟨a', rest, hselect', e', id, hlocate', rfl⟩, ha.version, he, rfl⟩

end Router.Grows

namespace Router

/-- What was read against an edge, or resolved by a router, stays as it was
when the edge or the router grows. -/
theorem resolve_grows :
    (∀ e e', Edge.Grows e e' → ∀ d p q, Query.read e d p = .ok q → Query.read e' d p = .ok q) ∧
    ∀ r r', Grows r r' → ∀ method path p req, r.resolve method path p = .ok req →
      r'.resolve method path p = .ok req := by
  refine ⟨fun _ _ h _ _ _ hq => h.read hq, ?_⟩
  intro r r' h method path p req hreq
  rw [resolve_eq, bind_ok] at hreq
  obtain ⟨x, hx, hanswer⟩ := hreq
  obtain ⟨operation, query, hmethod, hquery, rfl⟩ := Address.answer_ok.mp hanswer
  obtain ⟨x', hx', hversion, hedge, hid⟩ := h.address hx
  rw [resolve_of_address hx', Address.answer_ok, h.defaultLimit]
  refine ⟨operation, query, hmethod, hedge.read hquery, ?_⟩
  rw [Address.request, Address.request, hversion, hedge.name, hid]

/-- More of everything: fields before and between, relations, edges, and APIs,
one of them of a version that is served already. -/
def grownMediaRouter : Router where
  main := {
    version := "1"
    edges := [⟨"videos", ["id", "title", "year"], [⟨"cover", "covers", .oneToOne⟩]⟩,
      ⟨"v1", ["id"], []⟩, ⟨"api", ["id"], []⟩, ⟨"videos", [], []⟩, ⟨"v3", [], []⟩] }
  others := [{ version := "2", edges := [⟨"videos", ["id"], []⟩, ⟨"users", [], []⟩] },
    { version := "3", edges := [⟨"videos", [], []⟩] }, { version := "2" }]

theorem resolve_grows_media :
    Edge.Grows ⟨"videos", ["title"], []⟩
      ⟨"videos", ["id", "title", "year"], [⟨"cover", "covers", .oneToOne⟩]⟩ ∧
    Query.read ⟨"videos", ["id", "title", "year"], [⟨"cover", "covers", .oneToOne⟩]⟩ 10
      (.ofQueryString "?fields=title") = .ok { fields := ["title"] } ∧
    mediaRouter.Grows grownMediaRouter ∧
    mediaRouter.resolve "PATCH" "/videos/3" (.ofQueryString "?fields=title") = .ok mediaRequest ∧
    grownMediaRouter.resolve "PATCH" "/videos/3" (.ofQueryString "?fields=title") =
      .ok mediaRequest := by
  have hvideos : Edge.Grows ⟨"videos", ["title"], []⟩
      ⟨"videos", ["id", "title", "year"], [⟨"cover", "covers", .oneToOne⟩]⟩ :=
    ⟨rfl, by decide, List.nil_prefix⟩
  have hid {name : String} : Edge.Grows ⟨name, ["id"], []⟩ ⟨name, ["id"], []⟩ :=
    ⟨rfl, .refl _, List.nil_prefix⟩
  have hapi : Edge.Grows ⟨"api", [], []⟩ ⟨"api", ["id"], []⟩ :=
    ⟨rfl, List.nil_sublist _, List.nil_prefix⟩
  have hmain : mediaRouter.main.Grows grownMediaRouter.main :=
    ⟨rfl, _, [⟨"videos", [], []⟩, ⟨"v3", [], []⟩], rfl,
      .cons hvideos (.cons hid (.cons hapi .nil)), fun _ _ => trivial⟩
  have hsecond : Api.Grows { version := "2", edges := [⟨"videos", ["id"], []⟩] }
      { version := "2", edges := [⟨"videos", ["id"], []⟩, ⟨"users", [], []⟩] } :=
    ⟨rfl, _, [⟨"users", [], []⟩], rfl, .cons hid .nil, fun _ _ => trivial⟩
  have hgrows : mediaRouter.Grows grownMediaRouter :=
    ⟨rfl, hmain, [_], _, rfl, .cons hsecond .nil, by decide⟩
  have hreq : mediaRouter.resolve "PATCH" "/videos/3" (.ofQueryString "?fields=title") =
      .ok mediaRequest := rfl
  exact ⟨hvideos, resolve_grows.1 _ _ hvideos _ _ _ rfl, hgrows, hreq,
    resolve_grows.2 _ _ hgrows _ _ _ _ hreq⟩

-- a new version that makes a front of an edge of the main API does take its path away
example : ({ mediaRouter with others := [⟨"ideos", []⟩] } : Router).resolve "PATCH" "/videos/3"
    (.ofQueryString "?fields=title") = .error (.notFound "/3") := rfl

end Router

end RestQuery

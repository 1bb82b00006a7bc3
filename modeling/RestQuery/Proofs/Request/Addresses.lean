import RestQuery.Proofs.Request.Routes

/-!
# The path, then the method, then the query

`Router.address` is what a path says by itself: an API, an edge of it and
perhaps an id. Method and parameters are looked at only there (`resolve_eq`).
So a path fails in one way for every request, or else leads to one edge, where
an unknown method fails before any query is read, and the query decides the
rest (`resolve_precedence`).
-/

namespace RestQuery

/-- What a path leads to: an edge of an API, or a record of it. -/
structure Address where
  api : Api
  edge : Edge
  id : Option String

namespace Address

def request (x : Address) (operation : Operation) (query : Query) : Request :=
  { version := x.api.version, edge := x.edge.name, id := x.id, operation, query }

def answer (x : Address) (d : UInt64) (method : String) (p : Parameters) :
    Except Error Request :=
  match Operation.ofMethod? method with
  | none => .error (.unknownMethod method)
  | some operation => x.request operation <$> Query.read x.edge d p

end Address

theorem Operation.ofMethod?_eq_none {method : String} :
    ofMethod? method = none ↔ method ∉ ["GET", "POST", "PUT", "PATCH", "DELETE"] := by
  simp [ofMethod?, all, Operation.method, eq_comm (b := method)]

namespace Address

variable {x : Address} {d : UInt64}

theorem answer_method (x : Address) (d : UInt64) (operation : Operation) (p : Parameters) :
    x.answer d operation.method p = x.request operation <$> Query.read x.edge d p := by
  rw [answer, Operation.ofMethod?_eq_some.mpr rfl]

theorem answer_unknown {method : String} (h : Operation.ofMethod? method = none)
    (p : Parameters) : x.answer d method p = .error (.unknownMethod method) := by
  rw [answer, h]

theorem answer_ok {method : String} {p : Parameters} {req : Request} :
    x.answer d method p = .ok req ↔ ∃ operation query,
      Operation.ofMethod? method = some operation ∧ Query.read x.edge d p = .ok query ∧
      x.request operation query = req := by
  unfold answer
  cases Operation.ofMethod? method <;> simp [map_ok]

theorem id_of_answer {method : String} {p : Parameters} {req : Request}
    (h : x.answer d method p = .ok req) : req.id = x.id := by
  obtain ⟨operation, query, -, -, rfl⟩ := answer_ok.mp h
  rfl

end Address

namespace Router

variable {r : Router} {path : String} {x : Address}

def address (r : Router) (path : String) : Except Error Address := do
  let (api, resource) ← r.selectApi path.toList
  let (edge, id) ← api.locate resource
  return ⟨api, edge, id⟩

/-- The parts of a request are looked at one after the other. -/
theorem resolve_eq (r : Router) (method path : String) (p : Parameters) :
    r.resolve method path p = r.address path >>= fun x => x.answer r.defaultLimit method p := by
  simp only [resolve, address, bind_assoc]
  refine bind_congr fun selected => bind_congr fun located => ?_
  rw [pure_bind, Address.answer]
  cases Operation.ofMethod? method with
  | none => rfl
  | some operation => cases Query.read located.1 r.defaultLimit p <;> rfl

-- ---------------------------------------------------------------------------
-- What a path decides
-- ---------------------------------------------------------------------------

/-- No request along the path finds an edge, whatever its method and parameters. -/
def Unresolved (r : Router) (path : String) : Prop :=
  ∃ err, ((∃ version, err = .unservedVersion version) ∨ ∃ resource, err = .notFound resource) ∧
    ∀ method p, r.resolve method path p = .error err

/-- Every request along the path finds this edge and this id: the method is
looked at first, and only a method that is known has the parameters read. -/
structure LeadsTo (r : Router) (path : String) (a : Api) (e : Edge) (id : Option String) :
    Prop where
  api : a ∈ r.apis
  edge : e ∈ a.edges
  unknown : ∀ method ∉ ["GET", "POST", "PUT", "PATCH", "DELETE"], ∀ p,
    r.resolve method path p = .error (.unknownMethod method)
  refused : ∀ (operation : Operation) p err, Query.read e r.defaultLimit p = .error err →
    r.resolve operation.method path p = .error err
  served : ∀ (operation : Operation) p query, Query.read e r.defaultLimit p = .ok query →
    r.resolve operation.method path p =
      .ok { version := a.version, edge := e.name, id, operation, query, body := none }

theorem selectApi_error {path : List Char} {err : Error} (h : r.selectApi path = .error err) :
    ∃ version, err = .unservedVersion version := by
  unfold selectApi at h
  split at h
  · cases h
  · split at h
    · cases h
    · split at h
      · cases h
      · cases h
        exact ⟨_, rfl⟩

theorem selectApi_mem {path rest : List Char} {a : Api} (h : r.selectApi path = .ok (a, rest)) :
    a ∈ r.apis := by
  rcases selectApi_ok h with ⟨_, _, ha⟩ | ⟨rfl, -⟩
  · exact List.mem_of_find?_eq_some ha
  · exact List.mem_cons_self

theorem address_error {err : Error} (h : r.address path = .error err) :
    (∃ version, err = .unservedVersion version) ∨ ∃ resource, err = .notFound resource := by
  simp only [address, bind_error, pure_ne_error, and_false, exists_false, or_false,
    Prod.exists] at h
  rcases h with hselect | ⟨a, resource, -, hlocate⟩
  · exact .inl (selectApi_error hselect)
  · exact .inr ⟨_, Api.locate_error hlocate⟩

theorem resolve_of_address_error {err : Error} (h : r.address path = .error err) (method : String)
    (p : Parameters) : r.resolve method path p = .error err := by
  rw [resolve_eq, h, error_bind]

theorem resolve_of_address (h : r.address path = .ok x) (method : String) (p : Parameters) :
    r.resolve method path p = x.answer r.defaultLimit method p := by
  rw [resolve_eq, h, ok_bind]

theorem leadsTo_of_address (h : r.address path = .ok x) : r.LeadsTo path x.api x.edge x.id := by
  have hanswer := resolve_of_address h
  simp only [address, bind_ok, pure_ok, Prod.exists] at h
  obtain ⟨a, resource, ha, e, id, hl, rfl⟩ := h
  refine ⟨selectApi_mem ha, (Api.edge?_eq_some (Api.locate_ok.mp hl).1).1, ?_, ?_, ?_⟩
  · intro method hmethod p
    rw [hanswer, Address.answer_unknown (Operation.ofMethod?_eq_none.mpr hmethod)]
  · intro operation p err hq
    rw [hanswer, Address.answer_method, hq]
    rfl
  · intro operation p query hq
    rw [hanswer, Address.answer_method, hq]
    rfl

theorem not_unresolved_of_leadsTo {a : Api} {e : Edge} {id : Option String}
    (h : r.LeadsTo path a e id) : ¬r.Unresolved path := by
  rintro ⟨err, hpath, herr⟩
  -- a method that nobody knows is told apart from a path that leads nowhere
  have hmethod := (herr "" .empty).symm.trans (h.unknown "" (by decide) .empty)
  cases hmethod
  rcases hpath with ⟨_, h⟩ | ⟨_, h⟩ <;> cases h

/-- A path fails for every request alike or leads every request to one edge,
and never both. Whatever it is, the query or the error of the parameters does
not depend on the operation, and the id depends on the path alone. -/
theorem resolve_precedence (r : Router) (path : String) :
    (r.Unresolved path ↔ ¬∃ a e id, r.LeadsTo path a e id) ∧
    (∀ (operation other : Operation) p,
      (r.resolve operation.method path p).map Request.query =
        (r.resolve other.method path p).map Request.query) ∧
    ∀ method method' p p' req req', r.resolve method path p = .ok req →
      r.resolve method' path p' = .ok req' → req.id = req'.id := by
  cases h : r.address path with
  | error err =>
    have hfails := resolve_of_address_error h
    have hunresolved : r.Unresolved path := ⟨err, address_error h, hfails⟩
    refine ⟨iff_of_true hunresolved ?_, ?_, ?_⟩
    · rintro ⟨a, e, id, hleads⟩
      exact not_unresolved_of_leadsTo hleads hunresolved
    · intro operation other p
      rw [hfails, hfails]
    · intro method method' p p' req req' hreq
      rw [hfails] at hreq
      cases hreq
  | ok x =>
    have hanswer := resolve_of_address h
    have hleads := leadsTo_of_address h
    refine ⟨iff_of_false (not_unresolved_of_leadsTo hleads) (not_not.mpr ⟨_, _, _, hleads⟩), ?_, ?_⟩
    · intro operation other p
      rw [hanswer, hanswer, Address.answer_method, Address.answer_method]
      cases Query.read x.edge r.defaultLimit p <;> rfl
    · intro method method' p p' req req' hreq hreq'
      rw [hanswer] at hreq hreq'
      exact (Address.id_of_answer hreq).trans (Address.id_of_answer hreq').symm

theorem resolve_precedence_media :
    (∃ a e id, mediaRouter.LeadsTo "/videos/3" a e id) ∧
    (mediaRouter.resolve "GET" "/videos/3" (.ofQueryString "?sort=x")).map Request.query =
      (mediaRouter.resolve "DELETE" "/videos/3" (.ofQueryString "?sort=x")).map Request.query ∧
    mediaRouter.resolve "PATCH" "/videos/3" (.ofQueryString "?fields=title") = .ok mediaRequest ∧
    mediaRouter.resolve "GET" "/videos/3" .empty =
      .ok { mediaRequest with operation := .read, query := {} } ∧
    ({ mediaRequest with operation := .read, query := {} } : Request).id = mediaRequest.id := by
  have hpatch : mediaRouter.resolve "PATCH" "/videos/3" (.ofQueryString "?fields=title") =
      .ok mediaRequest := rfl
  have hget : mediaRouter.resolve "GET" "/videos/3" .empty =
      .ok { mediaRequest with operation := .read, query := {} } := rfl
  obtain ⟨hpath, hquery, hid⟩ := resolve_precedence mediaRouter "/videos/3"
  refine ⟨not_not.mp fun hno => ?_, hquery .read .delete _, hpatch, hget,
    hid _ _ _ _ _ _ hget hpatch⟩
  obtain ⟨err, -, herr⟩ := hpath.mpr hno
  cases (herr "GET" .empty).symm.trans hget

-- an unknown method counts before a field that is unknown, and after a path that leads nowhere
example : mediaRouter.resolve "OPTIONS" "/videos" (.ofQueryString "?fields=x") =
    .error (.unknownMethod "OPTIONS") := rfl
example : mediaRouter.resolve "OPTIONS" "/books" (.ofQueryString "?fields=x") =
    .error (.notFound "/books") := rfl

end Router

end RestQuery

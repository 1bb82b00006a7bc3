import RestQuery.Proofs.Query.Dependence
import RestQuery.Proofs.Request.Addresses
import RestQuery.Proofs.Schema.Changes

/-!
# The order of declarations does not matter

In a schema that is well named no lookup has a choice: versions, edges, fields
and relations are each declared once where they are looked up. So the schema
may declare them in another order, apart from the API that comes first, which
is the main one: it is as well named as before, and its router resolves every
request to the same outcome (`resolve_reordered`).
-/

namespace RestQuery

/-- The edge `e'` is `e` with its fields and its relations in another order. -/
structure Edge.Reordered (e e' : Edge) : Prop where
  name : e'.name = e.name
  fields : e.fields.Perm e'.fields
  relations : e.relations.Perm e'.relations

structure Api.Reordered (a a' : Api) : Prop where
  version : a'.version = a.version
  edges : Rearranged Edge.Reordered a.edges a'.edges

/-- Each API is reordered, and those after the first are in another order. -/
inductive Schema.Reordered : Schema → Schema → Prop
  | apis {main main' : Api} {others others' : List Api} : main.Reordered main' →
      Rearranged Api.Reordered others others' → Reordered ⟨main :: others⟩ ⟨main' :: others'⟩

-- ---------------------------------------------------------------------------
-- Names
-- ---------------------------------------------------------------------------

theorem Edge.Reordered.wellNamed {e e' : Edge} (h : e.Reordered e') (he : e.WellNamed) :
    e'.WellNamed := by
  obtain ⟨hname, hslash, hempty, hfields, hrelations⟩ := he
  refine ⟨h.name ▸ hname, h.name ▸ hslash, ?_, h.fields.nodup_iff.mp hfields, ?_⟩
  · exact fun hmem => hempty (h.fields.mem_iff.mpr hmem)
  · exact (h.relations.map _).nodup_iff.mp hrelations

theorem Api.Reordered.wellNamed {a a' : Api} (h : a.Reordered a') (ha : a.WellNamed) :
    a'.WellNamed := by
  obtain ⟨hversion, hedges, hnames⟩ := ha
  refine ⟨h.version ▸ hversion, fun e' he' => ?_, ?_⟩
  · obtain ⟨e, he, hreordered⟩ := h.edges.exists_mem e' he'
    exact hreordered.wellNamed (hedges e he)
  · exact (h.edges.map_perm fun _ _ hreordered => hreordered.name).nodup_iff.mp hnames

theorem Schema.Reordered.wellNamed {s s' : Schema} (h : s.Reordered s') (hs : s.WellNamed) :
    s'.WellNamed := by
  obtain ⟨hmain, hothers⟩ := h
  have hapis := hothers.cons hmain
  obtain ⟨-, hwell, hversions⟩ := hs
  refine ⟨List.cons_ne_nil _ _, fun a' ha' => ?_, ?_⟩
  · obtain ⟨a, ha, hreordered⟩ := hapis.exists_mem a' ha'
    exact hreordered.wellNamed (hwell a ha)
  · exact (hapis.map_perm fun _ _ hreordered => hreordered.version).nodup_iff.mp hversions

-- ---------------------------------------------------------------------------
-- Edges and APIs
-- ---------------------------------------------------------------------------

section
variable {e e' : Edge} (h : e.Reordered e') (he : e.WellNamed)
include h he

/-- A name belongs to one relation at most, whatever its cardinality. -/
theorem Edge.Reordered.embedded? (name : String) : e.embedded? name = e'.embedded? name := by
  refine List.find?_eq_find?_of_perm h.relations fun rel hrel other hother => ?_
  simp only [decide_eq_true_eq, Set.mem_ofPred_eq] at hrel hother
  have hnames : (e.relations.map Relation.name).Nodup := he.2.2.2.2
  exact List.inj_on_of_nodup_map hnames hrel.1 hother.1 (hrel.2.2.trans hother.2.2.symm)

theorem Edge.Reordered.read (d : UInt64) (p : Parameters) :
    Query.read e d p = Query.read e' d p :=
  Query.read_congr (fun _ => h.fields.mem_iff) (h.embedded? he) d p

end

/-- Edges that differ in order only, with the same id. -/
def SameRecord (found found' : Edge × Option String) : Prop :=
  found.1.Reordered found'.1 ∧ found.1.WellNamed ∧ found'.2 = found.2

section
variable {a a' : Api} (h : a.Reordered a') (ha : a.WellNamed)
include h ha

theorem Api.Reordered.edge? (name : String) :
    Option.Rel Edge.Reordered (a.edge? name) (a'.edge? name) :=
  h.edges.find? ha.2.2 (fun _ _ hreordered => hreordered.name) name

theorem Api.Reordered.locate_edge (missing : Error) (name : List Char) (id : Option String) :
    Alike SameRecord (Api.locate.edge a missing name id) (Api.locate.edge a' missing name id) := by
  unfold Api.locate.edge
  split
  · exact .error missing
  · have hfound := h.edge? ha (.ofList name)
    cases he : a.edge? (.ofList name) with
    | none =>
      rw [he] at hfound
      rw [eq_none_of_rel hfound]
      exact .error missing
    | some e =>
      have hwell : e.WellNamed := ha.2.1 e (Api.edge?_eq_some he).1
      rw [he] at hfound
      obtain ⟨e', he', hreordered⟩ := eq_some_of_rel hfound
      rw [he']
      exact .ok ⟨hreordered, hwell, rfl⟩

theorem Api.Reordered.locate (resource : List Char) :
    Alike SameRecord (a.locate resource) (a'.locate resource) := by
  simp only [Api.locate]
  split
  · exact h.locate_edge ha _ _ none
  · split
    · exact .error _
    · exact h.locate_edge ha _ _ _
  · exact .error _

end

-- ---------------------------------------------------------------------------
-- Routers
-- ---------------------------------------------------------------------------

namespace Router

structure Reordered (r r' : Router) : Prop where
  defaultLimit : r'.defaultLimit = r.defaultLimit
  main : r.main.Reordered r'.main
  apis : Rearranged Api.Reordered r.apis r'.apis
  wellNamed : ∀ a ∈ r.apis, a.WellNamed
  versions : (r.apis.map Api.version).Nodup

namespace Reordered

variable {r r' : Router} (h : r.Reordered r')
include h

theorem api? (version : String) : Option.Rel Api.Reordered
    (r.apis.find? (·.version = version)) (r'.apis.find? (·.version = version)) :=
  h.apis.find? h.versions (fun _ _ hreordered => hreordered.version) version

theorem selectApi (path : List Char) :
    Alike (fun selected selected' => selected.1.Reordered selected'.1 ∧ selected.1 ∈ r.apis ∧
      selected'.2 = selected.2) (r.selectApi path) (r'.selectApi path) := by
  cases hv : versioned? path with
  | none =>
    rw [selectApi_unversioned hv, selectApi_unversioned hv]
    exact .ok ⟨h.main, List.mem_cons_self, rfl⟩
  | some found =>
    obtain ⟨version, resource⟩ := found
    have hfound := h.api? (.ofList version)
    cases ha : r.apis.find? (·.version = .ofList version) with
    | some a =>
      rw [ha] at hfound
      obtain ⟨a', ha', hreordered⟩ := eq_some_of_rel hfound
      rw [selectApi_served hv ha, selectApi_served hv ha']
      exact .ok ⟨hreordered, List.mem_of_find?_eq_some ha, rfl⟩
    | none =>
      rw [ha] at hfound
      have hedge := isSome_of_rel (h.main.edge? (h.wellNamed r.main List.mem_cons_self)
        (.ofList ('v' :: version)))
      rw [selectApi_unserved hv ha, selectApi_unserved hv (eq_none_of_rel hfound), hedge]
      split
      · exact .ok ⟨h.main, List.mem_cons_self, rfl⟩
      · exact .error _

theorem address (path : String) :
    Alike (fun x y => y.api.version = x.api.version ∧ x.edge.Reordered y.edge ∧
      x.edge.WellNamed ∧ y.id = x.id) (r.address path) (r'.address path) := by
  refine (h.selectApi path.toList).bind fun selected selected' hselected => ?_
  obtain ⟨a, resource⟩ := selected
  obtain ⟨a', resource'⟩ := selected'
  obtain ⟨ha, hmem, rfl⟩ := hselected
  refine (ha.locate (h.wellNamed a hmem) resource').bind fun found found' hfound => ?_
  exact .ok ⟨ha.version, hfound⟩

theorem resolve (method path : String) (p : Parameters) :
    r.resolve method path p = r'.resolve method path p := by
  rw [resolve_eq, resolve_eq, h.defaultLimit]
  refine (h.address path).bind_eq fun x y hxy => ?_
  obtain ⟨hversion, hedge, hwell, hid⟩ := hxy
  have hrequest : x.request = y.request := by
    funext operation query
    rw [Address.request, Address.request, hversion, hedge.name, hid]
  rw [Address.answer, Address.answer, hrequest, hedge.read hwell]

end Reordered

/-- A well-named schema in another order is well named, and its router comes
to the same outcome for every request. -/
theorem resolve_reordered {s s' : Schema} (h : s.Reordered s') (hs : s.offence? = none) :
    s'.offence? = none ∧ ∀ d, ∃ r r', ofSchema s d = .ok r ∧ ofSchema s' d = .ok r' ∧
      ∀ method target, r.resolveTarget method target = r'.resolveTarget method target := by
  have hwell := Schema.offence?_eq_none.mp hs
  refine ⟨Schema.offence?_eq_none.mpr (h.wellNamed hwell), fun d => ?_⟩
  obtain ⟨hmain, hothers⟩ := h
  obtain ⟨-, hapis, hversions⟩ := hwell
  rename_i main main' others others'
  have hreordered : Reordered ⟨main, others, d⟩ ⟨main', others', d⟩ :=
    ⟨rfl, hmain, hothers.cons hmain, hapis, hversions⟩
  exact ⟨_, _, rfl, rfl, fun method target => hreordered.resolve method _ _⟩

def clipSchema : Schema where
  apis := [
    { version := "1", edges := [⟨"v3", ["id", "title"], []⟩, ⟨"users", ["id"], []⟩] },
    { version := "2", edges := [] },
    { version := "3", edges := [⟨"clips", ["id", "title"],
      [⟨"cover", "covers", .oneToOne⟩, ⟨"tags", "tags", .manyToMany⟩]⟩] }]

def turnedClipSchema : Schema where
  apis := [
    { version := "1", edges := [⟨"users", ["id"], []⟩, ⟨"v3", ["title", "id"], []⟩] },
    { version := "3", edges := [⟨"clips", ["title", "id"],
      [⟨"tags", "tags", .manyToMany⟩, ⟨"cover", "covers", .oneToOne⟩]⟩] },
    { version := "2", edges := [] }]

theorem resolve_reordered_clips :
    clipSchema.Reordered turnedClipSchema ∧ clipSchema.offence? = none ∧
      turnedClipSchema.offence? = none ∧ ∃ r, ofSchema turnedClipSchema = .ok r ∧
      r.resolveTarget "GET" "/v3/clips?embed=cover&fields=title" =
        .ok { version := "3", edge := "clips", id := none, operation := .read,
              query := { fields := ["title"], expansions := ["covers"] } } := by
  have hv3 : Edge.Reordered ⟨"v3", ["id", "title"], []⟩ ⟨"v3", ["title", "id"], []⟩ :=
    ⟨rfl, by decide, by decide⟩
  have hclips : Edge.Reordered
      ⟨"clips", ["id", "title"], [⟨"cover", "covers", .oneToOne⟩, ⟨"tags", "tags", .manyToMany⟩]⟩
      ⟨"clips", ["title", "id"], [⟨"tags", "tags", .manyToMany⟩, ⟨"cover", "covers", .oneToOne⟩]⟩ :=
    ⟨rfl, by decide, by decide⟩
  have hreordered : clipSchema.Reordered turnedClipSchema :=
    .apis ⟨rfl, _, .swap _ _ _, .cons ⟨rfl, .refl _, .refl _⟩ (.cons hv3 .nil)⟩
      ⟨_, .swap _ _ _, .cons ⟨rfl, _, .refl _, .cons hclips .nil⟩
        (.cons ⟨rfl, [], .refl _, .nil⟩ .nil)⟩
  have hs : clipSchema.offence? = none := by decide
  obtain ⟨hs', hrouters⟩ := resolve_reordered hreordered hs
  obtain ⟨r, r', hr, hr', hsame⟩ := hrouters standardLimit
  cases hr
  refine ⟨hreordered, hs, hs', r', hr', ?_⟩
  rw [← hsame]
  rfl

-- with one relation twice, the first of the two is embedded, and order does matter
example :
    Query.read ⟨"clips", [], [⟨"cover", "a", .oneToOne⟩, ⟨"cover", "b", .oneToOne⟩]⟩ 10
      (.ofQueryString "?embed=cover") = .ok { expansions := ["a"] } ∧
    Query.read ⟨"clips", [], [⟨"cover", "b", .oneToOne⟩, ⟨"cover", "a", .oneToOne⟩]⟩ 10
      (.ofQueryString "?embed=cover") = .ok { expansions := ["b"] } := ⟨rfl, rfl⟩

end Router

end RestQuery

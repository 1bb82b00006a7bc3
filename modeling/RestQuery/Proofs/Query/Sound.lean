import RestQuery.Proofs.Query.ReadLaws
import RestQuery.Proofs.Query.WindowLaws

/-!
# What is read belongs to the edge

`read_sound`: a query that was read names only fields of the edge, expands only
handles of one-to-one relations that `embed` names, repeats no field and no
handle, and has a window of at least one record and at least the first page.
Nothing is asked of the edge or of the parameters.
-/

namespace RestQuery

theorem Parameters.mem_items {p : Parameters} {key item : String} (h : item ∈ p.items key) :
    ∃ v, p.get? key = some v ∧ item.toList ∈ v.joined.toList.splitOn ',' := by
  unfold Parameters.items at h
  split at h
  · simp at h
  · rename_i v hv
    split at h
    · simp at h
    · obtain ⟨cs, hcs, rfl⟩ := List.mem_map.mp h
      exact ⟨v, hv, by simpa using hcs⟩

namespace Window

/-- A window of a record at least, on the first page or a later one. -/
def Sound (w : Window) : Prop := 1 ≤ w.limit ∧ ∀ page, w.page = some page → 1 ≤ page

theorem ofCounts?_sound {d : UInt64} {limit? skip? page? : Option UInt64} {w : Window}
    (h : ofCounts? d limit? skip? page? = some w) : w.Sound := by
  have hlimit : 1 ≤ size limit? d := one_le_iff_ne_zero.mpr (size_ne_zero limit? d)
  unfold ofCounts? at h
  split at h
  · simp at h
  · simp only at h
    split at h
    · rename_i page hpage
      obtain rfl := Option.some.inj h
      refine ⟨hlimit, ?_⟩
      rintro _ ⟨⟩
      exact one_le_iff_ne_zero.mpr (by simpa using (Option.filter_eq_some_iff.mp hpage).2)
    · obtain rfl := Option.some.inj h
      exact ⟨hlimit, by simp⟩

end Window

namespace Query

/-- The handle of a one-to-one relation of the edge that an item of `embed`
names. -/
def Embeds (e : Edge) (p : Parameters) (handle : String) : Prop :=
  ∃ r ∈ e.relations, r.handle = handle ∧ r.cardinality = .oneToOne ∧
    ∃ v, p.get? "embed" = some v ∧ r.name.toList ∈ v.joined.toList.splitOn ','

/-- What holds of a query `q` that was read from `p` against `e`. -/
structure Sound (e : Edge) (p : Parameters) (q : Query) : Prop where
  fields_known : ∀ name ∈ q.referencedFields, name ∈ e.fields
  embeds : ∀ handle ∈ q.expansions, Embeds e p handle
  nodup_fields : q.fields.Nodup
  nodup_expansions : q.expansions.Nodup
  window : ∀ w, q.window = some w → w.Sound

variable {e : Edge} {d : UInt64} {p : Parameters}

theorem embeds_of_readHandles {handles : List String} (h : readHandles e p = .ok handles) :
    ∀ handle ∈ handles, Embeds e p handle := by
  intro handle hmem
  obtain ⟨item, hitem, hread⟩ := exists_of_mapM_ok h handle hmem
  obtain ⟨r, hr, hhandle⟩ := Edge.readHandle_ok.mp hread
  obtain ⟨hrel, hone, hname⟩ := Edge.embedded?_eq_some hr
  exact ⟨r, hrel, hhandle, hone, hname ▸ Parameters.mem_items hitem⟩

theorem mem_fields_of_readFilters {filters : List Filter} (h : readFilters e p = .ok filters) :
    ∀ f ∈ filters, f.field ∈ e.fields := by
  intro f hmem
  obtain ⟨entry, -, hread⟩ := exists_of_mapM_ok h f hmem
  exact (Edge.readFilter_ok.mp hread).2.1

theorem read_sound {q : Query} (h : read e d p = .ok q) : Sound e p q := by
  obtain ⟨names, handles, keys, filters, hn, hh, hk, hf, rfl⟩ := read_ok.mp h
  refine ⟨?_, ?_, nodup_distinct names, nodup_distinct handles, ?_⟩
  · intro name hname
    simp only [referencedFields, List.mem_append, List.mem_map, mem_distinct] at hname
    -- a name of the projection, of a sort key or of a filter
    rcases hname with (hname | ⟨k, hkey, rfl⟩) | ⟨f, hfilter, rfl⟩
    · exact (readFields_ok.mp hn).2 name hname
    · exact (readSort_ok.mp hk).2 k hkey
    · exact mem_fields_of_readFilters hf f hfilter
  · intro handle hhandle
    exact embeds_of_readHandles hh handle (mem_distinct.mp hhandle)
  · intro w hw
    exact Window.ofCounts?_sound hw

/-- Repeated and empty field names, a relation name of two kinds, and two
relations with one handle. -/
def looseEdge : Edge where
  name := "users"
  fields := ["id", "", "-age", "id"]
  relations := [⟨"pet", "pets", .oneToMany⟩, ⟨"pet", "pet", .oneToOne⟩, ⟨"cat", "pet", .oneToOne⟩]

def looseParameters : Parameters where
  entries := [("where[lt][id]", .one ""), ("fields", .many ["id,", "id"]),
    ("embed", .one "cat,pet"), ("sort", .many ["--age"]), ("page", .one "0"),
    ("limit", .many ["x", "0"]), ("where[-age]", .many [])]
  nodup := by decide

theorem read_sound_loose :
    read looseEdge 0 looseParameters = .ok {
      fields := ["id", ""]
      expansions := ["pet"]
      sort := [⟨"-age", false⟩]
      window := some ⟨0, 1, none⟩
      filters := [⟨"id", .less, .one ""⟩, ⟨"-age", .equal, .many []⟩] } ∧
    Sound looseEdge looseParameters {
      fields := ["id", ""]
      expansions := ["pet"]
      sort := [⟨"-age", false⟩]
      window := some ⟨0, 1, none⟩
      filters := [⟨"id", .less, .one ""⟩, ⟨"-age", .equal, .many []⟩] } :=
  ⟨rfl, read_sound (d := 0) rfl⟩

end Query

end RestQuery

import RestQuery.Proofs.Query.ReadLaws

/-!
# What reading takes from the edge and from the parameters

Reading asks two things of an edge: whether it has a field, and which relation
a name embeds. Two edges that answer both alike give the same reading, errors
included (`read_congr`). An edge that has every field of another, and embeds
every name as the other does, gives each query that the other gives
(`read_mono`).

Of the parameters it takes the items of the list keys, the filters and three
counts. The counts decide about the window alone (`map_read`), so parameters
that agree on all of these are read alike (`read_eq`).
-/

namespace RestQuery

variable {e e' : Edge}

section
variable (hfields : ∀ name, name ∈ e.fields ↔ name ∈ e'.fields)
  (hembed : ∀ name, e.embedded? name = e'.embedded? name)
include hfields

theorem Edge.checkField_congr : e.checkField = e'.checkField := by
  funext name
  simp only [Edge.checkField, hfields]

theorem Edge.readSortKey_congr : e.readSortKey = e'.readSortKey := by
  funext item
  rw [Edge.readSortKey, Edge.readSortKey, Edge.checkField_congr hfields]

theorem Edge.readFilter_congr : e.readFilter = e'.readFilter := by
  funext key value
  simp only [Edge.readFilter, Edge.checkField_congr hfields]

include hembed

theorem Query.read_congr (d : UInt64) (p : Parameters) :
    Query.read e d p = Query.read e' d p := by
  have hhandle : e.readHandle = e'.readHandle := by
    funext name
    simp only [Edge.readHandle, hembed]
  simp only [Query.read, Query.readFields, Query.readHandles, Query.readSort, Query.readFilters,
    Edge.checkField_congr hfields, Edge.readSortKey_congr hfields, Edge.readFilter_congr hfields,
    hhandle]

end

section
variable {d : UInt64} {p : Parameters} {q : Query}

theorem Query.read_mono (hfields : ∀ name ∈ e.fields, name ∈ e'.fields)
    (hembed : ∀ name rel, e.embedded? name = some rel → e'.embedded? name = some rel)
    (h : Query.read e d p = .ok q) : Query.read e' d p = .ok q := by
  obtain ⟨names, handles, keys, filters, hn, hh, hk, hf, rfl⟩ := read_ok.mp h
  refine read_ok.mpr ⟨names, handles, keys, filters, ?_, ?_, ?_, ?_, rfl⟩
  · obtain ⟨hitems, hall⟩ := readFields_ok.mp hn
    exact readFields_ok.mpr ⟨hitems, fun name hname => hfields name (hall name hname)⟩
  · refine readHandles_ok.mpr ((readHandles_ok.mp hh).imp ?_)
    rintro name handle ⟨rel, hrel, rfl⟩
    exact ⟨rel, hembed name rel hrel, rfl⟩
  · obtain ⟨hitems, hall⟩ := readSort_ok.mp hk
    exact readSort_ok.mpr ⟨hitems, fun k hkey => hfields k.field (hall k hkey)⟩
  · refine readFilters_ok.mpr ((readFilters_ok.mp hf).imp ?_)
    rintro entry f ⟨hkey, hfield, hvalue⟩
    exact ⟨hkey, hfields f.field hfield, hvalue⟩

end

def listKeys : List String := ["fields", "embed", "sort"]

def windowKeys : List String := ["limit", "skip", "page"]

theorem listKeys_apart : ∀ key ∈ listKeys, key ∈ reservedKeys ∧ key ∉ windowKeys := by decide

theorem windowKeys_apart : ∀ key ∈ windowKeys, key ∈ reservedKeys ∧ key ∉ listKeys := by decide

section
variable {d : UInt64} {p p' : Parameters}
  (hitems : ∀ key ∈ listKeys, p.items key = p'.items key)
  (hfilters : Query.filterEntries p = Query.filterEntries p')
include hitems hfilters

/-- What is left of the parameters makes nothing but the window. -/
theorem Query.map_read : (fun q : Query => { q with window := Window.read? d p' }) <$>
    Query.read e d p = Query.read e d p' := by
  have hfields := hitems "fields" (by simp [listKeys])
  have hembed := hitems "embed" (by simp [listKeys])
  have hsort := hitems "sort" (by simp [listKeys])
  simp only [read, readFields, readHandles, readSort, readFilters, hfields, hembed, hsort, hfilters,
    map_bind, map_pure]

theorem Query.read_eq (hcounts : ∀ key ∈ windowKeys, p.count? key = p'.count? key) :
    Query.read e d p = Query.read e d p' := by
  have hlimit := hcounts "limit" (by simp [windowKeys])
  have hskip := hcounts "skip" (by simp [windowKeys])
  have hpage := hcounts "page" (by simp [windowKeys])
  have hwindow : Window.read? d p = Window.read? d p' := by
    simp only [Window.read?, hlimit, hskip, hpage]
  calc Query.read e d p
      = (fun q : Query => { q with window := Window.read? d p }) <$> Query.read e d p :=
        (map_read (fun _ _ => rfl) rfl).symm
    _ = Query.read e d p' := by rw [hwindow, map_read hitems hfilters]

end

end RestQuery

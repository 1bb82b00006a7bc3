import RestQuery.Proofs.Parameters.Entries
import RestQuery.Proofs.Query.ReadLaws

/-!
# A query is read entry by entry

Each entry of the parameters counts as if it stood alone. `evaluated` lists the
entries that can fail in the order in which they count: `fields`, `embed` and
`sort`, wherever they stand, then the filters as they stand. Reading fails
with the error of the first of them that fails alone, and otherwise puts
together what they give alone (`read_entrywise`). The window keys never fail;
they make one window, so they are read together.
-/

namespace RestQuery

namespace Parameters

def entry? (p : Parameters) (key : String) : Option (String × Value) :=
  (p.get? key).map fun v => (key, v)

def restrict (p : Parameters) (keys : List String) : Parameters where
  entries := p.entries.filter (·.1 ∈ keys)
  nodup := p.nodup.sublist (List.filter_sublist.map _)

/-- The entries that can fail, in the order in which they are read. -/
def evaluated (p : Parameters) : List (String × Value) :=
  (p.entry? "fields").toList ++ (p.entry? "embed").toList ++ (p.entry? "sort").toList ++
    p.entries.filter (·.1 ∉ reservedKeys)

theorem get?_restrict (p : Parameters) (keys : List String) (key : String) :
    (p.restrict keys).get? key = if key ∈ keys then p.get? key else none :=
  (lookup_filter (· ∈ keys) key p.entries).trans (by simp [get?])

theorem get?_only_of_ne {key k : String} (h : key ≠ k) (v : Value) :
    (only k v).get? key = none := by
  simp [only, get?, List.lookup_cons, beq_eq_false_iff_ne.mpr h]

theorem items_of_get? {p : Parameters} {key : String} (h : p.get? key = none) :
    p.items key = [] := by
  simp [items, h]

theorem items_only {p : Parameters} {key : String} {v : Value} (h : p.get? key = some v) :
    (only key v).items key = p.items key := by
  simp [items, h, get?_only]

theorem count?_congr {p q : Parameters} {key : String} (h : p.get? key = q.get? key) :
    p.count? key = q.count? key := by
  simp [count?, h]

end Parameters

namespace Query

variable (e : Edge) (d : UInt64)

/-- The reading of one entry, as if there were no other. -/
def readAlone (entry : String × Value) : Except Error Query :=
  read e d (.only entry.1 entry.2)

/-- A list of the query `q` is what the entry of a key gives alone; it is empty
when there is no such entry. -/
def TakenFrom (p : Parameters) (key : String) (part : Query → List α) (q : Query) : Prop :=
  match p.get? key with
  | none => part q = []
  | some v => ∃ alone, readAlone e d (key, v) = .ok alone ∧ part q = part alone

/-- The one filter that an entry gives alone, with the value of the entry. -/
def FilterOf (entry : String × Value) (f : Filter) : Prop :=
  f.value = entry.2 ∧ ∃ alone, readAlone e d entry = .ok alone ∧ alone.filters = [f]

/-- The query `q` holds what the entries of `p` give alone and nothing else. -/
structure Assembled (p : Parameters) (q : Query) : Prop where
  fields : TakenFrom e d p "fields" Query.fields q
  expansions : TakenFrom e d p "embed" Query.expansions q
  sort : TakenFrom e d p "sort" Query.sort q
  window : ∃ alone, read e d (p.restrict ["limit", "skip", "page"]) = .ok alone ∧
    q.window = alone.window
  filters : List.Forall₂ (FilterOf e d) (p.entries.filter (·.1 ∉ reservedKeys)) q.filters

section
variable {e d} {p : Parameters} {key : String} {v : Value}

-- ---------------------------------------------------------------------------
-- What one entry gives
-- ---------------------------------------------------------------------------

theorem mapM_items_absent (h : p.get? key = none) (f : String → Except Error β) :
    (p.items key).mapM f = .ok [] := by
  rw [Parameters.items_of_get? h]
  rfl

theorem readFields_only_of_ne (h : "fields" ≠ key) : readFields e (.only key v) = .ok [] :=
  mapM_items_absent (Parameters.get?_only_of_ne h v) _

theorem readHandles_only_of_ne (h : "embed" ≠ key) : readHandles e (.only key v) = .ok [] :=
  mapM_items_absent (Parameters.get?_only_of_ne h v) _

theorem readSort_only_of_ne (h : "sort" ≠ key) : readSort e (.only key v) = .ok [] :=
  mapM_items_absent (Parameters.get?_only_of_ne h v) _

theorem readFilters_reserved (h : ∀ entry ∈ p.entries, entry.1 ∈ reservedKeys) :
    readFilters e p = .ok [] := by
  have : filterEntries p = [] := by simpa [filterEntries] using h
  rw [readFilters, this]
  rfl

theorem readFilters_only_reserved (h : key ∈ reservedKeys) :
    readFilters e (.only key v) = .ok [] :=
  readFilters_reserved (by simpa [Parameters.only] using h)

theorem read?_only_of_not_mem (h : key ∉ ["limit", "skip", "page"]) :
    Window.read? d (.only key v) = none := by
  simp only [List.mem_cons, List.not_mem_nil, or_false, not_or] at h
  have absent {k : String} (hk : key ≠ k) : (Parameters.only key v).count? k = none := by
    simp [Parameters.count?, Parameters.get?_only_of_ne (Ne.symm hk)]
  rw [Window.read?, absent h.1, absent h.2.1, absent h.2.2]
  rfl

theorem readAlone_fields (v : Value) : readAlone e d ("fields", v) =
    (fun names => { fields := distinct names }) <$> readFields e (.only "fields" v) := by
  change read e d (.only "fields" v) = _
  rw [read, readHandles_only_of_ne (by decide), readSort_only_of_ne (by decide),
    readFilters_only_reserved (by decide), read?_only_of_not_mem (by decide)]
  rfl

theorem readAlone_embed (v : Value) : readAlone e d ("embed", v) =
    (fun handles => { expansions := distinct handles }) <$> readHandles e (.only "embed" v) := by
  change read e d (.only "embed" v) = _
  rw [read, readFields_only_of_ne (by decide), readSort_only_of_ne (by decide),
    readFilters_only_reserved (by decide), read?_only_of_not_mem (by decide)]
  rfl

theorem readAlone_sort (v : Value) : readAlone e d ("sort", v) =
    (fun keys => { sort := keys }) <$> readSort e (.only "sort" v) := by
  change read e d (.only "sort" v) = _
  rw [read, readFields_only_of_ne (by decide), readHandles_only_of_ne (by decide),
    readFilters_only_reserved (by decide), read?_only_of_not_mem (by decide)]
  rfl

theorem readAlone_filter (h : key ∉ reservedKeys) (v : Value) : readAlone e d (key, v) =
    (fun f => { filters := [f] }) <$> e.readFilter key v := by
  have ne {k : String} (hk : k ∈ reservedKeys) : k ≠ key := fun heq => h (heq ▸ hk)
  have hw : key ∉ ["limit", "skip", "page"] := fun hk => h (by simp_all [reservedKeys])
  have hf : filterEntries (.only key v) = [(key, v)] := by
    simp [filterEntries, Parameters.only, h]
  rw [readAlone, read, readFields_only_of_ne (ne (by decide)),
    readHandles_only_of_ne (ne (by decide)), readSort_only_of_ne (ne (by decide)), readFilters, hf,
    read?_only_of_not_mem hw]
  simp only [ok_bind, List.mapM_cons, List.mapM_nil]
  cases e.readFilter key v <;> rfl

-- ---------------------------------------------------------------------------
-- A list key among other entries
-- ---------------------------------------------------------------------------

theorem sameFailure_entry {f : String → Except Error β} {whole : List β → Query}
    (alone : ∀ v, readAlone e d (key, v) = whole <$> ((Parameters.only key v).items key).mapM f) :
    SameFailure ((p.items key).mapM f) ((p.entry? key).toList.mapM (readAlone e d)) := by
  unfold Parameters.entry?
  cases h : p.get? key with
  | none => exact .of_ok (mapM_items_absent h f) rfl
  | some v =>
    rw [← Parameters.items_only h]
    -- neither `whole` nor the list of one reading adds a failure
    refine (SameFailure.map whole _).trans ?_
    rw [← alone v]
    exact (SameFailure.map (fun q => [q]) _).trans (by simp [SameFailure.refl])

theorem takenFrom_of_pass {f : String → Except Error β} {whole : List β → Query}
    (alone : ∀ v, readAlone e d (key, v) = whole <$> ((Parameters.only key v).items key).mapM f)
    {part : Query → List γ} (nothing : part (whole []) = []) {bs : List β} {q : Query}
    (h : (p.items key).mapM f = .ok bs) (hq : part q = part (whole bs)) :
    TakenFrom e d p key part q := by
  unfold TakenFrom
  cases hv : p.get? key with
  | none =>
    rw [mapM_items_absent hv f, Except.ok.injEq] at h
    subst h
    exact hq.trans nothing
  | some v =>
    refine ⟨whole bs, ?_, hq⟩
    rw [alone v, Parameters.items_only hv, h]
    rfl

theorem sameFailure_filters :
    SameFailure (readFilters e p)
      ((p.entries.filter (·.1 ∉ reservedKeys)).mapM (readAlone e d)) := by
  refine SameFailure.mapM fun entry hentry => ?_
  have hkey : entry.1 ∉ reservedKeys := by simpa using (List.mem_filter.mp hentry).2
  exact readAlone_filter (d := d) hkey entry.2 ▸ SameFailure.map _ _

/-- Reading fails as the entries do, read alone one after the other. -/
theorem sameFailure_evaluated :
    SameFailure (read e d p) (p.evaluated.mapM (readAlone e d)) := by
  simp only [Parameters.evaluated, List.mapM_append, bind_assoc, pure_bind, read]
  -- the passes of `read` against the parts of `evaluated`, one by one
  refine SameFailure.bind (sameFailure_entry readAlone_fields) fun _ _ => ?_
  refine SameFailure.bind (sameFailure_entry readAlone_embed) fun _ _ => ?_
  refine SameFailure.bind (sameFailure_entry readAlone_sort) fun _ _ => ?_
  exact SameFailure.bind sameFailure_filters fun _ _ => .of_ok rfl rfl

theorem read_windowKeys :
    read e d (p.restrict ["limit", "skip", "page"]) = .ok { window := Window.read? d p } := by
  have absent {key : String} (h : key ∉ ["limit", "skip", "page"]) :
      (p.restrict ["limit", "skip", "page"]).get? key = none := by
    rw [Parameters.get?_restrict, if_neg h]
  have kept {key : String} (h : key ∈ ["limit", "skip", "page"]) :
      (p.restrict ["limit", "skip", "page"]).count? key = p.count? key :=
    Parameters.count?_congr (by rw [Parameters.get?_restrict, if_pos h])
  have reserved : ∀ entry ∈ (p.restrict ["limit", "skip", "page"]).entries,
      entry.1 ∈ reservedKeys := by
    intro entry hentry
    have hkey : entry.1 ∈ ["limit", "skip", "page"] := by
      simpa using (List.mem_filter.mp hentry).2
    exact List.mem_append_right ["fields", "embed", "sort"] hkey
  refine read_ok.mpr ⟨[], [], [], [], mapM_items_absent (absent (by decide)) _,
    mapM_items_absent (absent (by decide)) _, mapM_items_absent (absent (by decide)) _,
    readFilters_reserved reserved, ?_⟩
  rw [Window.read?, Window.read?, kept (by decide), kept (by decide), kept (by decide)]
  rfl

theorem filterOf_of_readFilter {entry : String × Value} {f : Filter}
    (hkey : entry.1 ∉ reservedKeys) (h : e.readFilter entry.1 entry.2 = .ok f) :
    FilterOf e d entry f := by
  refine ⟨(Edge.readFilter_ok.mp h).2.2, { filters := [f] }, ?_, rfl⟩
  have halone := readAlone_filter (e := e) (d := d) hkey entry.2
  rwa [h] at halone

theorem assembled_of_read {q : Query} (h : read e d p = .ok q) : Assembled e d p q := by
  obtain ⟨names, handles, keys, filters, hn, hh, hk, hf, rfl⟩ := read_ok.mp h
  refine ⟨?_, ?_, ?_, ?_, ?_⟩
  · exact takenFrom_of_pass readAlone_fields rfl hn rfl
  · exact takenFrom_of_pass readAlone_embed rfl hh rfl
  · exact takenFrom_of_pass readAlone_sort rfl hk rfl
  · exact ⟨_, read_windowKeys, rfl⟩
  · refine forall₂_of_mapM_ok hf fun entry hentry f hfilter => ?_
    have hkey : entry.1 ∉ reservedKeys := by simpa using (List.mem_filter.mp hentry).2
    exact filterOf_of_readFilter hkey hfilter

end

-- ---------------------------------------------------------------------------
-- The law
-- ---------------------------------------------------------------------------

/-- Reading fails exactly when some entry fails alone, and then as the first of
them does in the order of `evaluated`. Otherwise it gives what the entries give
alone. -/
theorem read_entrywise (p : Parameters) :
    ((∃ err, read e d p = .error err) ↔
      ∃ entry ∈ p.evaluated, ∃ err, readAlone e d entry = .error err) ∧
    (∀ err, read e d p = .error err ↔
      ∃ before entry after, p.evaluated = before ++ entry :: after ∧
        (∀ earlier ∈ before, ∃ q, readAlone e d earlier = .ok q) ∧
        readAlone e d entry = .error err) ∧
    ((∀ entry ∈ p.evaluated, ∃ q, readAlone e d entry = .ok q) →
      ∃ q, read e d p = .ok q ∧ Assembled e d p q) := by
  have same : SameFailure (read e d p) (p.evaluated.mapM (readAlone e d)) := sameFailure_evaluated
  have all_ok : (∃ q, read e d p = .ok q) ↔
      ∀ entry ∈ p.evaluated, ∃ q, readAlone e d entry = .ok q :=
    same.exists_ok.trans mapM_exists_ok
  refine ⟨?_, fun err => (same err).trans mapM_error, ?_⟩
  · simp only [exists_error_iff, all_ok, not_forall, exists_prop]
  · intro h
    obtain ⟨q, hq⟩ := all_ok.mpr h
    exact ⟨q, hq, assembled_of_read hq⟩

-- an unknown field in `fields` counts before the filter that stands first
example : read { name := "users", fields := ["id"], relations := [] } 25
    { entries := [("ghost", .one "1"), ("sort", .one "-id"), ("fields", .one "id,shade")],
      nodup := by decide } = .error (.unknownField "shade") := rfl

end Query

end RestQuery

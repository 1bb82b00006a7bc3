import Mathlib.Data.List.Nodup
import RestQuery.Proofs.Parameters.Encoding
import RestQuery.Proofs.Parameters.Entries
import RestQuery.Proofs.Query.ReadLaws
import RestQuery.Proofs.Query.WhereLaws
import RestQuery.Proofs.Query.WindowLaws
import RestQuery.Proofs.Text.Counts

/-!
# Every query can be asked for

`Query.pairs` writes a query as the pairs of a query string. If the query is
`Expressible` against an edge, reading any encoding of these pairs gives the
query back (`read_pairs`), and there is such an encoding. The argument goes
through the layers one by one: the pairs give the entries (`ofPairs_spread`),
and each key of the entries is read back as the part it was written from.
-/

namespace RestQuery

-- ---------------------------------------------------------------------------
-- Writing a query
-- ---------------------------------------------------------------------------

def IsItem (item : String) : Prop := item ≠ "" ∧ ',' ∉ item.toList

instance (item : String) : Decidable (IsItem item) := by unfold IsItem; infer_instance

def SortKey.item (k : SortKey) : String := if k.ascending then k.field else "-" ++ k.field

def filterKey (c : Comparison) (field : String) : String :=
  "where" ++ WhereClause.render ⟨some c.token, field⟩

/-- The entry of a list key; an empty list needs none. -/
def listEntry (key : String) (items : List String) : List (String × Value) :=
  if items = [] then [] else [(key, .one (",".intercalate items))]

def Window.entries (w : Window) : List (String × Value) :=
  [("limit", .one (Text.decimal w.limit)),
    match w.page with
    | some page => ("page", .one (Text.decimal page))
    | none => ("skip", .one (Text.decimal w.skip))]

namespace Query

/-- The entries with a reserved key. `names` are the names of the relations
that are expanded. -/
def reservedEntries (names : List String) (q : Query) : List (String × Value) :=
  listEntry "fields" q.fields ++ listEntry "embed" names ++
    listEntry "sort" (q.sort.map SortKey.item) ++ (q.window.map Window.entries).getD []

def entries (names : List String) (q : Query) : List (String × Value) :=
  reservedEntries names q ++ q.filters.map fun f => (filterKey f.comparison f.field, f.value)

/-- The pairs of a query string for the query, a key with many values being
given once for each of them. -/
def pairs (names : List String) (q : Query) : List (String × String) :=
  (entries names q).flatMap Parameters.spread

end Query

-- ---------------------------------------------------------------------------
-- What can be written
-- ---------------------------------------------------------------------------

/-- Without a page any window goes; with one, the page decides what is skipped. -/
def Window.Expressible (w : Window) : Prop :=
  0 < w.limit ∧ ∀ page, w.page = some page → 0 < page ∧
    w.skip.toNat = min ((page.toNat - 1) * w.limit.toNat) (2 ^ 64 - 1)

/-- The query `q` can be asked of the edge, its expansions under `names`. -/
structure Query.Expressible (e : Edge) (names : List String) (q : Query) : Prop where
  nodup_fields : q.fields.Nodup
  fields : ∀ name ∈ q.fields, name ∈ e.fields ∧ IsItem name
  nodup_expansions : q.expansions.Nodup
  expansions : List.Forall₂ (fun name handle =>
    IsItem name ∧ ∃ r, e.embedded? name = some r ∧ r.handle = handle) names q.expansions
  sort : ∀ k ∈ q.sort, k.field ∈ e.fields ∧ IsItem k.field ∧
    (k.ascending → k.field.toList.head? ≠ some '-')
  window : ∀ w, q.window = some w → w.Expressible
  nodup_filters : (q.filters.map fun f => (f.comparison, f.field)).Nodup
  filters : ∀ f ∈ q.filters, f.field ∈ e.fields ∧ IsToken f.field ∧ f.value.Collected

-- ---------------------------------------------------------------------------
-- Items
-- ---------------------------------------------------------------------------

theorem splitOn_joined {items : List String} (hne : items ≠ []) (h : ∀ item ∈ items, IsItem item) :
    ((",".intercalate items).toList.splitOn ',').map String.ofList = items :=
  Text.map_splitOn_intercalate rfl hne fun item hitem => (h item hitem).2

theorem joined_ne_empty {items : List String} (hne : items ≠ []) (h : ∀ item ∈ items, IsItem item) :
    ",".intercalate items ≠ "" := by
  intro hempty
  have hitems := splitOn_joined hne h
  rw [hempty] at hitems
  -- the empty text is cut into one empty item
  have hone : items = [""] := hitems.symm
  exact (h "" (by simp [hone])).1 rfl

theorem lookup_listEntry (key k : String) (items : List String) :
    (listEntry k items).lookup key =
      if key = k ∧ items ≠ [] then some (.one (",".intercalate items)) else none := by
  unfold listEntry
  by_cases hitems : items = []
  · simp [hitems]
  · by_cases hkey : key = k
    · simp [hitems, hkey]
    · simp [hitems, hkey]

theorem Parameters.items_of_listEntry {p : Parameters} {key : String} {items : List String}
    (hp : p.get? key = (listEntry key items).lookup key) (h : ∀ item ∈ items, IsItem item) :
    p.items key = items := by
  rw [lookup_listEntry] at hp
  unfold Parameters.items
  by_cases hitems : items = []
  · simp [hp, hitems]
  · have hjoined := joined_ne_empty hitems h
    rw [hp, if_pos ⟨rfl, hitems⟩]
    simp only [Value.joined, if_neg hjoined, splitOn_joined hitems h]

theorem SortKey.ofItem_item {k : SortKey} (h : k.ascending → k.field.toList.head? ≠ some '-') :
    SortKey.ofItem k.item = k := by
  obtain ⟨field, ascending⟩ := k
  cases ascending with
  | false => simp [item, ofItem]
  | true =>
    have hdash : field.toList.head? ≠ some '-' := h rfl
    unfold item ofItem
    simp only [if_true]
    split
    · rename_i cs hcs
      simp [hcs] at hdash
    · rfl

theorem SortKey.isItem_item {k : SortKey} (h : IsItem k.field) : IsItem k.item := by
  unfold item
  split
  · exact h
  · refine ⟨?_, by simpa using h.2⟩
    intro hempty
    simpa using congrArg String.toList hempty

-- ---------------------------------------------------------------------------
-- Windows
-- ---------------------------------------------------------------------------

theorem Window.ofCounts?_expressible {w : Window} (h : w.Expressible) (d : UInt64) :
    ofCounts? d (some w.limit) (if w.page = none then some w.skip else none) w.page = some w := by
  obtain ⟨skip, limit, page⟩ := w
  obtain ⟨hpos, hpage⟩ := h
  have hlimit : 1 ≤ limit := one_le_of_pos hpos
  cases page with
  | none => simp [ofCounts?, size_some hlimit]
  | some page =>
    obtain ⟨hpos, hskip⟩ := hpage page rfl
    have hone : 1 ≤ page := one_le_of_pos hpos
    -- what is skipped saturates in the same place on both sides
    have hwindow : ofPage page limit = ⟨skip, limit, some page⟩ := by
      rw [ofPage]
      congr 1
      apply UInt64.toNat_inj.mp
      exact (toNat_skip_ofPage hone limit).trans hskip.symm
    exact (ofCounts?_page hone hlimit d _).trans (congrArg some hwindow)

-- ---------------------------------------------------------------------------
-- The entries
-- ---------------------------------------------------------------------------

theorem filterKey_not_mem (c : Comparison) (field : String) : filterKey c field ∉ reservedKeys := by
  have hw : ∀ key ∈ reservedKeys, key.toList.head? ≠ some 'w' := by decide
  intro hmem
  exact hw _ hmem (by simp [filterKey])

theorem filterKey_clause {c : Comparison} {field : String} (h : IsToken field) :
    FilterKey (filterKey c field) field c := by
  have hwell : WhereClause.WellFormed ⟨some c.token, field⟩ := by
    refine ⟨h, ?_⟩
    rintro _ ⟨⟩
    cases c <;> exact ⟨by decide, by decide⟩
  have hprefix : "where".toList.isPrefixOf? (filterKey c field).toList =
      some (WhereClause.render ⟨some c.token, field⟩).toList := by
    rw [filterKey, String.toList_append]
    exact Text.isPrefixOf?_append _ _
  exact .clause hprefix (WhereClause.ofChars?_render hwell) (Comparison.ofOperator_ok.mpr (.inr rfl))

theorem filterKey_inj {c c' : Comparison} {field field' : String} (h : IsToken field)
    (h' : IsToken field') (heq : filterKey c field = filterKey c' field') :
    (c, field) = (c', field') := by
  have hclause : FilterKey (filterKey c' field') field c := heq ▸ filterKey_clause h
  obtain ⟨hfield, hc⟩ := hclause.unique (filterKey_clause h')
  rw [hfield, hc]

namespace Query

variable {e : Edge} {names : List String} {q : Query}

theorem listEntry_keys (key : String) (items : List String) :
    ((listEntry key items).map Prod.fst).Sublist [key] := by
  unfold listEntry
  split <;> simp

theorem window_keys (w? : Option Window) :
    (((w?.map Window.entries).getD []).map Prod.fst).Sublist ["limit", "skip", "page"] := by
  cases w? with
  | none => simp
  | some w =>
    obtain ⟨skip, limit, page⟩ := w
    cases page with
    | none => exact .cons_cons _ (.cons_cons _ (.cons _ .slnil))
    | some page => exact .cons_cons _ (.cons _ (.cons_cons _ .slnil))

theorem reservedEntries_keys (names : List String) (q : Query) :
    ((reservedEntries names q).map Prod.fst).Sublist reservedKeys := by
  simp only [reservedEntries, List.map_append]
  exact (((listEntry_keys "fields" _).append (listEntry_keys "embed" _)).append
    (listEntry_keys "sort" _)).append (window_keys _)

theorem nodup_entries (h : q.Expressible e names) : ((entries names q).map Prod.fst).Nodup := by
  have hreserved := reservedEntries_keys names q
  -- different clauses have different keys
  have hkeys : (q.filters.map fun f => filterKey f.comparison f.field).Nodup := by
    have hmap : (q.filters.map fun f => filterKey f.comparison f.field) =
        (q.filters.map fun f => (f.comparison, f.field)).map fun k => filterKey k.1 k.2 := by
      simp
    rw [hmap]
    refine List.Nodup.map_on ?_ h.nodup_filters
    intro k hk k' hk' heq
    obtain ⟨f, hf, rfl⟩ := List.mem_map.mp hk
    obtain ⟨f', hf', rfl⟩ := List.mem_map.mp hk'
    exact filterKey_inj (h.filters f hf).2.1 (h.filters f' hf').2.1 heq
  rw [entries, List.map_append, List.map_map, List.nodup_append]
  refine ⟨List.Nodup.sublist hreserved (by decide), hkeys, ?_⟩
  intro key hkey key' hkey' heq
  obtain ⟨f, -, rfl⟩ := List.mem_map.mp hkey'
  exact filterKey_not_mem _ _ (heq ▸ hreserved.subset hkey)

def toParameters (h : q.Expressible e names) : Parameters := ⟨entries names q, nodup_entries h⟩

theorem get?_toParameters (h : q.Expressible e names) {key : String} (hkey : key ∈ reservedKeys) :
    (toParameters h).get? key = (reservedEntries names q).lookup key := by
  have hfilters : (q.filters.map fun f => (filterKey f.comparison f.field, f.value)).lookup key =
      none := by
    rw [List.lookup_eq_none_iff]
    intro entry hentry
    obtain ⟨f, -, rfl⟩ := List.mem_map.mp hentry
    rw [bne_iff_ne]
    rintro rfl
    exact filterKey_not_mem _ _ hkey
  change (entries names q).lookup key = _
  rw [entries, List.lookup_append, hfilters, Option.or_none]

theorem lookup_windowEntries (w? : Option Window) {key : String}
    (hkey : key ∉ ["limit", "skip", "page"]) :
    ((w?.map Window.entries).getD []).lookup key = none := by
  rw [List.lookup_eq_none_iff]
  intro entry hentry
  rw [bne_iff_ne]
  rintro rfl
  exact hkey ((window_keys w?).subset (List.mem_map_of_mem hentry))

theorem lookup_windowEntries_limit (w? : Option Window) :
    ((w?.map Window.entries).getD []).lookup "limit" =
      (w?.map Window.limit).map fun limit => .one (Text.decimal limit) := by
  cases w? <;> rfl

theorem lookup_windowEntries_skip (w? : Option Window) :
    ((w?.map Window.entries).getD []).lookup "skip" =
      (w?.bind fun w => if w.page = none then some w.skip else none).map
        fun skip => .one (Text.decimal skip) := by
  match w? with
  | none | some ⟨_, _, none⟩ | some ⟨_, _, some _⟩ => rfl

theorem lookup_windowEntries_page (w? : Option Window) :
    ((w?.map Window.entries).getD []).lookup "page" =
      (w?.bind Window.page).map fun page => .one (Text.decimal page) := by
  match w? with
  | none | some ⟨_, _, none⟩ | some ⟨_, _, some _⟩ => rfl

-- ---------------------------------------------------------------------------
-- Reading the entries back
-- ---------------------------------------------------------------------------

section
variable (h : q.Expressible e names)

theorem readFields_toParameters : readFields e (toParameters h) = .ok q.fields := by
  have hitems : (toParameters h).items "fields" = q.fields := by
    refine Parameters.items_of_listEntry ?_ fun name hname => (h.fields name hname).2
    rw [get?_toParameters h (by decide)]
    simp [reservedEntries, List.lookup_append, lookup_windowEntries, lookup_listEntry]
  exact readFields_ok.mpr ⟨hitems.symm, fun name hname => (h.fields name hname).1⟩

theorem readHandles_toParameters : readHandles e (toParameters h) = .ok q.expansions := by
  obtain ⟨hnames, hhandles⟩ := (List.forall₂_and_left _ _).mp h.expansions
  have hitems : (toParameters h).items "embed" = names := by
    refine Parameters.items_of_listEntry ?_ hnames
    rw [get?_toParameters h (by decide)]
    simp [reservedEntries, List.lookup_append, lookup_windowEntries, lookup_listEntry]
  rw [readHandles_ok, hitems]
  exact hhandles

theorem readSort_toParameters : readSort e (toParameters h) = .ok q.sort := by
  have hitems : (toParameters h).items "sort" = q.sort.map SortKey.item := by
    refine Parameters.items_of_listEntry ?_ ?_
    · rw [get?_toParameters h (by decide)]
      simp [reservedEntries, List.lookup_append, lookup_windowEntries, lookup_listEntry]
    · intro item hitem
      obtain ⟨k, hk, rfl⟩ := List.mem_map.mp hitem
      exact SortKey.isItem_item (h.sort k hk).2.1
  refine readSort_ok.mpr ⟨?_, fun k hk => (h.sort k hk).1⟩
  rw [hitems, List.map_map]
  conv_lhs => rw [← List.map_id q.sort]
  exact List.map_congr_left fun k hk => (SortKey.ofItem_item (h.sort k hk).2.2).symm

theorem count?_toParameters {key : String} (hkey : key ∈ ["limit", "skip", "page"])
    {n? : Option UInt64} (hn : ((q.window.map Window.entries).getD []).lookup key =
      n?.map fun n => .one (Text.decimal n)) : (toParameters h).count? key = n? := by
  have hlist (k : String) (items : List String) (hk : k ∉ ["limit", "skip", "page"]) :
      (listEntry k items).lookup key = none := by
    rw [lookup_listEntry, if_neg]
    rintro ⟨rfl, -⟩
    exact hk hkey
  have hreserved : key ∈ reservedKeys := List.mem_append_right ["fields", "embed", "sort"] hkey
  have hlookup : (reservedEntries names q).lookup key = n?.map fun n => .one (Text.decimal n) := by
    simp [reservedEntries, List.lookup_append, hlist "fields", hlist "embed", hlist "sort", hn]
  rw [Parameters.count?, get?_toParameters h hreserved, hlookup]
  cases n? <;> simp [Value.last, Text.count?_decimal]

theorem read?_toParameters (d : UInt64) : Window.read? d (toParameters h) = q.window := by
  rw [Window.read?, count?_toParameters h (by decide) (lookup_windowEntries_limit _),
    count?_toParameters h (by decide) (lookup_windowEntries_skip _),
    count?_toParameters h (by decide) (lookup_windowEntries_page _)]
  cases hw : q.window with
  | none => rfl
  | some w => exact Window.ofCounts?_expressible (h.window w hw) d

theorem readFilters_toParameters : readFilters e (toParameters h) = .ok q.filters := by
  have hentries : filterEntries (toParameters h) =
      q.filters.map fun f => (filterKey f.comparison f.field, f.value) := by
    change (entries names q).filter (·.1 ∉ reservedKeys) = _
    -- the two halves of the entries: none and all of them are filters
    have hreserved : (reservedEntries names q).filter (·.1 ∉ reservedKeys) = [] := by
      rw [List.filter_eq_nil_iff]
      intro entry hentry
      simpa using (reservedEntries_keys names q).subset (List.mem_map_of_mem hentry)
    rw [entries, List.filter_append, hreserved, List.nil_append, List.filter_eq_self]
    intro entry hentry
    obtain ⟨f, -, rfl⟩ := List.mem_map.mp hentry
    simpa using filterKey_not_mem f.comparison f.field
  rw [readFilters_ok, hentries, List.forall₂_map_left_iff]
  exact List.forall₂_same.mpr fun f hf =>
    ⟨filterKey_clause (h.filters f hf).2.1, (h.filters f hf).1, rfl⟩

theorem read_toParameters (d : UInt64) : read e d (toParameters h) = .ok q := by
  refine read_ok.mpr ⟨_, _, _, _, readFields_toParameters h, readHandles_toParameters h,
    readSort_toParameters h, readFilters_toParameters h, ?_⟩
  rw [distinct_of_nodup h.nodup_fields, distinct_of_nodup h.nodup_expansions, read?_toParameters h d]

theorem collected_entries : ∀ entry ∈ (toParameters h).entries, entry.2.Collected := by
  have hlist (key : String) (items : List String) :
      ∀ entry ∈ listEntry key items, entry.2.Collected := by
    intro entry hentry
    unfold listEntry at hentry
    split at hentry
    · simp at hentry
    · obtain rfl := List.mem_singleton.mp hentry
      trivial
  have hwindow : ∀ entry ∈ (q.window.map Window.entries).getD [], entry.2.Collected := by
    match q.window with
    | none | some ⟨_, _, none⟩ | some ⟨_, _, some _⟩ => simp [Window.entries, Value.Collected]
  intro entry hentry
  change entry ∈ entries names q at hentry
  simp only [entries, reservedEntries, List.mem_append, List.mem_map] at hentry
  rcases hentry with (((hentry | hentry) | hentry) | hentry) | ⟨f, hf, rfl⟩
  · exact hlist _ _ entry hentry
  · exact hlist _ _ entry hentry
  · exact hlist _ _ entry hentry
  · exact hwindow entry hentry
  · exact (h.filters f hf).2.2

end

/-- A query that can be asked for is what reading its query string gives, in
whatever way the query string is encoded; and there is such a query string. -/
theorem read_pairs {e : Edge} {names : List String} {q : Query} (h : q.Expressible e names)
    (d : UInt64) :
    EncodesQuery (q.pairs names) (encodeQuery (q.pairs names)) ∧
    ∀ query, EncodesQuery (q.pairs names) query → read e d (.ofQueryString query) = .ok q := by
  refine ⟨encodesQuery_encodeQuery _, fun query hquery => ?_⟩
  have hp : Parameters.ofQueryString query = toParameters h := by
    rw [Parameters.ofQueryString, decodedPairs_of_encodes hquery]
    exact Parameters.ofPairs_spread (toParameters h) (collected_entries h)
  rw [hp, read_toParameters h d]

section
open Comparison

def motleyEdge : Edge where
  name := "users"
  fields := ["id", "a&b=c", "-age", "größe", "x,y[z"]
  relations := [⟨"pet", "pets", .oneToMany⟩, ⟨"pet", "pet", .oneToOne⟩]

/-- A page past the largest count, and filters of one field by several
comparisons. -/
def motleyQuery : Query where
  fields := ["a&b=c", "id"]
  expansions := ["pet"]
  sort := [⟨"-age", false⟩, ⟨"id", true⟩, ⟨"id", false⟩]
  window := some ⟨18446744073709551615, 4294967296, some 18446744073709551615⟩
  filters := [⟨"größe", greater, .one "1+1 = 50%"⟩, ⟨"x,y[z", equal, .many ["", "b&c"]⟩,
    ⟨"größe", notEqual, .one ""⟩]

theorem read_pairs_motley :
    motleyQuery.Expressible motleyEdge ["pet"] ∧
    read motleyEdge 0 (.ofQueryString (encodeQuery (motleyQuery.pairs ["pet"]))) =
      .ok motleyQuery := by
  have h : motleyQuery.Expressible motleyEdge ["pet"] := by
    refine ⟨by decide, by decide, by decide, ?_, by decide, ?_, by decide, by decide⟩
    · exact .cons ⟨by decide, _, rfl, rfl⟩ .nil
    · rintro _ ⟨⟩
      refine ⟨by decide, ?_⟩
      rintro _ ⟨⟩
      exact ⟨by decide, by decide⟩
  obtain ⟨hquery, hread⟩ := read_pairs h 0
  exact ⟨h, hread _ hquery⟩

end

end Query

end RestQuery

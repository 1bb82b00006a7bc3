import RestQuery.Proofs.Parameters.Entries
import RestQuery.Proofs.Parameters.Histories
import RestQuery.Proofs.Query.Dependence
import RestQuery.Proofs.Query.Entrywise

/-!
# List keys are read item by item

The items of a value are what stands between the commas of its texts joined
(`Value.Splits`). A list key is read `ItemByItem`: it fails exactly when some
item is invalid, and then as the first invalid item does; otherwise each item
gives its part of the query. `list_keys_by_item` says so for `fields`, `embed`
and `sort`, which differ in what is valid, in what is blamed, and in what a
repetition does.
-/

namespace RestQuery

/-- The items of a value: its texts joined by commas, split at every comma. -/
def Value.Splits (v : Value) (items : List String) : Prop :=
  items ≠ [] ∧ ",".intercalate items = ",".intercalate v.texts ∧ ∀ item ∈ items, ',' ∉ item.toList

def Edge.FirstOneToOne (e : Edge) (name : String) (r : Relation) : Prop :=
  ∃ before after, e.relations = before ++ r :: after ∧ r.cardinality = .oneToOne ∧ r.name = name ∧
    ∀ other ∈ before, ¬(other.cardinality = .oneToOne ∧ other.name = name)

def IsDescending (item : String) : Prop := item.toList.head? = some '-'

instance (item : String) : Decidable (IsDescending item) := by unfold IsDescending; infer_instance

/-- An item of `sort` without one leading dash, if it has any. -/
def sortField (item : String) : String :=
  if IsDescending item then .ofList item.toList.tail else item

namespace Query

/-- A list key is read item by item: an invalid item fails with its `fault`, and the first of them
counts; if there is none, the key gives the `Result`. -/
structure ItemByItem (items : List String) (Valid : String → Prop) (fault : String → Error)
    (Result : Query → Prop) (outcome : Except Error Query) : Prop where
  fails_iff : (∃ err, outcome = .error err) ↔ ∃ item ∈ items, ¬Valid item
  error_iff : ∀ err, outcome = .error err ↔ ∃ before item after, items = before ++ item :: after ∧
    (∀ earlier ∈ before, Valid earlier) ∧ ¬Valid item ∧ err = fault item
  ok_iff : ∀ q, outcome = .ok q ↔ (∀ item ∈ items, Valid item) ∧ Result q

end Query

-- ---------------------------------------------------------------------------
-- Items
-- ---------------------------------------------------------------------------

theorem Value.Splits.unique {v : Value} {items other : List String} (h : v.Splits items)
    (h' : v.Splits other) : items = other := by
  obtain ⟨hne, hjoin, hcomma⟩ := h
  obtain ⟨hne', hjoin', hcomma'⟩ := h'
  have hsep : ",".toList = [','] := rfl
  rw [← Text.map_splitOn_intercalate hsep hne hcomma, hjoin, ← hjoin',
    Text.map_splitOn_intercalate hsep hne' hcomma']

theorem Value.splits_joined (v : Value) :
    v.Splits ((v.joined.toList.splitOn ',').map String.ofList) := by
  refine ⟨by simp, ?_, ?_⟩
  · rw [← v.joined_eq, ← String.toList_inj, String.toList_intercalate]
    simp [Function.comp_def]
  · intro item hitem
    obtain ⟨cs, hcs, rfl⟩ := List.mem_map.mp hitem
    simpa using Text.not_mem_of_mem_splitOn hcs

theorem Parameters.items_only_empty {key : String} {v : Value}
    (h : ",".intercalate v.texts = "") : (only key v).items key = [] := by
  simp [items, v.joined_eq, h]

theorem Parameters.items_only_splits {key : String} {v : Value} {items : List String}
    (hitems : v.Splits items) (h : ",".intercalate v.texts ≠ "") :
    (only key v).items key = items := by
  rw [← v.splits_joined.unique hitems]
  simp [Parameters.items, v.joined_eq, h]

-- ---------------------------------------------------------------------------
-- What an item gives
-- ---------------------------------------------------------------------------

theorem Edge.embedded?_eq_some_iff {e : Edge} {name : String} {r : Relation} :
    e.embedded? name = some r ↔ e.FirstOneToOne name r := by
  simp [embedded?, FirstOneToOne, List.find?_eq_some_iff_append]
  grind

theorem Edge.embedded?_eq_none_iff {e : Edge} {name : String} :
    e.embedded? name = none ↔ ¬∃ r ∈ e.relations, r.cardinality = .oneToOne ∧ r.name = name := by
  simp [embedded?]

theorem SortKey.ofItem_eq (item : String) :
    SortKey.ofItem item = ⟨sortField item, ¬IsDescending item⟩ := by
  unfold ofItem sortField IsDescending
  split
  · rename_i field hitem
    simp [hitem]
  · rename_i hitem
    have hhead : item.toList.head? ≠ some '-' := by
      intro hhead
      obtain ⟨cs, hcs⟩ := List.head?_eq_some_iff.mp hhead
      exact hitem cs hcs
    simp [hhead]

namespace Query

theorem distinct_eq_eraseDups (list : List String) : distinct list = list.eraseDups := by
  induction list using List.reverseRecOn with
  | nil => rfl
  | append_singleton list a ih =>
    have hstep : distinct (list ++ [a]) = addNew a (distinct list) := by simp [distinct]
    rw [hstep, addNew, Parameters.eraseDups_concat, ← ih]
    simp only [mem_distinct]

-- ---------------------------------------------------------------------------
-- The pass over the items
-- ---------------------------------------------------------------------------

section
variable {items : List String} {Valid : String → Prop} {fault : String → Error}
  {Result : Query → Prop} {f : String → Except Error β} {whole : List β → Query}

theorem itemByItem_of_pass (valid : ∀ item, (∃ b, f item = .ok b) ↔ Valid item)
    (blamed : ∀ item err, f item = .error err → err = fault item)
    (result : ∀ bs, items.mapM f = .ok bs → ∀ q, q = whole bs ↔ Result q) :
    ItemByItem items Valid fault Result (whole <$> items.mapM f) := by
  have invalid (item : String) : (∃ err, f item = .error err) ↔ ¬Valid item := by
    rw [exists_error_iff, valid]
  have fault_of (item : String) (err : Error) : f item = .error err ↔
      ¬Valid item ∧ err = fault item := by
    constructor
    · intro h
      exact ⟨(invalid item).mp ⟨err, h⟩, blamed item err h⟩
    · rintro ⟨hinvalid, rfl⟩
      obtain ⟨err, h⟩ := (invalid item).mpr hinvalid
      rw [h, blamed item err h]
  -- putting the parts together adds no failure
  have same (err : Error) : whole <$> items.mapM f = .error err ↔ items.mapM f = .error err :=
    (SameFailure.map whole (items.mapM f) err).symm
  refine ⟨?_, ?_, ?_⟩
  · simp only [same, exists_error_iff, mapM_exists_ok, valid, not_forall, exists_prop]
  · intro err
    simp only [same, mapM_error, valid, fault_of]
  · intro q
    rw [map_ok]
    constructor
    · rintro ⟨bs, hbs, rfl⟩
      refine ⟨fun item hitem => ?_, (result bs hbs _).mp rfl⟩
      exact (valid item).mp (mapM_exists_ok.mp ⟨bs, hbs⟩ item hitem)
    · rintro ⟨hvalid, hq⟩
      obtain ⟨bs, hbs⟩ := mapM_exists_ok.mpr fun item hitem => (valid item).mpr (hvalid item hitem)
      exact ⟨bs, hbs, ((result bs hbs q).mpr hq).symm⟩

end

-- ---------------------------------------------------------------------------
-- The keys
-- ---------------------------------------------------------------------------

section
variable {e : Edge} {d : UInt64} {v : Value} {items : List String}
  (hitems : v.Splits items) (hjoin : ",".intercalate v.texts ≠ "")
include hitems hjoin

theorem fields_itemByItem : ItemByItem items (· ∈ e.fields) .unknownField
    (· = { fields := items.eraseDups }) (readAlone e d ("fields", v)) := by
  have hsplit : (Parameters.only "fields" v).items "fields" = items :=
    Parameters.items_only_splits hitems hjoin
  rw [readAlone_fields, readFields, hsplit]
  refine itemByItem_of_pass (fun item => ?_) (fun item err h => ?_) fun names h q => ?_
  · simp only [bind_ok, Edge.checkField_ok, pure_ok, exists_const, exists_and_left, exists_eq',
      and_true]
  · simp only [bind_error, Edge.checkField_error, pure_ne_error, and_false, exists_false,
      or_false] at h
    exact h.2
  · have hnames : names = items := by
      rw [← hsplit] at h ⊢
      exact (readFields_ok.mp h).1
    rw [hnames, distinct_eq_eraseDups]

theorem embed_itemByItem : ItemByItem items
    (fun item => ∃ r ∈ e.relations, r.cardinality = .oneToOne ∧ r.name = item) .notEmbeddable
    (fun q => ∃ handles, List.Forall₂ (fun item handle =>
      ∃ r, e.FirstOneToOne item r ∧ r.handle = handle) items handles ∧
      q = { expansions := handles.eraseDups })
    (readAlone e d ("embed", v)) := by
  have gives (handles : List String) : items.mapM e.readHandle = .ok handles ↔
      List.Forall₂ (fun item handle => ∃ r, e.FirstOneToOne item r ∧ r.handle = handle)
        items handles := by
    simp only [mapM_ok, Edge.readHandle_ok, Edge.embedded?_eq_some_iff]
  rw [readAlone_embed, readHandles, Parameters.items_only_splits hitems hjoin]
  refine itemByItem_of_pass (fun item => ?_) (fun item err h => ?_) fun handles h q => ?_
  · rw [← not_iff_not, ← exists_error_iff, ← Edge.embedded?_eq_none_iff]
    simp only [Edge.readHandle_error, exists_and_left, exists_eq, and_true]
  · exact (Edge.readHandle_error.mp h).2
  · constructor
    · rintro rfl
      exact ⟨handles, (gives handles).mp h, by rw [distinct_eq_eraseDups]⟩
    · rintro ⟨other, hother, rfl⟩
      obtain rfl : handles = other := Except.ok.inj (h.symm.trans ((gives other).mpr hother))
      rw [distinct_eq_eraseDups]

theorem sort_itemByItem : ItemByItem items (fun item => sortField item ∈ e.fields)
    (fun item => .unknownField (sortField item))
    (· = { sort := items.map fun item => ⟨sortField item, ¬IsDescending item⟩ })
    (readAlone e d ("sort", v)) := by
  rw [readAlone_sort, readSort, Parameters.items_only_splits hitems hjoin]
  refine itemByItem_of_pass (fun item => ?_) (fun item err h => ?_) fun keys h q => ?_
  · simp [Edge.readSortKey_ok, SortKey.ofItem_eq]
  · simpa [SortKey.ofItem_eq] using (Edge.readSortKey_error.mp h).2
  · have hkeys := (mapM_ok_of_check fun _ _ => Edge.readSortKey_ok).mp h
    simp only [hkeys.1, SortKey.ofItem_eq]

end

/-- A list key with nothing in it asks for nothing. Any other is read item by item: `fields` and
`sort` want names of fields, `embed` wants names of one-to-one relations. What is selected or
expanded twice counts where it first stands; what is sorted by twice stays. -/
theorem list_keys_by_item (e : Edge) (d : UInt64) (v : Value) :
    (∃ items, v.Splits items ∧ ∀ other, v.Splits other → other = items) ∧
    (",".intercalate v.texts = "" → ∀ key ∈ listKeys, readAlone e d (key, v) = .ok {}) ∧
    ∀ items, v.Splits items → ",".intercalate v.texts ≠ "" →
      ItemByItem items (· ∈ e.fields) .unknownField
        (· = { fields := items.eraseDups })
        (readAlone e d ("fields", v)) ∧
      ItemByItem items (fun item => ∃ r ∈ e.relations, r.cardinality = .oneToOne ∧ r.name = item)
        .notEmbeddable
        (fun q => ∃ handles, List.Forall₂ (fun item handle =>
          ∃ r, e.FirstOneToOne item r ∧ r.handle = handle) items handles ∧
          q = { expansions := handles.eraseDups })
        (readAlone e d ("embed", v)) ∧
      ItemByItem items (fun item => sortField item ∈ e.fields)
        (fun item => .unknownField (sortField item))
        (· = { sort := items.map fun item => ⟨sortField item, ¬IsDescending item⟩ })
        (readAlone e d ("sort", v)) := by
  refine ⟨⟨_, v.splits_joined, fun other h => h.unique v.splits_joined⟩, ?_, ?_⟩
  · intro hempty key hkey
    simp only [listKeys, List.mem_cons, List.not_mem_nil, or_false] at hkey
    rcases hkey with rfl | rfl | rfl
    · rw [readAlone_fields, readFields, Parameters.items_only_empty hempty]
      rfl
    · rw [readAlone_embed, readHandles, Parameters.items_only_empty hempty]
      rfl
    · rw [readAlone_sort, readSort, Parameters.items_only_empty hempty]
      rfl
  · intro items hitems hjoin
    exact ⟨fields_itemByItem hitems hjoin, embed_itemByItem hitems hjoin,
      sort_itemByItem hitems hjoin⟩

-- one handle under two names is expanded once, and a lone dash sorts by the empty field
example : readAlone ⟨"users", [""], [⟨"pet", "pets", .oneToMany⟩, ⟨"pet", "p", .oneToOne⟩,
    ⟨"cat", "p", .oneToOne⟩]⟩ 0 ("embed", .many ["cat,pet", "cat"]) =
      .ok { expansions := ["p"] } ∧
    readAlone ⟨"users", [""], []⟩ 0 ("sort", .many ["-", "", "--"]) =
      .error (.unknownField "-") := by decide

end Query

end RestQuery

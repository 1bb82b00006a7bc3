import Mathlib.Data.List.Nodup
import Mathlib.Data.List.Perm.Subperm
import RestQuery.Proofs.Query.Entrywise
import RestQuery.Proofs.Query.Rendering

/-!
# The keys of a filter

A comparison of a field has one key that asks for it, and equality has three:
the field by itself, the field in brackets, and the operator and the field in
brackets (`FilterKey.mem_spellings`). As no key stands twice in parameters, a
query that is read holds no more filters for a comparison of a field than there
are spellings (`filters_unambiguous`).
-/

namespace RestQuery

def equalityKeys (field : String) : List String :=
  [field, "where[" ++ field ++ "]", "where[eq][" ++ field ++ "]"]

/-- The keys that ask for a comparison of a field. -/
def spellings (field : String) (c : Comparison) : List String :=
  if c = .equal then equalityKeys field else [filterKey c field]

theorem length_spellings (field : String) (c : Comparison) :
    (spellings field c).length = if c = .equal then 3 else 1 := by
  unfold spellings
  split <;> rfl

theorem mem_spellings_filterKey (c : Comparison) (field : String) :
    filterKey c field ∈ spellings field c := by
  unfold spellings
  split
  next h =>
    have heq : filterKey .equal field = "where[eq][" ++ field ++ "]" := by
      apply String.toList_inj.mp
      simp [filterKey, WhereClause.render, Comparison.token]
    simp [h, heq, equalityKeys]
  next => simp

theorem FilterKey.mem_spellings {key field : String} {c : Comparison} (h : FilterKey key field c) :
    key ∈ spellings field c := by
  cases h with
  | plain => simp [spellings, equalityKeys]
  | @clause rest clause _ hprefix hclause hoperator =>
    obtain ⟨operator, field⟩ := clause
    obtain ⟨rfl, -⟩ := WhereClause.render_of_ofChars? hclause
    have hkey : key = "where" ++ WhereClause.render ⟨operator, field⟩ := by
      apply String.toList_inj.mp
      rw [String.toList_append]
      exact (List.isPrefixOf?_eq_some_iff_append_eq.mp hprefix).symm
    subst hkey
    rcases Comparison.ofOperator_ok.mp hoperator with ⟨rfl, rfl⟩ | rfl
    · have hbare : "where" ++ WhereClause.render ⟨none, field⟩ = "where[" ++ field ++ "]" := by
        apply String.toList_inj.mp
        simp [WhereClause.render]
      simp [spellings, equalityKeys, hbare]
    · exact mem_spellings_filterKey _ field

/-- Only equality can be asked for under two keys. -/
theorem FilterKey.eq_or_equal {key key' field : String} {c : Comparison}
    (h : FilterKey key field c) (h' : FilterKey key' field c) :
    key = key' ∨ c = .equal ∧ key ∈ equalityKeys field ∧ key' ∈ equalityKeys field := by
  have hkey := h.mem_spellings
  have hkey' := h'.mem_spellings
  unfold spellings at hkey hkey'
  split at hkey
  next hc =>
    rw [if_pos hc] at hkey'
    exact .inr ⟨hc, hkey, hkey'⟩
  next hc =>
    rw [if_neg hc] at hkey'
    exact .inl ((List.mem_singleton.mp hkey).trans (List.mem_singleton.mp hkey').symm)

namespace Query

variable {e : Edge} {d : UInt64}

theorem readAlone_filter_ok {key : String} {value : Value} {q : Query} (hkey : key ∉ reservedKeys)
    (h : readAlone e d (key, value) = .ok q) :
    ∃ f, q.filters = [f] ∧ FilterKey key f.field f.comparison := by
  rw [readAlone_filter hkey, map_ok] at h
  obtain ⟨f, hf, rfl⟩ := h
  exact ⟨f, rfl, (Edge.readFilter_ok.mp hf).1⟩

theorem exists_keys {entries : List (String × Value)} {filters : List Filter}
    (h : List.Forall₂ (fun entry f => FilterKey entry.1 f.field f.comparison) entries filters)
    (field : String) (c : Comparison) :
    ∃ keys, keys.Sublist (entries.map Prod.fst) ∧ keys ⊆ spellings field c ∧
      keys.length = (filters.filter fun f => f.field = field ∧ f.comparison = c).length := by
  induction h with
  | nil => exact ⟨[], by simp⟩
  | @cons entry f entries filters hentry _ ih =>
    obtain ⟨keys, hsub, hspell, hlength⟩ := ih
    by_cases hf : f.field = field ∧ f.comparison = c
    · obtain ⟨rfl, rfl⟩ := hf
      refine ⟨entry.1 :: keys, hsub.cons_cons _, ?_, by simp [hlength]⟩
      exact List.cons_subset.mpr ⟨hentry.mem_spellings, hspell⟩
    · exact ⟨keys, hsub.cons _, hspell, by simp [hf, hlength]⟩

theorem length_filters_le {p : Parameters} {q : Query} (h : read e d p = .ok q) (field : String)
    (c : Comparison) : (q.filters.filter fun f => f.field = field ∧ f.comparison = c).length ≤
      if c = .equal then 3 else 1 := by
  obtain ⟨_, _, _, filters, -, -, -, hf, rfl⟩ := read_ok.mp h
  have hkeys := (readFilters_ok.mp hf).imp fun _ _ hentry => hentry.1
  obtain ⟨keys, hsub, hspell, hlength⟩ := exists_keys hkeys field c
  -- the keys are among those of the parameters, so none of them stands twice
  have hnodup : keys.Nodup :=
    p.nodup.sublist (hsub.trans (List.filter_sublist.map _))
  calc _ = keys.length := hlength.symm
    _ ≤ (spellings field c).length := (hnodup.subperm hspell).length_le
    _ = _ := length_spellings field c

/-- Different keys ask for the same comparison of a field only if it is equality and they are two of
its three spellings; so a query has at most three filters for equality with a field, and one for any
other comparison. -/
theorem filters_unambiguous (e : Edge) (d : UInt64) :
    (∀ key key' value value' q q', key ≠ key' → key ∉ reservedKeys → key' ∉ reservedKeys →
      readAlone e d (key, value) = .ok q → readAlone e d (key', value') = .ok q' →
      ∃ f f', q.filters = [f] ∧ q'.filters = [f'] ∧
        (f.field = f'.field → f.comparison = f'.comparison →
          f.comparison = .equal ∧ key ∈ equalityKeys f.field ∧ key' ∈ equalityKeys f.field)) ∧
    ∀ p q, read e d p = .ok q → ∀ field c,
      (q.filters.filter fun f => f.field = field ∧ f.comparison = c).length ≤
        if c = .equal then 3 else 1 := by
  refine ⟨?_, fun p q h => length_filters_le h⟩
  intro key key' value value' q q' hne hkey hkey' h h'
  obtain ⟨f, hf, hclause⟩ := readAlone_filter_ok hkey h
  obtain ⟨f', hf', hclause'⟩ := readAlone_filter_ok hkey' h'
  refine ⟨f, f', hf, hf', ?_⟩
  intro hfield hcomparison
  rw [← hfield, ← hcomparison] at hclause'
  exact (hclause.eq_or_equal hclause').resolve_left hne

def spelledEdge : Edge := { name := "users", fields := ["id", "x[id"], relations := [] }

-- all three spellings count, and a field may look like a clause
def spelledParameters : Parameters :=
  .ofQueryString "?id=1&where[id]=2&where[eq][id]=3&where[ne][id]=4&where[x[id]=5"

def spelledQuery : Query where
  filters := [⟨"id", .equal, .one "1"⟩, ⟨"id", .equal, .one "2"⟩, ⟨"id", .equal, .one "3"⟩,
    ⟨"id", .notEqual, .one "4"⟩, ⟨"x[id", .equal, .one "5"⟩]

/-- Two spellings of equality with one field, and a query that has all three. -/
theorem filters_unambiguous_spelled :
    "id" ≠ "where[id]" ∧ "id" ∉ reservedKeys ∧ "where[id]" ∉ reservedKeys ∧
    readAlone spelledEdge 0 ("id", .one "1") = .ok { filters := [⟨"id", .equal, .one "1"⟩] } ∧
    readAlone spelledEdge 0 ("where[id]", .one "2") =
      .ok { filters := [⟨"id", .equal, .one "2"⟩] } ∧
    "id" ∈ equalityKeys "id" ∧ "where[id]" ∈ equalityKeys "id" ∧
    read spelledEdge 0 spelledParameters = .ok spelledQuery ∧
    (spelledQuery.filters.filter fun f => f.field = "id" ∧ f.comparison = .equal).length = 3 := by
  have hne : "id" ≠ "where[id]" := by decide
  have hplain : "id" ∉ reservedKeys := by decide
  have hclause : "where[id]" ∉ reservedKeys := by decide
  have hread : readAlone spelledEdge 0 ("id", .one "1") =
      .ok { filters := [⟨"id", .equal, .one "1"⟩] } := by decide +kernel
  have hread' : readAlone spelledEdge 0 ("where[id]", .one "2") =
      .ok { filters := [⟨"id", .equal, .one "2"⟩] } := by decide +kernel
  have hall : read spelledEdge 0 spelledParameters = .ok spelledQuery := by decide +kernel
  obtain ⟨hkeys, hcount⟩ := filters_unambiguous spelledEdge 0
  obtain ⟨f, f', hf, hf', hequal⟩ := hkeys _ _ _ _ _ _ hne hplain hclause hread hread'
  obtain rfl := List.singleton_inj.mp hf
  obtain rfl := List.singleton_inj.mp hf'
  obtain ⟨-, hkey, hkey'⟩ := hequal rfl rfl
  have hle := hcount _ _ hall "id" .equal
  exact ⟨hne, hplain, hclause, hread, hread', hkey, hkey', hall, Nat.le_antisymm hle (by decide)⟩

end Query

end RestQuery

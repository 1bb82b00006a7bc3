import RestQuery.Proofs.Outcome
import RestQuery.Query.Reading

/-!
# What reading a query can do

One law for each step of `Query.read`: what a check accepts, what an item, a
filter key and a list key give, and, in `read_ok`, what a whole reading is put
together from. Results about `Query.read` are derived from these laws.
-/

namespace RestQuery

-- ---------------------------------------------------------------------------
-- Names, items and filter keys
-- ---------------------------------------------------------------------------

theorem Edge.checkField_ok {e : Edge} {name : String} {u : Unit} :
    e.checkField name = .ok u ↔ name ∈ e.fields := by
  unfold Edge.checkField
  split <;> simp_all

theorem Edge.checkField_error {e : Edge} {name : String} {err : Error} :
    e.checkField name = .error err ↔ name ∉ e.fields ∧ err = .unknownField name := by
  unfold Edge.checkField
  split <;> simp_all [eq_comm]

theorem Edge.readHandle_ok {e : Edge} {name handle : String} :
    e.readHandle name = .ok handle ↔ ∃ r, e.embedded? name = some r ∧ r.handle = handle := by
  unfold Edge.readHandle
  split <;> simp_all

theorem Edge.readHandle_error {e : Edge} {name : String} {err : Error} :
    e.readHandle name = .error err ↔ e.embedded? name = none ∧ err = .notEmbeddable name := by
  cases h : e.embedded? name <;> simp [Edge.readHandle, h, eq_comm]

theorem Edge.readSortKey_ok {e : Edge} {item : String} {k : SortKey} :
    e.readSortKey item = .ok k ↔ k = SortKey.ofItem item ∧ k.field ∈ e.fields := by
  simp only [Edge.readSortKey, bind_ok, Edge.checkField_ok, pure_ok]
  constructor
  · rintro ⟨_, hf, rfl⟩
    exact ⟨rfl, hf⟩
  · rintro ⟨rfl, hf⟩
    exact ⟨(), hf, rfl⟩

theorem Edge.readSortKey_error {e : Edge} {item : String} {err : Error} :
    e.readSortKey item = .error err ↔
      (SortKey.ofItem item).field ∉ e.fields ∧ err = .unknownField (SortKey.ofItem item).field := by
  simp only [Edge.readSortKey, bind_error, Edge.checkField_error, pure_ne_error, and_false,
    exists_false, or_false]

theorem Comparison.ofOperator_error {operator : Option String} {err : Error} :
    Comparison.ofOperator operator = .error err ↔
      ∃ token, operator = some token ∧ ofToken? token = none ∧ err = .unknownComparison token := by
  cases operator with
  | none => simp [Comparison.ofOperator]
  | some token =>
    unfold Comparison.ofOperator
    cases h : Comparison.ofToken? token <;> simp [h, eq_comm]

theorem Comparison.ofOperator_ok {operator : Option String} {c : Comparison} :
    Comparison.ofOperator operator = .ok c ↔
      operator = none ∧ c = .equal ∨ operator = some c.token := by
  cases operator with
  | none => simp [Comparison.ofOperator, eq_comm]
  | some token =>
    unfold Comparison.ofOperator
    cases h : Comparison.ofToken? token with
    | none =>
      suffices token ≠ c.token by simpa [h]
      rintro rfl
      simp [Comparison.ofToken?_token] at h
    | some c' =>
      -- the token read is that of `c'`, and tokens tell comparisons apart
      obtain rfl := Comparison.ofToken?_eq_some.mp h
      simp only [h, Except.ok.injEq, reduceCtorEq, false_and, Option.some.injEq, false_or]
      constructor
      · rintro rfl
        rfl
      · intro ht
        simpa [Comparison.ofToken?_token] using congrArg Comparison.ofToken? ht

inductive FilterKey : String → String → Comparison → Prop
  | plain {key : String} (h : "where".toList.isPrefixOf? key.toList = none) :
      FilterKey key key .equal
  | clause {key : String} {rest : List Char} {c : WhereClause} {cmp : Comparison}
      (h : "where".toList.isPrefixOf? key.toList = some rest)
      (hc : WhereClause.ofChars? rest = some c) (ho : Comparison.ofOperator c.operator = .ok cmp) :
      FilterKey key c.field cmp

theorem FilterKey.unique {key field field' : String} {c c' : Comparison}
    (h : FilterKey key field c) (h' : FilterKey key field' c') : field = field' ∧ c = c' := by
  cases h with
  | plain hp =>
    cases h' with
    | plain => exact ⟨rfl, rfl⟩
    | clause hp' => exact absurd (hp.symm.trans hp') nofun
  | clause hp hc ho =>
    cases h' with
    | plain hp' => exact absurd (hp.symm.trans hp') nofun
    | clause hp' hc' ho' =>
      obtain rfl := Option.some.inj (hp.symm.trans hp')
      obtain rfl := Option.some.inj (hc.symm.trans hc')
      exact ⟨rfl, Except.ok.inj (ho.symm.trans ho')⟩

theorem Edge.readFilter_ok {e : Edge} {key : String} {value : Value} {f : Filter} :
    e.readFilter key value = .ok f ↔
      FilterKey key f.field f.comparison ∧ f.field ∈ e.fields ∧ f.value = value := by
  unfold Edge.readFilter
  constructor
  · intro h
    split at h
    · rename_i hp
      simp only [bind_ok, Edge.checkField_ok, pure_ok] at h
      obtain ⟨_, hf, rfl⟩ := h
      exact ⟨.plain hp, hf, rfl⟩
    · rename_i rest hp
      split at h
      · simp at h
      · rename_i c hc
        simp only [bind_ok, Edge.checkField_ok, pure_ok] at h
        obtain ⟨_, hf, cmp, ho, rfl⟩ := h
        exact ⟨.clause hp hc ho, hf, rfl⟩
  · obtain ⟨field, cmp, value'⟩ := f
    rintro ⟨hk, hf, rfl⟩
    cases hk with
    | plain h =>
      simp only [h, bind_ok, Edge.checkField_ok, pure_ok]
      exact ⟨(), hf, trivial⟩
    | clause h hc ho =>
      simp only [h, hc, bind_ok, Edge.checkField_ok, pure_ok]
      exact ⟨(), hf, cmp, ho, rfl⟩

namespace Query

variable {e : Edge} {p : Parameters}

-- ---------------------------------------------------------------------------
-- List keys and filters
-- ---------------------------------------------------------------------------

theorem readFields_ok {names : List String} :
    readFields e p = .ok names ↔ names = p.items "fields" ∧ ∀ name ∈ names, name ∈ e.fields := by
  have hcheck (name a : String) : (do e.checkField name; return name) = Except.ok a ↔
      a = id name ∧ a ∈ e.fields := by
    simp only [bind_ok, Edge.checkField_ok, pure_ok, exists_const, id]
    constructor
    · rintro ⟨h, rfl⟩
      exact ⟨rfl, h⟩
    · rintro ⟨rfl, h⟩
      exact ⟨h, rfl⟩
  rw [readFields, mapM_ok_of_check hcheck, List.map_id]

theorem readHandles_ok {handles : List String} :
    readHandles e p = .ok handles ↔
      List.Forall₂ (fun name handle => ∃ r, e.embedded? name = some r ∧ r.handle = handle)
        (p.items "embed") handles := by
  simp only [readHandles, mapM_ok, Edge.readHandle_ok]

theorem readSort_ok {keys : List SortKey} :
    readSort e p = .ok keys ↔
      keys = (p.items "sort").map SortKey.ofItem ∧ ∀ k ∈ keys, k.field ∈ e.fields :=
  mapM_ok_of_check fun _ _ => Edge.readSortKey_ok

theorem readFilters_ok {filters : List Filter} :
    readFilters e p = .ok filters ↔
      List.Forall₂ (fun entry f => FilterKey entry.1 f.field f.comparison ∧
        f.field ∈ e.fields ∧ f.value = entry.2) (filterEntries p) filters := by
  simp only [readFilters, mapM_ok, Edge.readFilter_ok]

-- ---------------------------------------------------------------------------
-- Lists without repetitions
-- ---------------------------------------------------------------------------

/-- The elements of a list, each where it first stands. -/
def distinct (list : List String) : List String := list.foldl (fun kept a => addNew a kept) []

theorem mem_foldl_addNew {a : String} {list kept : List String} :
    a ∈ list.foldl (fun kept a => addNew a kept) kept ↔ a ∈ kept ∨ a ∈ list := by
  induction list generalizing kept with
  | nil => simp
  | cons b list ih => rw [List.foldl_cons, ih, mem_addNew, List.mem_cons, or_assoc]

theorem nodup_foldl_addNew {list kept : List String} (h : kept.Nodup) :
    (list.foldl (fun kept a => addNew a kept) kept).Nodup := by
  induction list generalizing kept with
  | nil => exact h
  | cons b list ih => exact ih (nodup_addNew h)

theorem foldl_addNew_of_nodup {list kept : List String} (h : (kept ++ list).Nodup) :
    list.foldl (fun kept a => addNew a kept) kept = kept ++ list := by
  induction list generalizing kept with
  | nil => simp
  | cons b list ih =>
    -- nothing that was kept comes again, so each element is added
    have hb : b ∉ kept := by
      intro hmem
      exact (List.nodup_append.mp h).2.2 b hmem b List.mem_cons_self rfl
    rw [List.foldl_cons, addNew, if_neg hb, ih (by simpa using h), List.append_assoc]
    rfl

theorem mem_distinct {a : String} {list : List String} : a ∈ distinct list ↔ a ∈ list := by
  simp [distinct, mem_foldl_addNew]

theorem nodup_distinct (list : List String) : (distinct list).Nodup :=
  nodup_foldl_addNew .nil

theorem distinct_of_nodup {list : List String} (h : list.Nodup) : distinct list = list :=
  foldl_addNew_of_nodup h

-- ---------------------------------------------------------------------------
-- The whole reading
-- ---------------------------------------------------------------------------

theorem read_ok {d : UInt64} {q : Query} :
    read e d p = .ok q ↔ ∃ names handles keys filters,
      readFields e p = .ok names ∧ readHandles e p = .ok handles ∧ readSort e p = .ok keys ∧
      readFilters e p = .ok filters ∧
      q = ⟨distinct names, distinct handles, keys, Window.read? d p, filters⟩ := by
  simp only [read, bind_ok, pure_ok, distinct, eq_comm (b := q)]
  constructor
  · rintro ⟨names, hn, handles, hh, keys, hk, filters, hf, h⟩
    exact ⟨names, handles, keys, filters, hn, hh, hk, hf, h⟩
  · rintro ⟨names, handles, keys, filters, hn, hh, hk, hf, h⟩
    exact ⟨names, hn, handles, hh, keys, hk, filters, hf, h⟩

end Query

end RestQuery

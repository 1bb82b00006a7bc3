import RestQuery.Command
import RestQuery.Proofs.Json.Lossless

/-!
# What is printed as JSON determines what was meant

The JSON of a query determines the query, and that of a request the request
(`printed_inj`). The members of an object keep their order, so that a member
that is left out shows: another key stands in its place
(`Json.member?_append_inj`).
-/

namespace RestQuery

-- ---------------------------------------------------------------------------
-- Values
-- ---------------------------------------------------------------------------

namespace Json

theorem strings_inj {texts texts' : List String} :
    strings texts = strings texts' ↔ texts = texts' := by
  have hstring : Function.Injective Json.string := fun _ _ => Json.string.inj
  simp only [strings, array.injEq, List.map_inj_right hstring]

theorem count_inj {m n : UInt64} : count m = count n ↔ m = n := by
  rw [count, count, number.injEq, Int.natCast_inj, UInt64.toNat_inj]

/-- An optional member is there or not, which the next key tells. -/
theorem member?_append_inj {key : String} {value? value?' : Option Json}
    {rest rest' : List (String × Json)} (hrest : ∀ m ∈ rest.head?, m.1 ≠ key)
    (hrest' : ∀ m ∈ rest'.head?, m.1 ≠ key) :
    member? key value? ++ rest = member? key value?' ++ rest' ↔
      value? = value?' ∧ rest = rest' := by
  refine ⟨fun h => ?_, by rintro ⟨rfl, rfl⟩; rfl⟩
  cases value? with
  | none =>
    cases value?' with
    | none => exact ⟨rfl, h⟩
    | some value' => exact absurd rfl (hrest (key, value') (by rw [show rest = _ from h]; rfl))
  | some value =>
    cases value?' with
    | none => exact absurd rfl (hrest' (key, value) (by rw [show rest' = _ from h.symm]; rfl))
    | some value' =>
      obtain ⟨hmember, rfl⟩ := List.cons.inj h
      exact ⟨congrArg some (Prod.mk.inj hmember).2, rfl⟩

theorem member?_inj {key : String} {value? value?' : Option Json} :
    member? key value? = member? key value?' ↔ value? = value?' := by
  simpa using @member?_append_inj key value? value?' [] [] (by simp) (by simp)

end Json

open Json (strings_inj count_inj member?_append_inj member?_inj)

-- ---------------------------------------------------------------------------
-- Queries
-- ---------------------------------------------------------------------------

theorem Value.toJson_inj {v v' : Value} : v.toJson = v'.toJson ↔ v = v' := by
  cases v with
  | one text => cases v' <;> simp [toJson, Json.strings]
  | many texts =>
    cases v' with
    | one text' => simp [toJson, Json.strings]
    | many texts' => rw [toJson, toJson, strings_inj, many.injEq]

theorem SortKey.toJson_injective : Function.Injective toJson := by
  rintro ⟨field, ascending⟩ ⟨field', ascending'⟩ h
  simpa [toJson] using h

theorem Window.toJson_injective : Function.Injective toJson := by
  rintro ⟨skip, limit, page⟩ ⟨skip', limit', page'⟩ h
  have hcount : Function.Injective Json.count := fun _ _ => count_inj.mp
  simpa [toJson, count_inj, member?_inj, (Option.map_injective hcount).eq_iff] using h

theorem Comparison.name_injective : Function.Injective name := fun c c' =>
  (by decide : ∀ c ∈ all, ∀ c' ∈ all, c.name = c'.name → c = c') c (mem_all c) c' (mem_all c')

theorem Filter.toJson_injective : Function.Injective toJson := by
  rintro ⟨field, comparison, value⟩ ⟨field', comparison', value'⟩ h
  simpa [toJson, Value.toJson_inj, Comparison.name_injective.eq_iff] using h

theorem Query.toJson_inj {q q' : Query} : q.toJson = q'.toJson ↔ q = q' := by
  refine ⟨fun h => ?_, fun h => h ▸ rfl⟩
  obtain ⟨fields, expansions, sort, window, filters⟩ := q
  obtain ⟨fields', expansions', sort', window', filters'⟩ := q'
  simp only [toJson, List.cons_append, List.nil_append, Json.object.injEq, List.cons.injEq,
    Prod.mk.injEq, true_and, strings_inj, Json.array.injEq,
    List.map_inj_right SortKey.toJson_injective] at h
  obtain ⟨rfl, rfl, rfl, htail⟩ := h
  rw [member?_append_inj (by simp) (by simp)] at htail
  obtain ⟨hwindow, hfilters⟩ := htail
  obtain rfl := Option.map_injective Window.toJson_injective hwindow
  simp only [List.cons.injEq, Prod.mk.injEq, Json.array.injEq, true_and, and_true,
    List.map_inj_right Filter.toJson_injective] at hfilters
  rw [hfilters]

-- ---------------------------------------------------------------------------
-- Requests
-- ---------------------------------------------------------------------------

theorem Operation.name_injective : Function.Injective name := fun o o' =>
  (by decide : ∀ o ∈ all, ∀ o' ∈ all, o.name = o'.name → o = o') o (mem_all o) o' (mem_all o')

theorem Request.toJson_inj {r r' : Request} : r.toJson = r'.toJson ↔ r = r' := by
  refine ⟨fun h => ?_, fun h => h ▸ rfl⟩
  obtain ⟨version, edge, id, operation, query, body⟩ := r
  obtain ⟨version', edge', id', operation', query', body'⟩ := r'
  have hstring : Function.Injective Json.string := fun _ _ => Json.string.inj
  simp only [toJson, List.cons_append, List.nil_append, List.append_assoc, Json.object.injEq,
    List.cons.injEq, Prod.mk.injEq, Json.string.injEq, true_and] at h
  obtain ⟨rfl, rfl, htail⟩ := h
  rw [member?_append_inj (by simp) (by simp)] at htail
  obtain ⟨hid, hrest⟩ := htail
  obtain rfl := Option.map_injective hstring hid
  simp only [List.cons.injEq, Prod.mk.injEq, Json.string.injEq, Query.toJson_inj, member?_inj,
    true_and] at hrest
  obtain ⟨hname, rfl, rfl⟩ := hrest
  rw [Operation.name_injective hname]

namespace Command

-- ---------------------------------------------------------------------------
-- Output
-- ---------------------------------------------------------------------------

/-- No two queries, and no two requests, are printed as the same JSON. -/
theorem printed_inj :
    (∀ q q' : Query, renderQuery .json q = renderQuery .json q' ↔ q = q') ∧
    ∀ r r' : Request, renderRequest .json r = renderRequest .json r' ↔ r = r' :=
  ⟨fun q q' => by rw [renderQuery, renderQuery, String.append_left_inj, Json.pretty_inj,
      Query.toJson_inj],
    fun r r' => by rw [renderRequest, renderRequest, String.append_left_inj, Json.pretty_inj,
      Request.toJson_inj]⟩

end Command

end RestQuery

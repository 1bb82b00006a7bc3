import RestQuery.Proofs.Query.ReadLaws

/-!
# The grammar of where keys

`ofChars?_eq_some`: a text is read as a clause exactly when it is the text of
that clause and the tokens are well formed. So the grammar has two shapes, an
accepted text is rebuilt from its tokens, and what has neither shape is
malformed for every edge (`parse?_grammar`).
-/

namespace RestQuery

/-- A token that brackets can hold: not empty, and without the closing one. -/
def IsToken (token : String) : Prop := token ≠ "" ∧ ']' ∉ token.toList

instance (token : String) : Decidable (IsToken token) := by unfold IsToken; infer_instance

theorem bracketed?_token {token : String} (h : IsToken token) (rest : List Char) :
    bracketed? ('[' :: token.toList ++ ']' :: rest) = some (token.toList, rest) :=
  bracketed?_eq_some.mpr ⟨rfl, fun hnil => h.1 (String.toList_eq_nil_iff.mp hnil), h.2⟩

theorem isToken_of_bracketed? {cs token rest : List Char} (h : bracketed? cs = some (token, rest)) :
    cs = '[' :: token ++ ']' :: rest ∧ IsToken (.ofList token) := by
  obtain ⟨hcs, hne, hclose⟩ := bracketed?_eq_some.mp h
  refine ⟨hcs, ?_, by simpa using hclose⟩
  intro hempty
  exact hne (by simpa using congrArg String.toList hempty)

namespace WhereClause

def WellFormed (c : WhereClause) : Prop :=
  IsToken c.field ∧ ∀ operator, c.operator = some operator → IsToken operator

theorem toList_render_none (field : String) :
    (render ⟨none, field⟩).toList = '[' :: field.toList ++ [']'] := by
  simp [render]

theorem toList_render_some (operator field : String) :
    (render ⟨some operator, field⟩).toList =
      '[' :: operator.toList ++ ']' :: ('[' :: field.toList ++ [']']) := by
  simp [render]

theorem ofChars?_render {c : WhereClause} (h : c.WellFormed) :
    ofChars? c.render.toList = some c := by
  obtain ⟨operator, field⟩ := c
  obtain ⟨hfield, hoperator⟩ := h
  have hlast : bracketed? ('[' :: (field.toList ++ [']'])) = some (field.toList, []) :=
    bracketed?_token hfield []
  cases operator with
  | none =>
    rw [toList_render_none, List.cons_append, ofChars?, hlast]
    simp
  | some operator =>
    rw [toList_render_some, ofChars?, bracketed?_token (hoperator operator rfl)]
    simp [hlast]

theorem render_of_ofChars? {cs : List Char} {c : WhereClause} (h : ofChars? cs = some c) :
    cs = c.render.toList ∧ c.WellFormed := by
  unfold ofChars? at h
  split at h
  · simp at h
  · rename_i field hfirst
    obtain rfl := Option.some.inj h
    obtain ⟨rfl, htoken⟩ := isToken_of_bracketed? hfirst
    exact ⟨by simp [toList_render_none], htoken, by simp⟩
  · rename_i operator rest _ hfirst
    obtain ⟨rfl, hoperator⟩ := isToken_of_bracketed? hfirst
    split at h
    · rename_i field hsecond
      obtain rfl := Option.some.inj h
      obtain ⟨rfl, hfield⟩ := isToken_of_bracketed? hsecond
      refine ⟨by simp [toList_render_some], hfield, ?_⟩
      rintro _ ⟨⟩
      exact hoperator
    · simp at h

theorem ofChars?_eq_some {cs : List Char} {c : WhereClause} :
    ofChars? cs = some c ↔ cs = c.render.toList ∧ c.WellFormed := by
  constructor
  · exact render_of_ofChars?
  · rintro ⟨rfl, h⟩
    exact ofChars?_render h

theorem parse?_eq_some {clause : String} {c : WhereClause} :
    parse? clause = some c ↔ clause = c.render ∧ c.WellFormed := by
  rw [parse?, ofChars?_eq_some, String.toList_inj]

-- a token may hold the opening bracket
example : parse? "[gte][a[b]" = some ⟨some "gte", "a[b"⟩ := by decide

theorem parse?_eq_none {clause : String} :
    parse? clause = none ↔ ¬∃ c : WhereClause, c.WellFormed ∧ clause = c.render := by
  rw [Option.eq_none_iff_forall_ne_some, not_exists]
  refine forall_congr' fun c => ?_
  rw [ne_eq, parse?_eq_some, and_comm]

end WhereClause

/-- Only its shape makes a filter key malformed, not the names in it. -/
theorem Edge.readFilter_malformed {e : Edge} {clause : String} {value : Value} :
    e.readFilter ("where" ++ clause) value = .error .malformedWhere ↔
      WhereClause.parse? clause = none := by
  have hprefix : "where".toList.isPrefixOf? ("where" ++ clause).toList = some clause.toList := by
    rw [String.toList_append, Text.isPrefixOf?_append]
  simp only [readFilter, hprefix, WhereClause.parse?]
  cases WhereClause.ofChars? clause.toList with
  | none => simp
  | some c =>
    simp only [bind_error, Edge.checkField_error, Comparison.ofOperator_error, pure_ne_error,
      reduceCtorEq, and_false, exists_false, or_false]

namespace WhereClause

/-- A clause is a field in brackets, alone or after an operator in brackets; any other text is
malformed. -/
theorem parse?_grammar (clause : String) :
    (∀ field, parse? clause = some ⟨none, field⟩ ↔
      clause = "[" ++ field ++ "]" ∧ IsToken field) ∧
    (∀ operator field, parse? clause = some ⟨some operator, field⟩ ↔
      clause = "[" ++ operator ++ "][" ++ field ++ "]" ∧ IsToken operator ∧ IsToken field) ∧
    (parse? clause = none ↔ ¬∃ c : WhereClause, c.WellFormed ∧ clause = c.render) ∧
    (∀ (e : Edge) (value : Value),
      e.readFilter ("where" ++ clause) value = .error .malformedWhere ↔ parse? clause = none) ∧
    (parse? clause = none ∨ (parse? clause).map render = some clause) := by
  refine ⟨fun field => ?_, fun operator field => ?_, parse?_eq_none,
    fun _ _ => Edge.readFilter_malformed, ?_⟩
  · simp [parse?_eq_some, WellFormed, render]
  · simp [parse?_eq_some, WellFormed, render, and_comm]
  · cases h : parse? clause with
    | none => exact .inl rfl
    | some c => exact .inr (congrArg some (parse?_eq_some.mp h).1.symm)

end WhereClause

end RestQuery

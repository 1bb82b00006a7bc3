import RestQuery.Proofs.Blame
import RestQuery.Proofs.Schema.NamingLaws

/-!
# The first offence of a schema

`Schema.Breach` lists every breach of the naming rules with the place where a
reader comes upon it, each by itself and without regard to the others. The
check of a schema fails exactly when there is a breach, and then it reports the
one whose place comes first (`Schema.check_first`).

A place is an address, from the API down to the part that is wrong: APIs, edges,
fields and relations by their position, the parts of each by the order in which
they are read. Addresses are compared from the left, as words are in a
dictionary.
-/

namespace RestQuery

abbrev Place := List Nat

/-- An edge's name (0), then its fields (1), then its relations (2). A field is empty (0) or
repeats one before it (1). -/
inductive Edge.Breach (e : Edge) : Place → Offence → Prop
  | name : e.name = "" ∨ '/' ∈ e.name.toList → Breach e [0] (.edgeName e.name)
  | emptyField {k : Nat} : e.fields[k]? = some "" → Breach e [1, k, 0] (.emptyField e.name)
  | repeatedField {k : Nat} {field : String} : e.fields[k]? = some field →
      field ∈ e.fields.take k → Breach e [1, k, 1] (.repeatedField e.name field)
  | repeatedRelation {k : Nat} {r : Relation} : e.relations[k]? = some r →
      r.name ∈ (e.relations.take k).map Relation.name →
      Breach e [2, k] (.repeatedRelation e.name r.name)

/-- Edge by edge what is wrong with it (0), then its name if it repeats one before it (1). -/
inductive Api.Breach (a : Api) : Place → Offence → Prop
  | edge {j : Nat} {e : Edge} {place : Place} {o : Offence} : a.edges[j]? = some e →
      e.Breach place o → Breach a (j :: 0 :: place) o
  | repeatedEdge {j : Nat} {e : Edge} : a.edges[j]? = some e →
      e.name ∈ (a.edges.take j).map Edge.name →
      Breach a [j, 1] (.repeatedEdge a.version e.name)

/-- API by API its version if it is empty (0), or if it repeats one before it (1), then its
edges (2). -/
inductive Schema.Breach (s : Schema) : Place → Offence → Prop
  | noApi : s.apis = [] → Breach s [] .noApi
  | emptyVersion {i : Nat} {a : Api} : s.apis[i]? = some a → a.version = "" →
      Breach s [i, 0] .emptyVersion
  | repeatedVersion {i : Nat} {a : Api} : s.apis[i]? = some a →
      a.version ∈ (s.apis.take i).map Api.version →
      Breach s [i, 1] (.repeatedVersion a.version)
  | api {i : Nat} {a : Api} {place : Place} {o : Offence} : s.apis[i]? = some a →
      a.Breach place o → Breach s (i :: 2 :: place) o

/-- A breach with none at an earlier place. -/
def First (breach : Place → Offence → Prop) (place : Place) (o : Offence) : Prop :=
  breach place o ∧ ∀ earlier < place, ∀ other, ¬breach earlier other

/-- What a search has found is the first breach, and nothing if there is none. -/
def Reports (breach : Place → Offence → Prop) : Option Offence → Prop
  | none => ∀ place o, ¬breach place o
  | some o => ∃ place, First breach place o

-- ---------------------------------------------------------------------------
-- One breach at a place
-- ---------------------------------------------------------------------------

theorem Edge.Breach.unique {e : Edge} {place : Place} {o o' : Offence} (h : e.Breach place o)
    (h' : e.Breach place o') : o = o' := by
  cases h with
  | name | emptyField => cases h'; rfl
  | repeatedField hfield =>
    cases h' with
    | repeatedField hfield' =>
      cases hfield.symm.trans hfield'
      rfl
  | repeatedRelation hrelation =>
    cases h' with
    | repeatedRelation hrelation' =>
      cases hrelation.symm.trans hrelation'
      rfl

theorem Api.Breach.unique {a : Api} {place : Place} {o o' : Offence} (h : a.Breach place o)
    (h' : a.Breach place o') : o = o' := by
  cases h with
  | edge hedge h =>
    cases h' with
    | edge hedge' h' =>
      cases hedge.symm.trans hedge'
      exact h.unique h'
  | repeatedEdge hedge =>
    cases h' with
    | repeatedEdge hedge' =>
      cases hedge.symm.trans hedge'
      rfl

theorem Schema.Breach.unique {s : Schema} {place : Place} {o o' : Offence} (h : s.Breach place o)
    (h' : s.Breach place o') : o = o' := by
  cases h with
  | noApi | emptyVersion => cases h'; rfl
  | repeatedVersion hapi =>
    cases h' with
    | repeatedVersion hapi' =>
      cases hapi.symm.trans hapi'
      rfl
  | api hapi h =>
    cases h' with
    | api hapi' h' =>
      cases hapi.symm.trans hapi'
      exact h.unique h'

-- ---------------------------------------------------------------------------
-- Searches
-- ---------------------------------------------------------------------------

section
variable {b c : Place → Offence → Prop} {x y : Option Offence}

/-- There is one first breach only, where breaches at one place are the same. -/
theorem First.unique {place place' : Place} {o o' : Offence} (h : First b place o)
    (h' : First b place' o') (hb : ∀ place o o', b place o → b place o' → o = o') : o = o' := by
  rcases Std.lt_trichotomy place place' with hlt | rfl | hlt
  · exact absurd h.1 (h'.2 _ hlt _)
  · exact hb _ _ _ h.1 h'.1
  · exact absurd h'.1 (h.2 _ hlt _)

theorem Reports.eq_some_iff {o : Offence} (h : Reports b x)
    (hb : ∀ place o o', b place o → b place o' → o = o') :
    x = some o ↔ ∃ place, First b place o := by
  constructor
  · rintro rfl
    exact h
  · rintro ⟨place, hfirst⟩
    cases x with
    | none => exact absurd hfirst.1 (h place o)
    | some found =>
      obtain ⟨place', hfound⟩ := h
      exact congrArg some (hfound.unique hfirst hb)

theorem Reports.of_iff (h : Reports b x) (hiff : ∀ place o, b place o ↔ c place o) :
    Reports c x := by
  have heq : b = c := funext fun place => funext fun o => propext (hiff place o)
  exact heq ▸ h

theorem Reports.of_if (p : Prop) [Decidable p] (place : Place) (o : Offence) :
    Reports (fun at' found => p ∧ at' = place ∧ found = o) (if p then some o else none) := by
  split
  next h =>
    refine ⟨place, ⟨h, rfl, rfl⟩, ?_⟩
    rintro _ hlt _ ⟨-, rfl, -⟩
    exact List.lt_irrefl _ hlt
  next h => exact fun _ _ hb => h hb.1

/-- A search that goes on at later places if the first finds nothing. -/
theorem Reports.or (hb : Reports b x) (hc : Reports c y)
    (hlater : ∀ {p o q o'}, b p o → c q o' → p < q) :
    Reports (fun place o => b place o ∨ c place o) (x.or y) := by
  cases x with
  | some o =>
    obtain ⟨place, hplace, hfirst⟩ := hb
    refine ⟨place, .inl hplace, ?_⟩
    rintro earlier hlt other (h | h)
    · exact hfirst earlier hlt other h
    -- all that the second search could find stands after what the first has found
    · exact List.lt_asymm hlt (hlater hplace h)
  | none =>
    have hiff (place : Place) (o : Offence) : c place o ↔ b place o ∨ c place o :=
      ⟨.inr, fun h => h.resolve_left (hb place o)⟩
    exact hc.of_iff hiff

theorem if_some_eq_or {p : Prop} [Decidable p] (o : Offence) (x : Option Offence) :
    (if p then some o else x) = (if p then some o else none).or x := by
  split <;> rfl

theorem Reports.of_else (p : Prop) [Decidable p] (place : Place) (o : Offence) (hc : Reports c y)
    (hlater : ∀ {q o'}, c q o' → place < q) :
    Reports (fun at' found => (p ∧ at' = place ∧ found = o) ∨ c at' found)
      (if p then some o else y) := by
  rw [if_some_eq_or]
  refine (Reports.of_if p place o).or hc ?_
  rintro _ _ _ _ ⟨-, rfl, -⟩ h
  exact hlater h

theorem Reports.under (n : Nat) (hb : Reports b x) :
    Reports (fun place o => ∃ rest, place = n :: rest ∧ b rest o) x := by
  cases x with
  | some o =>
    obtain ⟨place, hplace, hfirst⟩ := hb
    refine ⟨n :: place, ⟨place, rfl, hplace⟩, ?_⟩
    rintro _ hlt other ⟨rest, rfl, hrest⟩
    have hlt : rest < place := by simpa [List.cons_lt_cons_iff] using hlt
    exact hfirst rest hlt other hrest
  | none =>
    rintro _ o ⟨rest, -, hrest⟩
    exact hb rest o hrest

end

section
variable {α : Type} {check : List α → α → Option Offence}
  {breach : List α → α → Place → Offence → Prop}

theorem reports_firstOffence_from (h : ∀ before a, Reports (breach before a) (check before a))
    (before rest : List α) :
    Reports (fun place o => ∃ i a inner, place = (before.length + i) :: inner ∧
      rest[i]? = some a ∧ breach (before ++ rest.take i) a inner o)
      (firstOffence check before rest) := by
  induction rest generalizing before with
  | nil => simp [Reports, firstOffence]
  | cons a rest ih =>
    have hhead := (h before a).under before.length
    refine (hhead.or (ih (before ++ [a])) ?_).of_iff fun place o => ?_
    · rintro _ _ _ _ ⟨inner, rfl, -⟩ ⟨i, b, inner', rfl, -⟩
      rw [List.cons_lt_cons_iff, List.length_append, List.length_singleton]
      exact .inl (by omega)
    have hlength (i : Nat) : (before ++ [a]).length + i = before.length + (i + 1) := by
      rw [List.length_append, List.length_singleton]
      omega
    constructor
    · rintro (⟨inner, hplace, hb⟩ | ⟨i, b, inner, hplace, hget, hb⟩)
      · exact ⟨0, a, inner, hplace, rfl, by simpa using hb⟩
      · exact ⟨i + 1, b, inner, hlength i ▸ hplace, hget, by simpa using hb⟩
    · rintro ⟨i, b, inner, hplace, hget, hb⟩
      cases i with
      | zero =>
        cases hget
        exact .inl ⟨inner, hplace, by simpa using hb⟩
      | succ i => exact .inr ⟨i, b, inner, hlength i ▸ hplace, hget, by simpa using hb⟩

/-- A pass over a list reports the first breach of its elements, at the position of the element. -/
theorem reports_firstOffence (h : ∀ before a, Reports (breach before a) (check before a))
    (rest : List α) :
    Reports (fun place o => ∃ i a inner, place = i :: inner ∧ rest[i]? = some a ∧
      breach (rest.take i) a inner o) (firstOffence check [] rest) := by
  simpa using reports_firstOffence_from h [] rest

end

-- ---------------------------------------------------------------------------
-- The levels of a schema
-- ---------------------------------------------------------------------------

theorem Edge.reports_offence? (e : Edge) : Reports e.Breach e.offence? := by
  have hfields := (reports_firstOffence (fun (before : List String) field =>
    Reports.of_else (field = "") [0] (.emptyField e.name)
      (Reports.of_if (field ∈ before) [1] (.repeatedField e.name field))
      (by rintro _ _ ⟨-, rfl, -⟩; decide)) e.fields).under 1
  have hrelations := (reports_firstOffence (fun (before : List Relation) r =>
    Reports.of_if (r.name ∈ before.map Relation.name) [] (.repeatedRelation e.name r.name))
      e.relations).under 2
  refine ((hfields.or hrelations ?_).of_else _ [0] (.edgeName e.name) ?_).of_iff fun place o => ?_
  · rintro _ _ _ _ ⟨_, rfl, -⟩ ⟨_, rfl, -⟩
    simp [List.cons_lt_cons_iff]
  · rintro _ _ (⟨_, rfl, -⟩ | ⟨_, rfl, -⟩) <;> simp [List.cons_lt_cons_iff]
  constructor
  · rintro (⟨h, rfl, rfl⟩ | ⟨_, rfl, k, field, _, rfl, hget, h⟩ | ⟨_, rfl, k, r, _, rfl, hget, h⟩)
    · exact .name h
    · rcases h with ⟨rfl, rfl, rfl⟩ | ⟨h, rfl, rfl⟩
      · exact .emptyField hget
      · exact .repeatedField hget h
    · obtain ⟨h, rfl, rfl⟩ := h
      exact .repeatedRelation hget h
  · intro h
    cases h with
    | name h => exact .inl ⟨h, rfl, rfl⟩
    | emptyField hget =>
      exact .inr (.inl ⟨_, rfl, _, _, _, rfl, hget, .inl ⟨rfl, rfl, rfl⟩⟩)
    | repeatedField hget h =>
      exact .inr (.inl ⟨_, rfl, _, _, _, rfl, hget, .inr ⟨h, rfl, rfl⟩⟩)
    | repeatedRelation hget h =>
      exact .inr (.inr ⟨_, rfl, _, _, _, rfl, hget, h, rfl, rfl⟩)

theorem Api.reports_offence? (a : Api) : Reports a.Breach a.offence? := by
  refine (reports_firstOffence (fun (before : List Edge) e =>
    (e.reports_offence?.under 0).or
      (Reports.of_if (e.name ∈ before.map Edge.name) [1] (.repeatedEdge a.version e.name)) ?_)
        a.edges).of_iff fun place o => ?_
  · rintro _ _ _ _ ⟨_, rfl, -⟩ ⟨-, rfl, -⟩
    simp [List.cons_lt_cons_iff]
  constructor
  · rintro ⟨j, e, _, rfl, hget, ⟨inner, rfl, h⟩ | ⟨h, rfl, rfl⟩⟩
    · exact .edge hget h
    · exact .repeatedEdge hget h
  · intro h
    cases h with
    | edge hget h => exact ⟨_, _, _, rfl, hget, .inl ⟨_, rfl, h⟩⟩
    | repeatedEdge hget h => exact ⟨_, _, _, rfl, hget, .inr ⟨h, rfl, rfl⟩⟩

theorem Schema.reports_offence? (s : Schema) : Reports s.Breach s.offence? := by
  have hapis := reports_firstOffence (fun (before : List Api) a =>
    Reports.of_else (a.version = "") [0] .emptyVersion
      (Reports.of_else (a.version ∈ before.map Api.version) [1] (.repeatedVersion a.version)
        (a.reports_offence?.under 2) (by rintro _ _ ⟨_, rfl, -⟩; simp [List.cons_lt_cons_iff]))
      (by
        rintro _ _ (⟨-, rfl, -⟩ | ⟨_, rfl, -⟩)
        · decide
        · simp [List.cons_lt_cons_iff])) s.apis
  refine (hapis.of_else _ [] .noApi ?_).of_iff fun place o => ?_
  · rintro _ _ ⟨_, _, _, rfl, -⟩
    exact List.nil_lt_cons _ _
  constructor
  · rintro (⟨h, rfl, rfl⟩ | ⟨i, a, _, rfl, hget, h⟩)
    · exact .noApi h
    · rcases h with ⟨h, rfl, rfl⟩ | ⟨h, rfl, rfl⟩ | ⟨_, rfl, h⟩
      · exact .emptyVersion hget h
      · exact .repeatedVersion hget h
      · exact .api hget h
  · intro h
    cases h with
    | noApi h => exact .inl ⟨h, rfl, rfl⟩
    | emptyVersion hget h => exact .inr ⟨_, _, _, rfl, hget, .inl ⟨h, rfl, rfl⟩⟩
    | repeatedVersion hget h => exact .inr ⟨_, _, _, rfl, hget, .inr (.inl ⟨h, rfl, rfl⟩)⟩
    | api hget h => exact .inr ⟨_, _, _, rfl, hget, .inr (.inr ⟨_, rfl, h⟩)⟩

-- ---------------------------------------------------------------------------
-- The check
-- ---------------------------------------------------------------------------

/-- A schema passes its check exactly when it is well named. Otherwise the first breach is
reported, in the order in which a schema is read. -/
theorem Schema.check_first (s : Schema) :
    (s.check = .ok s ↔ s.WellNamed) ∧
    ∀ err, s.check = .error err ↔ ∃ place o, First s.Breach place o ∧
      err = .schema (.offence o) ∧ err.message = "Schema error: " ++ o.message := by
  constructor
  · rw [← offence?_eq_none, check]
    cases s.offence? <;> simp
  · intro err
    rw [check_error]
    simp only [s.reports_offence?.eq_some_iff fun _ _ _ => Breach.unique]
    constructor
    · rintro ⟨o, ⟨place, hfirst⟩, rfl⟩
      exact ⟨place, o, hfirst, rfl, rfl⟩
    · rintro ⟨place, o, hfirst, rfl, -⟩
      exact ⟨o, ⟨place, hfirst⟩, rfl⟩

-- an edge is read through before its name is held against the edges before it
example : Schema.check ⟨[⟨"1", [⟨"users", ["id"], []⟩, ⟨"users", ["id", "", ""], []⟩]⟩, ⟨"", []⟩]⟩ =
    .error (.schema (.offence (.emptyField "users"))) := by decide

end RestQuery

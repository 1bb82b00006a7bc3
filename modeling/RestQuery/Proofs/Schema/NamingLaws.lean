import Mathlib.Data.List.Induction
import Mathlib.Data.List.Nodup
import RestQuery.Schema.Naming

/-!
# No offence means well named

A pass over a list that knows what came before finds nothing exactly when every
element is right by itself and no key is repeated (`firstOffence_distinct`).
Each level of a schema is such a pass, so a schema without an offence is a
schema that is well named (`Schema.offence?_eq_none`).
-/

namespace RestQuery

theorem nodup_map_iff {α β : Type} {key : α → β} {rest : List α} :
    (rest.map key).Nodup ↔ ∀ pre a post, rest = pre ++ a :: post → key a ∉ pre.map key := by
  constructor
  · rintro h pre a post rfl hmem
    rw [List.map_append, List.map_cons] at h
    exact (List.nodup_append.mp h).2.2 _ hmem _ List.mem_cons_self rfl
  · intro h
    induction rest using List.reverseRecOn with
    | nil => exact .nil
    | append_singleton rest a ih =>
      rw [List.map_append, List.map_singleton]
      refine List.nodup_append.mpr ⟨ih ?_, List.nodup_singleton _, ?_⟩
      · intro pre b post hrest
        exact h pre b (post ++ [a]) (by simp [hrest])
      · rintro b hb _ hc rfl
        exact h rest a [] rfl (List.mem_singleton.mp hc ▸ hb)

section
variable {α β : Type} {check : List α → α → Option Offence} {good : α → Prop} {key : α → β}

theorem firstOffence_distinct {rest : List α}
    (h : ∀ before a, check before a = none ↔ good a ∧ key a ∉ before.map key) :
    firstOffence check [] rest = none ↔ (∀ a ∈ rest, good a) ∧ (rest.map key).Nodup := by
  simp only [firstOffence_eq_none, List.nil_append, h, nodup_map_iff]
  constructor
  · intro hrest
    refine ⟨fun a ha => ?_, fun pre a post hsplit => (hrest pre a post hsplit).2⟩
    obtain ⟨pre, post, hsplit⟩ := List.append_of_mem ha
    exact (hrest pre a post hsplit).1
  · rintro ⟨hgood, hkeys⟩ pre a post hsplit
    exact ⟨hgood a (by simp [hsplit]), hkeys pre a post hsplit⟩

end

theorem Edge.offence?_eq_none {e : Edge} : e.offence? = none ↔ e.WellNamed := by
  have hfields : ∀ (before : List String) (field : String), (if field = "" then some (Offence.emptyField e.name)
      else if field ∈ before then some (.repeatedField e.name field) else none) = none ↔
      field ≠ "" ∧ field ∉ before.map id := by
    intro before field
    split
    · simp_all
    · split <;> simp_all
  have hrelations : ∀ (before : List Relation) (r : Relation), (if r.name ∈ before.map Relation.name
      then some (Offence.repeatedRelation e.name r.name) else none) = none ↔
      True ∧ r.name ∉ before.map Relation.name := by
    intro before r
    split <;> simp_all
  unfold Edge.offence? Edge.WellNamed
  split
  · rename_i hname
    simp only [reduceCtorEq, false_iff]
    rintro ⟨hne, hslash, -⟩
    exact hname.elim hne hslash
  · rename_i hname
    obtain ⟨hne, hslash⟩ := not_or.mp hname
    rw [Option.or_eq_none_iff, firstOffence_distinct hfields, firstOffence_distinct hrelations,
      List.map_id]
    constructor
    · rintro ⟨⟨hempty, hfields⟩, -, hrelations⟩
      exact ⟨hne, hslash, fun hmem => hempty _ hmem rfl, hfields, hrelations⟩
    · rintro ⟨-, -, hempty, hfields, hrelations⟩
      exact ⟨⟨fun f hf hf' => hempty (hf' ▸ hf), hfields⟩, fun _ _ => trivial, hrelations⟩

theorem Api.offence?_eq_none {a : Api} :
    a.offence? = none ↔ (∀ e ∈ a.edges, e.WellNamed) ∧ (a.edges.map Edge.name).Nodup := by
  refine firstOffence_distinct fun before e => ?_
  rw [Option.or_eq_none_iff, Edge.offence?_eq_none]
  split <;> simp_all

theorem Schema.offence?_eq_none {s : Schema} : s.offence? = none ↔ s.WellNamed := by
  have hcheck : ∀ (before : List Api) (a : Api), (if a.version = "" then some Offence.emptyVersion
      else if a.version ∈ before.map Api.version then some (.repeatedVersion a.version)
      else a.offence?) = none ↔ a.WellNamed ∧ a.version ∉ before.map Api.version := by
    intro before a
    unfold Api.WellNamed
    rw [← Api.offence?_eq_none]
    split
    · simp_all
    · split <;> simp_all
  unfold Schema.offence? Schema.WellNamed
  split
  · simp_all
  · rename_i hne
    rw [firstOffence_distinct hcheck]
    exact ⟨fun h => ⟨hne, h⟩, fun h => h.2⟩

-- ---------------------------------------------------------------------------
-- Looking names up
-- ---------------------------------------------------------------------------

theorem find?_of_nodup_map {α : Type} {key : α → String} {list : List α} {a : α}
    (h : (list.map key).Nodup) (ha : a ∈ list) : list.find? (key · = key a) = some a := by
  obtain ⟨pre, post, rfl⟩ := List.append_of_mem ha
  have hpre : ∀ b ∈ pre, ¬key b = key a := by
    intro b hb hkey
    exact nodup_map_iff.mp h pre a post rfl (hkey ▸ List.mem_map_of_mem hb)
  rw [List.find?_append, List.find?_eq_none.mpr (by simpa using hpre)]
  simp

theorem Api.WellNamed.edge? {a : Api} (h : a.WellNamed) {e : Edge} (he : e ∈ a.edges) :
    a.edge? e.name = some e :=
  find?_of_nodup_map h.2.2 he

end RestQuery

import Mathlib.Data.List.Find
import Mathlib.Data.List.Nodup
import Mathlib.Data.List.Perm.Basic
import RestQuery.Proofs.Outcome

/-!
# Lists that change

Two ways to change a list of declarations: to change each of them and put more
at the end (`Extended`), and to change each of them and put them in another
order (`Rearranged`). A lookup takes the first that matches. More at the end
leaves it at the same declaration, as long as a match was there before; so
does another order, as long as no two match.
-/

namespace RestQuery

variable {α β : Type} {R : α → β → Prop} {as : List α} {bs : List β}

theorem eq_some_of_rel {a : α} {found : Option β} (h : Option.Rel R (some a) found) :
    ∃ b, found = some b ∧ R a b := by
  cases h with
  | some hab => exact ⟨_, rfl, hab⟩

theorem eq_none_of_rel {found : Option β} (h : Option.Rel R none found) : found = none := by
  cases h
  rfl

theorem isSome_of_rel {first : Option α} {found : Option β} (h : Option.Rel R first found) :
    found.isSome = first.isSome := by
  cases h <;> rfl

theorem find?_forall₂ {p : α → Bool} {q : β → Bool} (h : List.Forall₂ R as bs)
    (hpq : ∀ a b, R a b → q b = p a) : Option.Rel R (as.find? p) (bs.find? q) := by
  induction h with
  | nil => exact .none
  | cons hab _ ih =>
    rw [List.find?_cons, List.find?_cons, hpq _ _ hab]
    split
    · exact .some hab
    · exact ih

-- ---------------------------------------------------------------------------
-- More at the end
-- ---------------------------------------------------------------------------

/-- Each element of `as`, changed by `R`, and then elements that are all `New`. -/
def Extended (R : α → β → Prop) (New : β → Prop) (as : List α) (bs : List β) : Prop :=
  ∃ kept added, bs = kept ++ added ∧ List.Forall₂ R as kept ∧ ∀ b ∈ added, New b

namespace Extended

variable {New : β → Prop} {p : α → Bool} {q : β → Bool}

theorem cons {a : α} {b : β} (hab : R a b) (h : Extended R New as bs) :
    Extended R New (a :: as) (b :: bs) := by
  obtain ⟨kept, added, rfl, hkept, hadded⟩ := h
  exact ⟨b :: kept, added, rfl, .cons hab hkept, hadded⟩

theorem find?_eq_some {a : α} (h : Extended R New as bs) (hpq : ∀ a b, R a b → q b = p a)
    (ha : as.find? p = some a) : ∃ b, bs.find? q = some b ∧ R a b := by
  obtain ⟨kept, added, rfl, hkept, -⟩ := h
  obtain ⟨b, hb, hab⟩ := eq_some_of_rel (ha ▸ find?_forall₂ hkept hpq)
  refine ⟨b, ?_, hab⟩
  rw [List.find?_append, hb]
  rfl

theorem find?_eq_none (h : Extended R New as bs) (hpq : ∀ a b, R a b → q b = p a)
    (hnew : ∀ b, New b → q b = false) (ha : as.find? p = none) : bs.find? q = none := by
  obtain ⟨kept, added, rfl, hkept, hadded⟩ := h
  have hkept : kept.find? q = none := eq_none_of_rel (ha ▸ find?_forall₂ hkept hpq)
  have hadded : added.find? q = none :=
    List.find?_eq_none.mpr fun b hb => by simp [hnew b (hadded b hb)]
  rw [List.find?_append, hkept, hadded]
  rfl

end Extended

-- ---------------------------------------------------------------------------
-- Another order
-- ---------------------------------------------------------------------------

/-- The elements of `as` in some order, each changed by `R`. -/
def Rearranged (R : α → β → Prop) (as : List α) (bs : List β) : Prop :=
  ∃ order, as.Perm order ∧ List.Forall₂ R order bs

theorem find?_perm {key : α → String} {other : List α} (h : as.Perm other)
    (hnodup : (as.map key).Nodup) (name : String) :
    as.find? (key · = name) = other.find? (key · = name) := by
  refine List.find?_eq_find?_of_perm h fun a ha b hb => ?_
  simp only [decide_eq_true_eq, Set.mem_ofPred_eq] at ha hb
  exact List.inj_on_of_nodup_map hnodup ha.1 hb.1 (ha.2.trans hb.2.symm)

namespace Rearranged

theorem cons {a : α} {b : β} (hab : R a b) (h : Rearranged R as bs) :
    Rearranged R (a :: as) (b :: bs) := by
  obtain ⟨order, hperm, hrest⟩ := h
  exact ⟨a :: order, hperm.cons a, .cons hab hrest⟩

theorem exists_mem (h : Rearranged R as bs) : ∀ b ∈ bs, ∃ a ∈ as, R a b := by
  obtain ⟨order, hperm, hrest⟩ := h
  intro b hb
  obtain ⟨a, ha, hab⟩ := exists_mem_of_forall₂ hrest b hb
  exact ⟨a, hperm.mem_iff.mpr ha, hab⟩

variable {key : α → String} {key' : β → String}

theorem map_perm (h : Rearranged R as bs) (hkey : ∀ a b, R a b → key' b = key a) :
    (as.map key).Perm (bs.map key') := by
  obtain ⟨order, hperm, hrest⟩ := h
  have hkeys : List.Forall₂ (· = ·) (order.map key) (bs.map key') := by
    rw [List.forall₂_map_left_iff, List.forall₂_map_right_iff]
    exact hrest.imp fun a b hab => (hkey a b hab).symm
  rw [List.forall₂_eq_eq_eq] at hkeys
  exact hkeys ▸ hperm.map key

theorem find? (h : Rearranged R as bs) (hnodup : (as.map key).Nodup)
    (hkey : ∀ a b, R a b → key' b = key a) (name : String) :
    Option.Rel R (as.find? (key · = name)) (bs.find? (key' · = name)) := by
  obtain ⟨order, hperm, hrest⟩ := h
  rw [find?_perm hperm hnodup name]
  exact find?_forall₂ hrest fun a b hab => by rw [hkey a b hab]

end Rearranged

end RestQuery

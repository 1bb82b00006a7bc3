import Mathlib.Data.List.Forall2
import Mathlib.Tactic.ByContra

/-!
# Outcomes

How a chain of checks and a pass over a list come out. A pass succeeds when
every element does (`mapM_ok`) and fails with the error of the first element
that does not (`mapM_error`). Two computations have the `SameFailure` when
they fail with the same errors, whatever they return otherwise; `bind` keeps
that, so chains are compared link by link. They are `Alike` when moreover what
they return is related; `bind` keeps that too.
-/

namespace RestQuery

variable {ε α β γ δ : Type}

theorem bind_ok {x : Except ε α} {f : α → Except ε β} {b : β} :
    x >>= f = .ok b ↔ ∃ a, x = .ok a ∧ f a = .ok b := by
  cases x <;> simp [bind, Except.bind]

theorem bind_error {x : Except ε α} {f : α → Except ε β} {e : ε} :
    x >>= f = .error e ↔ x = .error e ∨ ∃ a, x = .ok a ∧ f a = .error e := by
  cases x <;> simp [bind, Except.bind]

theorem pure_ok {a b : α} : (pure a : Except ε α) = .ok b ↔ a = b := by
  simp [pure, Except.pure]

theorem pure_ne_error {a : α} {e : ε} : (pure a : Except ε α) ≠ .error e := nofun

theorem map_ok {f : α → β} {x : Except ε α} {b : β} :
    f <$> x = .ok b ↔ ∃ a, x = .ok a ∧ f a = b := by
  cases x <;> simp [Functor.map, Except.map]

theorem ok_bind (a : α) (f : α → Except ε β) : (.ok a >>= f) = f a := rfl

theorem error_bind (e : ε) (f : α → Except ε β) : (.error e >>= f) = .error e := rfl

theorem mapM_ok {f : α → Except ε β} {as : List α} {bs : List β} :
    as.mapM f = .ok bs ↔ List.Forall₂ (fun a b => f a = .ok b) as bs := by
  induction as generalizing bs with
  | nil => rw [List.mapM_nil, pure_ok, List.forall₂_nil_left_iff, eq_comm]
  | cons a as ih =>
    simp only [List.mapM_cons, bind_ok, pure_ok, ih]
    constructor
    · rintro ⟨b, hb, bs, hbs, rfl⟩
      exact .cons hb hbs
    · rintro (_ | ⟨hb, hbs⟩)
      exact ⟨_, hb, _, hbs, rfl⟩

theorem forall₂_of_mapM_ok {f : α → Except ε β} {R : α → β → Prop} {as : List α} {bs : List β}
    (h : as.mapM f = .ok bs) (hR : ∀ a ∈ as, ∀ b, f a = .ok b → R a b) :
    List.Forall₂ R as bs := by
  have hall := mapM_ok.mp h
  clear h
  induction hall with
  | nil => exact .nil
  | cons hb _ ih =>
    rw [List.forall_mem_cons] at hR
    exact .cons (hR.1 _ hb) (ih hR.2)

/-- A pass that turns each element into another and checks that. -/
theorem mapM_ok_of_check {f : α → Except ε β} {g : α → β} {P : β → Prop}
    (h : ∀ a b, f a = .ok b ↔ b = g a ∧ P b) {as : List α} {bs : List β} :
    as.mapM f = .ok bs ↔ bs = as.map g ∧ ∀ b ∈ bs, P b := by
  simp only [mapM_ok, h]
  constructor
  · intro hall
    induction hall with
    | nil => simp
    | cons hab _ ih =>
      obtain ⟨rfl, hb⟩ := hab
      obtain ⟨rfl, hrest⟩ := ih
      exact ⟨rfl, List.forall_mem_cons.mpr ⟨hb, hrest⟩⟩
  · rintro ⟨rfl, hall⟩
    rw [List.forall₂_map_right_iff]
    exact List.forall₂_same.mpr fun a ha => ⟨rfl, hall _ (List.mem_map_of_mem ha)⟩

theorem exists_mem_of_forall₂ {R : α → β → Prop} {as : List α} {bs : List β}
    (h : List.Forall₂ R as bs) : ∀ b ∈ bs, ∃ a ∈ as, R a b := by
  induction h with
  | nil => simp
  | cons hab _ ih =>
    refine List.forall_mem_cons.mpr ⟨⟨_, List.mem_cons_self, hab⟩, fun b hb => ?_⟩
    obtain ⟨a, ha, hab⟩ := ih b hb
    exact ⟨a, List.mem_cons_of_mem _ ha, hab⟩

theorem exists_of_mapM_ok {f : α → Except ε β} {as : List α} {bs : List β}
    (h : as.mapM f = .ok bs) : ∀ b ∈ bs, ∃ a ∈ as, f a = .ok b :=
  exists_mem_of_forall₂ (mapM_ok.mp h)

theorem mapM_error {f : α → Except ε β} {as : List α} {e : ε} :
    as.mapM f = .error e ↔ ∃ before a after, as = before ++ a :: after ∧
      (∀ b ∈ before, ∃ c, f b = .ok c) ∧ f a = .error e := by
  induction as with
  | nil => simp [pure, Except.pure]
  | cons a as ih =>
    rw [List.mapM_cons]
    cases ha : f a with
    | error e' =>
      rw [error_bind, Except.error.injEq]
      constructor
      · rintro rfl
        exact ⟨[], a, as, rfl, by simp, ha⟩
      · rintro ⟨before, b, after, has, hbefore, hb⟩
        cases before with
        | nil => simp_all
        | cons c before =>
          obtain ⟨rfl, -⟩ := List.cons.inj has
          obtain ⟨x, hx⟩ := hbefore a List.mem_cons_self
          simp [ha] at hx
    | ok x =>
      -- the head adds an element to what the rest returns, and no error
      have hrest : (.ok x >>= fun x => as.mapM f >>= fun xs => pure (x :: xs)) = .error e ↔
          as.mapM f = .error e := by
        rw [ok_bind]
        cases as.mapM f <;> simp [bind, Except.bind, pure, Except.pure]
      rw [hrest, ih]
      constructor
      · rintro ⟨before, b, after, rfl, hbefore, hb⟩
        refine ⟨a :: before, b, after, rfl, ?_, hb⟩
        intro c hc
        rcases List.mem_cons.mp hc with rfl | hc
        · exact ⟨x, ha⟩
        · exact hbefore c hc
      · rintro ⟨before, b, after, has, hbefore, hb⟩
        cases before with
        | nil => simp_all
        | cons c before =>
          obtain ⟨rfl, rfl⟩ := List.cons.inj has
          exact ⟨before, b, after, rfl, fun c hc => hbefore c (List.mem_cons_of_mem _ hc), hb⟩

theorem exists_error_iff {x : Except ε α} : (∃ e, x = .error e) ↔ ¬∃ a, x = .ok a := by
  cases x <;> simp

theorem mapM_exists_ok {f : α → Except ε β} {as : List α} :
    (∃ bs, as.mapM f = .ok bs) ↔ ∀ a ∈ as, ∃ b, f a = .ok b := by
  constructor
  · rintro ⟨bs, h⟩
    have hall := mapM_ok.mp h
    clear h
    induction hall with
    | nil => simp
    | cons hb _ ih => exact List.forall_mem_cons.mpr ⟨⟨_, hb⟩, ih⟩
  · intro h
    by_contra hno
    -- a pass that does not return has a first element that fails
    obtain ⟨e, he⟩ := exists_error_iff.mpr hno
    obtain ⟨before, a, after, rfl, -, ha⟩ := mapM_error.mp he
    obtain ⟨b, hb⟩ := h a (by simp)
    simp [ha] at hb

-- ---------------------------------------------------------------------------
-- Failing alike
-- ---------------------------------------------------------------------------

def SameFailure (x : Except ε α) (y : Except ε β) : Prop :=
  ∀ e, x = .error e ↔ y = .error e

namespace SameFailure

variable {x : Except ε α} {y : Except ε β}

theorem refl (x : Except ε α) : SameFailure x x := fun _ => .rfl

theorem of_ok {a : α} {b : β} (hx : x = .ok a) (hy : y = .ok b) : SameFailure x y := by
  intro e
  simp [hx, hy]

theorem map (f : α → β) (x : Except ε α) : SameFailure x (f <$> x) := by
  intro e
  cases x <;> simp [Functor.map, Except.map]

theorem exists_ok (h : SameFailure x y) : (∃ a, x = .ok a) ↔ ∃ b, y = .ok b := by
  cases x with
  | error e => simp [(h e).mp rfl]
  | ok a =>
    cases y with
    | error e => exact absurd ((h e).mpr rfl) (by simp)
    | ok b => simp

theorem bind {f : α → Except ε γ} {g : β → Except ε δ} (h : SameFailure x y)
    (hfg : ∀ a b, SameFailure (f a) (g b)) : SameFailure (x >>= f) (y >>= g) := by
  cases x with
  | error e =>
    rw [(h e).mp rfl]
    exact fun _ => by simp [error_bind]
  | ok a =>
    obtain ⟨b, rfl⟩ := h.exists_ok.mp ⟨a, rfl⟩
    exact hfg a b

theorem trans {z : Except ε γ} (hxy : SameFailure x y) (hyz : SameFailure y z) :
    SameFailure x z :=
  fun e => (hxy e).trans (hyz e)

theorem mapM {f : α → Except ε β} {g : α → Except ε γ} {as : List α}
    (h : ∀ a ∈ as, SameFailure (f a) (g a)) : SameFailure (as.mapM f) (as.mapM g) := by
  induction as with
  | nil => exact .of_ok rfl rfl
  | cons a as ih =>
    rw [List.forall_mem_cons] at h
    rw [List.mapM_cons, List.mapM_cons]
    exact h.1.bind fun _ _ => (ih h.2).bind fun _ _ => .of_ok rfl rfl

end SameFailure

-- ---------------------------------------------------------------------------
-- Coming out alike
-- ---------------------------------------------------------------------------

inductive Alike (R : α → β → Prop) : Except ε α → Except ε β → Prop
  | ok {a : α} {b : β} : R a b → Alike R (.ok a) (.ok b)
  | error (e : ε) : Alike R (.error e) (.error e)

namespace Alike

variable {R : α → β → Prop} {x : Except ε α} {y : Except ε β}

theorem error_or_ok (h : Alike R x y) :
    (∃ e, x = .error e ∧ y = .error e) ∨ ∃ a b, R a b ∧ x = .ok a ∧ y = .ok b := by
  cases h with
  | ok hab => exact .inr ⟨_, _, hab, rfl, rfl⟩
  | error e => exact .inl ⟨e, rfl, rfl⟩

theorem bind {S : γ → δ → Prop} {f : α → Except ε γ} {g : β → Except ε δ} (h : Alike R x y)
    (hfg : ∀ a b, R a b → Alike S (f a) (g b)) : Alike S (x >>= f) (y >>= g) := by
  cases h with
  | ok hab => exact hfg _ _ hab
  | error e => exact .error e

theorem bind_eq {f : α → Except ε γ} {g : β → Except ε γ} (h : Alike R x y)
    (hfg : ∀ a b, R a b → f a = g b) : x >>= f = y >>= g := by
  cases h with
  | ok hab => exact hfg _ _ hab
  | error e => rfl

end Alike

end RestQuery
